import RuleScope.Disk.Basic

namespace RuleScope.Disk

def put (d : Disk) (p : AbsPath) (e : DiskEntry) : Disk :=
  { d with entries := Table.put p e d.entries }

/-- Writes a file, new or in place of the old text. A file has no slash behind its name. -/
def writeAt (d : Disk) (time : Int) (path text : String) : Except DiskFault Disk := do
  match ← d.seek true path with
  | .free p slashed =>
    if slashed then .error .isDirectory else pure (d.put p (.file text time))
  | .found p =>
    match d.entry? p with
    | some (.file _ _) => pure (d.put p (.file text time))
    | some _ => .error .isDirectory
    | none => .error .notFound

def write (d : Disk) (path text : String) : Except DiskFault Disk := d.writeAt d.now path text

/-- Makes one directory. -/
def makeDirectory (d : Disk) (path : String) : Except DiskFault Disk := do
  match ← d.seek false path with
  | .free p _ => pure (d.put p .directory)
  | .found _ => .error .taken

/-- Makes a directory unless there is one. -/
def ensureDirectory (d : Disk) (path : String) : Except DiskFault Disk :=
  match d.makeDirectory path with
  | .ok d => .ok d
  | .error e => if d.isDirectory path then .ok d else .error e

/-- Makes the directory with these parts, the last one first, and those above it that are
missing. -/
def makeParts (d : Disk) : List Path.Part → Disk × Option DiskFault
  | [] => (d, none)
  | part :: above =>
    let path := Path.ofParts (part :: above).reverse
    match d.ensureDirectory path with
    | .ok d => (d, none)
    | .error .notFound =>
      match d.makeParts above with
      | (d, some e) => (d, some e)
      | (d, none) =>
        match d.ensureDirectory path with
        | .ok d => (d, none)
        | .error e => (d, some e)
    | .error e => (d, some e)

/-- Makes a directory and those above it that are missing. -/
def makeDirectories (d : Disk) (path : String) : Disk × Option DiskFault :=
  d.makeParts (Path.parts path).reverse

/-- Removes what lies at a path, with all below it; of a link only the link. -/
def remove (d : Disk) (path : String) : Except DiskFault Disk := do
  match ← d.seek false path with
  | .free _ _ => .error .notFound
  | .found p => pure { d with entries := d.entries.filter fun e => !e.1.isWithin p }

/-- Makes a link. -/
def link (d : Disk) (path target : String) : Except DiskFault Disk := do
  match ← d.seek false path with
  | .free p slashed => if slashed then .error .notFound else pure (d.put p (.link target))
  | .found _ => .error .taken

/-- Gives a file another time of change. -/
def setModified (d : Disk) (time : Int) (path : String) : Except DiskFault Disk := do
  let p ← d.find path
  match d.entry? p with
  | some (.file text _) => pure (d.put p (.file text time))
  | _ => pure d

end RuleScope.Disk
