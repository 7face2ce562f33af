import RuleScope.Command.Fault

namespace RuleScope.Command

/-- A project after a command. -/
structure Done where
  session : Session
  disk : Disk
  outcome : Except Fault (List String)

/-- Sets a rule, or every rule below an import, and keeps that for the next session. -/
def set (s : Session) (d : Disk) (target : String) (state : LoggingState) : Done :=
  match s.model with
  | none => ⟨s, d, .error .noModel⟩
  | some m =>
    match m.tree.target target with
    | .error e => ⟨s, d, .error (.target e)⟩
    | .ok n =>
      match m.setState n state with
      | .error e => ⟨s, d, .error (.change e)⟩
      | .ok u =>
        let m := u.model
        let (s, d, saved) := { s with model := some m }.save d
        match saved with
        | .error e => ⟨s, d, .error (.store e)⟩
        | .ok _ =>
          let place := String.intercalate "/" (m.tree.labelPath n)
          ⟨s, d, .ok [place ++ ": " ++ state.display ++ " (root: "
            ++ (m.state RuleTree.root).display ++ ")"]⟩

/-- Saves the choices under a name. -/
def saveSnapshot (s : Session) (d : Disk) (name : String) : Done :=
  let (s, d, saved) := s.saveSnapshot d name
  match saved with
  | .error e => ⟨s, d, .error (.store e)⟩
  | .ok path => ⟨s, d, .ok ["Saved snapshot '" ++ name ++ "' to " ++ path]⟩

/-- Restores the choices saved under a name, and keeps them for the next session. -/
def applySnapshot (s : Session) (d : Disk) (name : String) : Done :=
  match s.applySnapshot d name with
  | (s, .error e) => ⟨s, d, .error (.store e)⟩
  | (s, .ok false) =>
    ⟨s, d, .ok ["Snapshot '" ++ name ++ "' does not match the compiled rules"]⟩
  | (s, .ok true) =>
    let (s, d, saved) := s.save d
    match saved with
    | .error e => ⟨s, d, .error (.store e)⟩
    | .ok _ => ⟨s, d, .ok ["Applied snapshot '" ++ name ++ "'"]⟩

end RuleScope.Command
