import DocNav.Cli.Run
/-!
# The program

The command line on the machine it runs on.
-/

namespace DocNav

/-- The number of a failure, which some operations give with its sign changed. -/
def failureNumber (code : UInt32) : UInt32 := min code (0 - code)

/-- What a failed operation of the machine counts as. -/
def faultOf : IO.Error → FileFault
  | .noFileOrDirectory .. | .noSuchThing .. => .missing
  | .alreadyExists .. | .resourceBusy .. => .alreadyThere
  | .inappropriateType _ code _ => if failureNumber code = 20 then .notDirectory else .isDirectory
  | .invalidArgument _ code words => if failureNumber code = 36 then .nameTooLong else .reported .other words
  | .timeExpired _ words => .reported .timedOut words
  | .interrupted _ _ words => .reported .interrupted words
  | e => .reported .other (toString e)

def attemptOn {α : Type} (act : IO α) : IO (Except FileFault α) := do
  match ← act.toBaseIO with
  | .ok a => return .ok a
  | .error e => return .error (faultOf e)

def machineHost : Host IO where
  readText p := do
    match ← attemptOn (IO.FS.readBinFile p.text) with
    | .error fault => return .error fault
    | .ok bytes =>
      match String.fromUTF8? bytes with
      | some s => return .ok s
      | none => return .error .notText
  isThere p := return (← attemptOn (IO.FS.realPath p.text)).toOption.isSome
  makeDirectories p := if p.text = "" then return .ok () else attemptOn (IO.FS.createDirAll p.text)
  writeText p s := attemptOn (IO.FS.writeFile p.text s)
  workingDir := return ⟨toString (← IO.currentDir)⟩
  environment names := do
    let settings ← (names.filter fun name => '\x00' ∉ name.toList).filterMapM fun name => do
      match ← IO.getEnv name with
      | some v => return some (name, v)
      | none => return none
    return fun name => settings.lookup name

/-- More rounds of loading than any run lasts. -/
def allRounds : Nat := Nat.pow 2 64

end DocNav

def main (args : List String) : IO UInt32 := do
  let report ← DocNav.Cli.run DocNav.machineHost DocNav.allRounds args
  for s in report.out do
    IO.println s
  for s in report.err do
    IO.eprintln s
  return report.exitCode.toUInt32
