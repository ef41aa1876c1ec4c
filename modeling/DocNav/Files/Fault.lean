/-!
# Why a file operation fails

Each cause has the words it is reported with. What matters to the readers of files beyond the words is only
the kind: nothing there, a wait that ran out or was broken off, or anything else.
-/

namespace DocNav

inductive FaultKind where
  | absent
  | timedOut
  | interrupted
  | other
deriving DecidableEq, Repr

inductive FileFault where
  | missing
  | alreadyThere
  | notDirectory
  | isDirectory
  | nameTooLong
  | nulInName
  | notText
  /-- What a machine reports in its own words. -/
  | reported (kind : FaultKind) (words : String)
deriving DecidableEq, Repr

namespace FileFault

def kind : FileFault → FaultKind
  | missing => .absent
  | reported k _ => k
  | _ => .other

def message : FileFault → String
  | missing => "No such file or directory (os error 2)"
  | alreadyThere => "File exists (os error 17)"
  | notDirectory => "Not a directory (os error 20)"
  | isDirectory => "Is a directory (os error 21)"
  | nameTooLong => "File name too long (os error 36)"
  | nulInName => "file name contained an unexpected NUL byte"
  | notText => "stream did not contain valid UTF-8"
  | reported _ words => words

end FileFault
end DocNav
