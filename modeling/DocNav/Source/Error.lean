import DocNav.Files.Fault
import DocNav.Files.Path
import DocNav.Node
/-!
# Why a source cannot give a fragment

A `SourceError` has a kind, advice on trying again, and what is known of the place where it arose. It reads
`[Backend] What went wrong: cause (handle: h, path: p)`, each part only where it is known.
-/

namespace DocNav

inductive SourceErrorKind where
  | notFound
  | invalidHandle
  | invalidData
  | unavailable
  | other
deriving DecidableEq, Repr

def SourceErrorKind.words : SourceErrorKind → String
  | notFound => "Fragment not found"
  | invalidHandle => "Invalid handle"
  | invalidData => "Invalid fragment"
  | unavailable => "Unavailable"
  | other => "Error"

/-- Whether to try again: never, at once, or after a while. -/
inductive RetryAdvice where
  | permanent
  | temporary
  | persistent
deriving DecidableEq, Repr

structure SourceError where
  kind : SourceErrorKind
  advice : RetryAdvice := .permanent
  handle : Option Handle := none
  path : Option FilePath := none
  backend : Option String := none
  /-- The words of the error behind this one. -/
  cause : Option String := none
deriving DecidableEq, Repr

namespace SourceError

def ofFault (fault : FileFault) (path : FilePath) : SourceError :=
  let base : SourceError :=
    match fault.kind with
    | .absent => { kind := .notFound }
    | .timedOut | .interrupted => { kind := .unavailable, advice := .temporary }
    | .other => { kind := .other }
  { base with cause := some fault.message, path := some path }

def place (e : SourceError) : String :=
  match e.handle, e.path with
  | some h, some p => " (handle: " ++ h.key ++ ", path: " ++ p.text ++ ")"
  | some h, none => " (handle: " ++ h.key ++ ")"
  | none, some p => " (path: " ++ p.text ++ ")"
  | none, none => ""

def message (e : SourceError) : String :=
  (e.backend.elim "" fun b => "[" ++ b ++ "] ") ++ e.kind.words ++ (e.cause.elim "" (": " ++ ·)) ++ e.place

end SourceError

/-- What a source says when it is asked for the fragment of a handle. -/
abbrev Answer := Except SourceError (List Node)

end DocNav
