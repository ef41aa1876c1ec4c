import DocNav.Files.Host
import DocNav.Json.Reader
import DocNav.View
/-!
# Remembering the toggle

Whether the panes are linked is remembered in the file `sync.json` of a state directory, as the JSON record
of one field `enabled`. Remembering is best effort: what cannot be read counts as nothing remembered, and
what cannot be written is let go.
-/

namespace DocNav.StateFolder

def file (dir : FilePath) : FilePath := dir.join ⟨"sync.json"⟩

/-- What a state file says. -/
def parse (text : List Char) : Option Bool := do
  match ← (← Json.read? text).asRecord? ["enabled"] with
  | [some j] => j.asBool?
  | _ => none

def render (enabled : Bool) : String :=
  "\x7b\"enabled\":" ++ (if enabled then "true" else "false") ++ "\x7d"

variable {m : Type → Type} [Monad m]

def get (host : Host m) (dir : FilePath) : m (Option Bool) := do
  if !(← host.isThere (file dir)) then return none
  match ← host.readText (file dir) with
  | .error _ => return none
  | .ok text => return parse text.toList

def set (host : Host m) (dir : FilePath) (enabled : Bool) : m Unit := do
  match ← host.makeDirectories dir with
  | .error _ => return ()
  | .ok () => let _ ← host.writeText (file dir) (render enabled)

end DocNav.StateFolder
