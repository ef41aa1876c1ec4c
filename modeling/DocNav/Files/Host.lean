import DocNav.Files.Tree
/-!
# What the program asks of its machine

A `Host` is the machine as the program sees it: text files, directories, a working directory and the
variables of an environment. Programs are written for any host; `FileTree.host` is the one whose whole disk is
a file tree.
-/

namespace DocNav

structure Host (m : Type → Type) where
  readText : FilePath → m (Except FileFault String)
  isThere : FilePath → m Bool
  makeDirectories : FilePath → m (Except FileFault Unit)
  writeText : FilePath → String → m (Except FileFault Unit)
  workingDir : m FilePath
  /-- The environment, for the variables named. -/
  environment : List String → m (String → Option String)

/-- The value of a variable where each setting is a line of a name, `=` and a value: what follows the name and
`=` in the first line that starts with them. A name that is empty or holds NUL names none. -/
def lookupVariable (settings : List (String × String)) (name : String) : Option String :=
  if name = "" ∨ '\x00' ∈ name.toList then none
  else settings.findSome? fun (k, v) =>
    ((name.toList ++ ['=']).isPrefixOf? (k.toList ++ '=' :: v.toList)).map String.ofList

namespace FileTree

/-- Changes the tree where the change succeeds. -/
def attempt (change : FileTree → Except FileFault FileTree) : StateM FileTree (Except FileFault Unit) :=
  fun t =>
    match change t with
    | .ok t' => (.ok (), t')
    | .error e => (.error e, t)

def host (workingDir : FilePath) (settings : List (String × String)) : Host (StateM FileTree) where
  readText p := return (← get).readText workingDir p
  isThere p := return (← get).isThere workingDir p
  makeDirectories p := attempt (·.makeDirectories workingDir p)
  writeText p s := attempt (·.writeText workingDir p s)
  workingDir := pure workingDir
  environment _ := pure (lookupVariable settings)

end FileTree
end DocNav
