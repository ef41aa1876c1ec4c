/-!
# File paths as text

A path is its text, and nothing in it is normalised: components are separated by `/`, an absolute path
starts with one, empty components and `.` behind the start count for nothing, and `..` is a component like
any other.
-/

namespace DocNav

structure FilePath where
  text : String
deriving DecidableEq, Repr, Inhabited

namespace FilePath

def isAbsolute (p : FilePath) : Bool := p.text.startsWith "/"

/-- The second path as seen from the first: an absolute one stands for itself. -/
def join (dir p : FilePath) : FilePath :=
  if p.isAbsolute then p
  else if dir.text.isEmpty || dir.text.endsWith "/" then ⟨dir.text ++ p.text⟩
  else ⟨dir.text ++ "/" ++ p.text⟩

/-- Drops what counts for nothing at the end of a path, here at the start of its reversed text: `/` and
`/.`, but neither the `/` that makes it absolute nor a `.` that it starts with. -/
def trimReversed : List Char → List Char
  | ['/'] => ['/']
  | '/' :: rest => trimReversed rest
  | ['.', '/'] => ['/']
  | '.' :: '/' :: rest => trimReversed ('/' :: rest)
  | cs => cs
termination_by cs => cs.length

/-- The last component and what stands before it, both in reversed text. -/
def splitReversed (p : FilePath) : List Char × List Char :=
  let cs := trimReversed p.text.toList.reverse
  (cs.takeWhile (· ≠ '/'), cs.dropWhile (· ≠ '/'))

/-- The path without its last component; the root and the empty path have none. -/
def parent? (p : FilePath) : Option FilePath :=
  match p.splitReversed with
  | ([], _) => none
  | (_, above) => some ⟨String.ofList (trimReversed above).reverse⟩

/-- The directory that holds the path, `.` for a bare file name. -/
def directory (p : FilePath) : FilePath :=
  match p.parent? with
  | none => ⟨"."⟩
  | some d => if d.text.isEmpty then ⟨"."⟩ else d

def fileName? (p : FilePath) : Option String :=
  let name := String.ofList p.splitReversed.1.reverse
  if name = "" || name = "." || name = ".." then none else some name

/-- What follows the last dot of the file name, if something precedes that dot. -/
def extension? (p : FilePath) : Option String :=
  match p.fileName? with
  | none => none
  | some name =>
    let cs := name.toList.reverse
    match cs.dropWhile (· ≠ '.') with
    | '.' :: _ :: _ => some (String.ofList (cs.takeWhile (· ≠ '.')).reverse)
    | _ => none

/-- The text between the separators, empty pieces included. -/
def pieces : List Char → List (List Char)
  | [] => [[]]
  | c :: cs =>
    if c = '/' then [] :: pieces cs
    else
      match pieces cs with
      | [] => [[c]]
      | p :: ps => (c :: p) :: ps

end FilePath
end DocNav
