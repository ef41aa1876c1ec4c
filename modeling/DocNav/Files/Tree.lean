import DocNav.Files.Fault
import DocNav.Files.Path
/-!
# File trees

A file tree is the content of a file system without links: directories of named entries, and files that hold
text or bytes that are none. Paths are looked up piece by piece from the top; a piece can only follow a
directory, an empty piece and `.` stay where they are, and `..` goes back up. A relative path starts at a
working directory, whose own path is absolute.
-/

namespace DocNav

inductive FileContent where
  | text (s : String)
  | bytes
deriving DecidableEq, Repr

inductive FileEntry where
  | file (content : FileContent)
  | directory (entries : List (String × FileEntry))
deriving Repr, Inhabited

namespace FileEntry

def isDirectory : FileEntry → Bool
  | directory _ => true
  | file _ => false

def entry? : FileEntry → String → Option FileEntry
  | directory es, name => es.lookup name
  | file _, _ => none

/-- The entry below, following names from directory to directory. -/
def below? (e : FileEntry) : List String → Option FileEntry
  | [] => some e
  | name :: names =>
    match e.entry? name with
    | none => none
    | some c => c.below? names

/-- The entries with one of them set: in place if there is one of that name, at the end otherwise. -/
def setEntry (name : String) (e : FileEntry) : List (String × FileEntry) → List (String × FileEntry)
  | [] => [(name, e)]
  | (n, old) :: rest => if n = name then (n, e) :: rest else (n, old) :: setEntry name e rest

/-- The tree with an entry set in the directory at a place; the same tree if none is there. -/
def setBelow (e : FileEntry) (name : String) (new : FileEntry) (place : List String) : FileEntry :=
  match e, place with
  | file c, _ => file c
  | directory es, [] => directory (setEntry name new es)
  | directory es, n :: ns =>
    match es.lookup n with
    | none => directory es
    | some c => directory (setEntry n (c.setBelow name new ns) es)
termination_by structural place

mutual
/-- Every entry below, by its path: directories end in `/`, and a file comes with its text, if it is text. -/
def listing (path : String) : FileEntry → List (String × Option String)
  | file (.text s) => [(path, some s)]
  | file .bytes => [(path, none)]
  | directory es => listingAll path es

def listingAll (path : String) : List (String × FileEntry) → List (String × Option String)
  | [] => []
  | (name, directory es) :: rest =>
    (path ++ name ++ "/", none) :: listingAll (path ++ name ++ "/") es ++ listingAll path rest
  | (name, file c) :: rest => listing (path ++ name) (file c) ++ listingAll path rest
end

end FileEntry

structure FileTree where
  top : FileEntry
deriving Repr, Inhabited

namespace FileTree

/-- The most bytes a name may have, and one more than a path may have. -/
def nameLimit : Nat := 255
def pathLimit : Nat := 4096

/-- Where the pieces lead from a place, as the names of the directories above it and its own. -/
def walk (t : FileTree) (place : List String) : List (List Char) → Except FileFault (List String)
  | [] => .ok place
  | piece :: rest =>
    match t.top.below? place with
    | none => .error .missing
    | some (.file _) => .error .notDirectory
    | some (.directory es) =>
      if piece = [] ∨ piece = ['.'] then t.walk place rest
      else if piece = ['.', '.'] then t.walk place.dropLast rest
      else if nameLimit < (String.ofList piece).utf8ByteSize then .error .nameTooLong
      else
        match es.lookup (String.ofList piece) with
        | none => .error .missing
        | some _ => t.walk (place ++ [String.ofList piece]) rest

/-- The pieces of a path, of which neither it nor any part may be too long or hold a NUL. -/
def checkedPieces (p : FilePath) : Except FileFault (List (List Char)) :=
  if '\x00' ∈ p.text.toList then .error .nulInName
  else if pathLimit ≤ p.text.utf8ByteSize then .error .nameTooLong
  else if p.text = "" then .error .missing
  else .ok (FilePath.pieces p.text.toList)

/-- The place of a path that is there, from the working directory. -/
def locate (t : FileTree) (workingDir p : FilePath) : Except FileFault (List String) := do
  let pieces ← checkedPieces p
  let start ← if p.isAbsolute then pure [] else t.walk [] (FilePath.pieces workingDir.text.toList)
  t.walk start pieces

def isThere (t : FileTree) (workingDir p : FilePath) : Bool :=
  (t.locate workingDir p).toOption.isSome

def readText (t : FileTree) (workingDir p : FilePath) : Except FileFault String := do
  let place ← t.locate workingDir p
  match t.top.below? place with
  | some (.file (.text s)) => .ok s
  | some (.file .bytes) => .error .notText
  | some (.directory _) => .error .isDirectory
  | none => .error .missing

/-- A path's last name and the place of the directory that holds it or would hold it. A path that names no
entry of a directory, such as `/` or `a/..`, has no last name. -/
def locateNew (t : FileTree) (workingDir p : FilePath) : Except FileFault (List String × Option String) := do
  let pieces ← checkedPieces p
  let start ← if p.isAbsolute then pure [] else t.walk [] (FilePath.pieces workingDir.text.toList)
  let reversed := pieces.reverse.dropWhile (· = [])
  match reversed with
  | [] => .ok (start, none)
  | last :: above =>
    let dir ← t.walk start above.reverse
    match t.top.below? dir with
    | some (.directory _) =>
      if last = ['.'] ∨ last = ['.', '.'] then .ok (dir, none)
      else if nameLimit < (String.ofList last).utf8ByteSize then .error .nameTooLong
      else .ok (dir, some (String.ofList last))
    | some (.file _) => .error .notDirectory
    | none => .error .missing

def makeDirectory (t : FileTree) (workingDir p : FilePath) : Except FileFault FileTree := do
  match ← t.locateNew workingDir p with
  | (_, none) => .error .alreadyThere
  | (dir, some name) =>
    match t.top.below? (dir ++ [name]) with
    | some _ => .error .alreadyThere
    | none => .ok ⟨t.top.setBelow name (.directory []) dir⟩

def isDirectory (t : FileTree) (workingDir p : FilePath) : Bool :=
  match t.locate workingDir p with
  | .ok place => (t.top.below? place).any FileEntry.isDirectory
  | .error _ => false

/-- Makes the directory and those above it that are not there. `steps` bounds how far up to begin. -/
def makeDirectoriesIn (steps : Nat) (t : FileTree) (workingDir p : FilePath) : Except FileFault FileTree :=
  if p.text = "" then .ok t
  else
    match t.makeDirectory workingDir p, steps with
    | .ok t', _ => .ok t'
    | .error .missing, steps + 1 =>
      match p.parent? with
      | none => .error .missing
      | some above =>
        match makeDirectoriesIn steps t workingDir above with
        | .error e => .error e
        | .ok t' =>
          match t'.makeDirectory workingDir p with
          | .ok t'' => .ok t''
          | .error e => if t'.isDirectory workingDir p then .ok t' else .error e
    | .error e, _ => if t.isDirectory workingDir p then .ok t else .error e

def makeDirectories (t : FileTree) (workingDir p : FilePath) : Except FileFault FileTree :=
  makeDirectoriesIn p.text.length t workingDir p

/-- Sets the whole content of a file, which is made if it is not there. -/
def writeText (t : FileTree) (workingDir p : FilePath) (s : String) : Except FileFault FileTree := do
  match ← t.locateNew workingDir p with
  | (_, none) => .error .isDirectory
  | (dir, some name) =>
    match t.top.below? (dir ++ [name]) with
    | some (.directory _) => .error .isDirectory
    | some (.file _) =>
      if p.text.endsWith "/" then .error .notDirectory
      else .ok ⟨t.top.setBelow name (.file (.text s)) dir⟩
    | none =>
      if p.text.endsWith "/" then .error .isDirectory
      else .ok ⟨t.top.setBelow name (.file (.text s)) dir⟩

end FileTree
end DocNav
