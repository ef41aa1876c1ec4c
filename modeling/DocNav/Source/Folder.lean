import DocNav.NavData
import DocNav.Source.Error
/-!
# Fragments in a folder

The fragment of a handle is the file `handle.json` of the folder, an array of records, or else `handle.js`, a
script that assigns the array to a variable named as the handle. The script is not looked at where the JSON
file is there. A handle that could lead out of the folder, or to a hidden file, names no fragment.
-/

namespace DocNav.Folder

def backend : String := "Fs"

/-- Whether a handle can be part of a file name in the folder. -/
def isFileStem (h : Handle) : Bool :=
  h.key ≠ "" && !h.key.toList.contains '/' && !h.key.toList.contains '\\' && h.key.toList.head? ≠ some '.'

def jsonFile (dir : FilePath) (h : Handle) : FilePath := dir.join ⟨h.key ++ ".json"⟩

def scriptFile (dir : FilePath) (h : Handle) : FilePath := dir.join ⟨h.key ++ ".js"⟩

def invalidData (h : Handle) (path : FilePath) : SourceError :=
  { kind := .invalidData, handle := some h, path := some path, backend := some backend }

def parseJson (h : Handle) (path : FilePath) (text : List Char) : Answer :=
  (readFragment text).mapError fun e => { invalidData h path with cause := some e.message }

def parseScript (h : Handle) (path : FilePath) (text : List Char) : Answer :=
  match Script.listLiteral? h.key.toList text with
  | none => .error (invalidData h path)
  | some list => parseJson h path list

/-- Reads a file: what it says, a failure, or nothing if it is not there. -/
def readFile (parse : Handle → FilePath → List Char → Answer) (h : Handle) (path : FilePath) :
    Except FileFault String → Option Answer
  | .ok text => some (parse h path text.toList)
  | .error fault =>
    if fault.kind = .absent then none
    else some (.error { SourceError.ofFault fault path with handle := some h, backend := some backend })

def fetch {m : Type → Type} [Monad m] (read : FilePath → m (Except FileFault String)) (dir : FilePath)
    (h : Handle) : m Answer := do
  if !isFileStem h then
    return .error { kind := .invalidHandle, handle := some h, backend := some backend }
  match readFile parseJson h (jsonFile dir h) (← read (jsonFile dir h)) with
  | some a => return a
  | none =>
    match readFile parseScript h (scriptFile dir h) (← read (scriptFile dir h)) with
    | some a => return a
    | none =>
      return .error { kind := .notFound, handle := some h, path := some dir, backend := some backend }

end DocNav.Folder
