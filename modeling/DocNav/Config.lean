import DocNav.Config.Expand
import DocNav.Files.Host
import DocNav.Toml.Reader
/-!
# Configuration

A configuration file says where the navigation data, the fragments and the anchor table are, and how the
panes start out. Relative paths in it start at its own directory. Without a file the usual places below the
working directory count. A data file given on the command line takes the place of the configured one; the
fragments then lie beside it, unless the file says where they are.
-/

namespace DocNav

structure DataSection where
  source : Option String := none
  fragmentsDir : Option String := none
  anchors : Option String := none
deriving DecidableEq, Repr, Inhabited

structure SyncSection where
  enabled : Bool := true
  persist : Bool := true
  onMessage : Option String := none
  offMessage : Option String := none
deriving DecidableEq, Repr, Inhabited

/-- What a configuration file says. -/
structure ConfigText where
  data : DataSection := {}
  sync : SyncSection := {}
deriving DecidableEq, Repr, Inhabited

/-- The files and directories that the program works with. -/
structure Places where
  source : FilePath
  fragmentsDir : FilePath
  anchors : Option FilePath
  projectDir : FilePath
deriving DecidableEq, Repr, Inhabited

structure Config where
  text : ConfigText
  places : Places
  /-- The file it was read from. -/
  file : Option FilePath := none
deriving DecidableEq, Repr, Inhabited

inductive ConfigError where
  | notFound (path : FilePath)
  | unreadable (fault : FileFault)
  /-- The text is no TOML, or a section of it not of the shape that is asked for. -/
  | malformed
  | emptySetting (setting : String)
  | unknownFormat (source : FilePath)
  | unsetVariable (setting name : String)
deriving DecidableEq, Repr

def ConfigError.message : ConfigError → String
  | notFound p => "Configuration file not found: " ++ p.text
  | unreadable fault => "I/O error: " ++ fault.message
  | malformed => "TOML parse error: not a configuration"
  | emptySetting s => "Configuration error: " ++ s ++ " cannot be empty"
  | unknownFormat p => "Configuration error: data.source must be a .json or .js file, got " ++ p.text
  | unsetVariable s name => "Environment variable error in " ++ s ++ ": $\x7b" ++ name ++ "\x7d not set"

/-! ## What the file says -/

namespace Toml

/-- The settings of a section, none for one that is missing. It is a table, in which other keys only have to
be readable, or an array of the settings in order, whose end may be missing and behind which nothing is looked
at. A moment is a section without settings. -/
def asSection? (names : List String) : Toml → Option (List (Option Toml))
  | table _ es => if entriesReadable es then some (names.map fun name => es.lookup name) else none
  | array _ items => some (names.zipIdx.map fun n => items[n.2]?)
  | moment => some (names.map fun _ => none)
  | _ => none

def asText? : Toml → Option String
  | text s => some s
  | _ => none

def asBool? : Toml → Option Bool
  | boolean b => some b
  | _ => none

end Toml

def DataSection.ofToml? (t : Toml) : Option DataSection := do
  match ← t.asSection? ["source", "fragments_dir", "anchors"] with
  | [source, fragmentsDir, anchors] =>
    let source ← source.mapM Toml.asText?
    let fragmentsDir ← fragmentsDir.mapM Toml.asText?
    let anchors ← anchors.mapM Toml.asText?
    return { source, fragmentsDir, anchors }
  | _ => none

def SyncSection.ofToml? (t : Toml) : Option SyncSection := do
  match ← t.asSection? ["enabled", "persist", "on_message", "off_message"] with
  | [enabled, persist, onMessage, offMessage] =>
    let enabled ← (enabled.map Toml.asBool?).getD (some true)
    let persist ← (persist.map Toml.asBool?).getD (some true)
    let onMessage ← onMessage.mapM Toml.asText?
    let offMessage ← offMessage.mapM Toml.asText?
    return { enabled, persist, onMessage, offMessage }
  | _ => none

namespace ConfigText

/-- The keys that stand for a section. -/
def sectionNames : List String := ["data", "sync"]

/-- What a text says. Keys that stand for no section only have to be readable. -/
def read? (s : List Char) : Option ConfigText := do
  let es ← Toml.read? s
  guard (Toml.entriesReadable (es.filter fun e => e.1 ∉ sectionNames))
  let data ← ((es.lookup "data").map DataSection.ofToml?).getD (some {})
  let sync ← ((es.lookup "sync").map SyncSection.ofToml?).getD (some {})
  return { data, sync }

/-- The settings in which variables are replaced. -/
def expandable (c : ConfigText) : List String :=
  [c.data.source, c.data.fragmentsDir, c.data.anchors, c.sync.onMessage, c.sync.offMessage].filterMap id

def expandSetting (env : String → Option String) (setting : String) :
    Option String → Except ConfigError (Option String)
  | none => .ok none
  | some s =>
    match Expand.expand env s with
    | .ok v => .ok (some v)
    | .error name => .error (.unsetVariable setting name)

/-- The text with the variables in its settings replaced. -/
def expand (env : String → Option String) (c : ConfigText) : Except ConfigError ConfigText := do
  let source ← expandSetting env "data.source" c.data.source
  let fragmentsDir ← expandSetting env "data.fragments_dir" c.data.fragmentsDir
  let anchors ← expandSetting env "data.anchors" c.data.anchors
  let onMessage ← expandSetting env "sync.on_message" c.sync.onMessage
  let offMessage ← expandSetting env "sync.off_message" c.sync.offMessage
  return { data := { source, fragmentsDir, anchors }, sync := { c.sync with onMessage, offMessage } }

end ConfigText

/-! ## Places -/

def Config.fileName : FilePath := ⟨"navtree.toml"⟩

def Places.usualSource : FilePath := ⟨"html/navtreedata.js"⟩

def Places.projectName : FilePath := ⟨".navtree"⟩

/-- The places that a data section gives, seen from a directory. -/
def Places.resolve (dir : FilePath) (d : DataSection) : Places :=
  let source := dir.join ((d.source.map FilePath.mk).getD usualSource)
  { source
    fragmentsDir :=
      match d.fragmentsDir with
      | some f => dir.join ⟨f⟩
      | none => source.directory
    anchors := d.anchors.map fun a => dir.join ⟨a⟩
    projectDir := dir.join projectName }

namespace Config

/-- The configuration where no file is, seen from a directory. -/
def usual (dir : FilePath) : Config := { text := {}, places := Places.resolve dir {} }

/-- A text by itself, which has no file to start its paths from. -/
def ofText (text : ConfigText) : Config := { usual ⟨"."⟩ with text }

def checkSetting (setting : String) (v : Option String) : Except ConfigError Unit :=
  if v = some "" then .error (.emptySetting setting) else .ok ()

def validate (c : Config) : Except ConfigError Unit := do
  checkSetting "data.source" c.text.data.source
  checkSetting "data.fragments_dir" c.text.data.fragmentsDir
  checkSetting "data.anchors" c.text.data.anchors
  if c.places.source.extension? ≠ some "json" ∧ c.places.source.extension? ≠ some "js" then
    throw (.unknownFormat c.places.source)
  checkSetting "sync.on_message" c.text.sync.onMessage
  checkSetting "sync.off_message" c.text.sync.offMessage

/-- The configuration of a file with this text. -/
def ofFile (env : String → Option String) (file : FilePath) (text : ConfigText) :
    Except ConfigError Config := do
  let text ← text.expand env
  let dir := file.parent?.getD ⟨"."⟩
  let c : Config := { text, places := .resolve dir text.data, file := some file }
  c.validate
  return c

/-- The configuration with the data file of the command line. -/
def withSource (c : Config) : Option FilePath → Config
  | none => c
  | some source =>
    let fragmentsDir := if c.text.data.fragmentsDir.isNone then source.directory else c.places.fragmentsDir
    { c with places := { c.places with source, fragmentsDir } }

/-- A directory and those above it, the nearest first. `steps` bounds how many. -/
def upwardIn : (steps : Nat) → FilePath → List FilePath
  | 0, dir => [dir]
  | steps + 1, dir =>
    match dir.parent? with
    | none => [dir]
    | some above => dir :: upwardIn steps above

def upward (dir : FilePath) : List FilePath := upwardIn dir.text.length dir

variable {m : Type → Type} [Monad m]

/-- The first of the files that is there. -/
def firstThere (host : Host m) : List FilePath → m (Option FilePath)
  | [] => return none
  | f :: rest => do
    if ← host.isThere f then return some f else firstThere host rest

/-- The configuration file of the working directory or of the nearest directory above that has one. -/
def discover (host : Host m) : m (Option FilePath) := do
  firstThere host ((upward (← host.workingDir)).map fun dir => dir.join fileName)

def loadFile (host : Host m) (file : FilePath) : m (Except ConfigError Config) := do
  match ← host.readText file with
  | .error fault => return .error (.unreadable fault)
  | .ok s =>
    match ConfigText.read? s.toList with
    | none => return .error .malformed
    | some text =>
      let env ← host.environment (text.expandable.flatMap Expand.names)
      return ofFile env file text

/-- The configuration of the file that is named, or else found, or else the usual one; a data file of the
command line comes last. -/
def load (host : Host m) (file source : Option FilePath) : m (Except ConfigError Config) := do
  let found ←
    match file with
    | some f => do
      if ← host.isThere f then loadFile host f else pure (.error (.notFound f))
    | none => do
      match ← discover host with
      | some f => loadFile host f
      | none => pure (.ok (usual (← host.workingDir)))
  return found.map (·.withSource source)

end Config
end DocNav
