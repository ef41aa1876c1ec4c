import DocNav.Cli.Arguments
import DocNav.Cli.Outline
import DocNav.Config
import DocNav.Session
/-!
# Running a command line

A command reads the configuration and the navigation data, starts an engine on the fragments in their
folder, and reports lines for the two outputs and an exit code: 0, 1 for a failure, which is told on the
second output, and 2 for arguments that make no sense.
-/

namespace DocNav.Cli

structure Report where
  exitCode : Nat := 0
  out : List String := []
  err : List String := []
deriving DecidableEq, Repr

inductive Failure where
  | config (e : ConfigError)
  | file (fault : FileFault)
  | data (e : DataError)
  | resolve (e : ResolveError)
  | tree (e : TreeError)
  | nothingToCheck
  | unresolved (failed total : Nat)
  /-- The tree goes on growing after so many rounds of loading. -/
  | growing (rounds : Nat)
deriving DecidableEq, Repr

def Failure.message : Failure → String
  | config e => e.message
  | file fault => fault.message
  | data e => e.message
  | resolve e => e.message
  | tree e => e.message
  | nothingToCheck => "Navigation index is empty, nothing to check"
  | unresolved failed total => toString failed ++ " of " ++ toString total ++ " anchors failed to resolve"
  | growing rounds => "The tree goes on growing after " ++ toString rounds ++ " rounds of loading"

/-- The report with a failure at its end. -/
def Report.fail (r : Report) (f : Failure) : Report :=
  { r with exitCode := 1, err := r.err ++ ["Error: " ++ f.message] }

/-! ## What the verbs report -/

section Verbs

variable {m : Type → Type} [Monad m]

/-- The index path of the anchor, and the labels that lead to it. -/
def reportResolve (fetch : Handle → m Answer) (e : Engine) (anchor : PageRef) (page : Bool) : m Report := do
  match ← e.perform fetch (if page then .planPage anchor else .plan anchor) with
  | (_, .error err) => return Report.fail {} (.resolve err)
  | (e, .ok answered) =>
    let path := answered.path
    match e.tree.labels path with
    | .error err => return { out := [path.text] : Report }.fail (.tree err)
    | .ok labels =>
      let loaded := e.loader.fetchCount
      return { out := [path.text, String.intercalate " > " labels]
               err := if loaded = 0 then [] else ["Loaded " ++ toString loaded ++ " fragment(s)"] }

/-- The anchors located so far, as lines, and how many were not. -/
structure Checked where
  engine : Engine
  report : Report := {}
  failed : Nat := 0

def Checked.all (fetch : Handle → m Answer) (c : Checked) : List PageRef → m Checked
  | [] => return c
  | a :: rest => do
    match ← c.engine.perform fetch (.plan a) with
    | (engine, .ok answered) =>
      let out := c.report.out ++ ["ok    " ++ a.text ++ " " ++ answered.path.text]
      all fetch { c with engine, report := { c.report with out } } rest
    | (engine, .error e) =>
      let err := c.report.err ++ ["FAIL  " ++ a.text ++ ": " ++ e.message]
      all fetch { engine, report := { c.report with err }, failed := c.failed + 1 } rest

/-- The anchors to check: all that are indexed in order, or the first and last that are listed. -/
def anchorsToCheck? (ix : AnchorIndex) (all : Bool) : Option (List PageRef) :=
  if all then some (PageRef.sort ix.anchors)
  else ix.smokeAnchors?.map fun (first, last) => if first = last then [first] else [first, last]

def reportCheck (fetch : Handle → m Answer) (e : Engine) (all : Bool) : m Report := do
  match anchorsToCheck? e.index all with
  | none => return Report.fail {} .nothingToCheck
  | some anchors =>
    let c ← Checked.all fetch { engine := e } anchors
    if c.failed = 0 then
      let words := "All " ++ toString anchors.length ++ " anchors resolved ("
        ++ toString c.engine.loader.fetchCount ++ " fragments loaded)"
      return { c.report with err := c.report.err ++ [words] }
    else return c.report.fail (.unresolved c.failed anchors.length)

/-- The outline, with fragments loaded first if asked for. Down to a depth, as many rounds load all there is;
without one, `rounds` bounds them. -/
def reportTree (fetch : Handle → m Answer) (rounds : Nat) (e : Engine) (depth : Option Nat) (expand : Bool) :
    m Report := do
  if expand then
    let x ← Outline.Loaded.load fetch depth (depth.getD rounds) { engine := e }
    let warnings := x.failed.map fun f => "Skipping subtree: " ++ f.2.message
    if x.pending depth = [] then return { out := Outline.lines depth 0 x.engine.tree, err := warnings }
    else return { err := warnings : Report }.fail (.growing rounds)
  else return { out := Outline.lines depth 0 e.tree }

/-- The mode and the label of the toggle; a toggle is first carried out and remembered. -/
def reportSync (remember : Bool → m Unit) (e : Engine) (toggle : Bool) : m Report := do
  let e := if toggle then e.toggle else e
  if toggle then remember e.view.mode.isLinked
  return { out := ["Panel synchronisation: " ++ e.view.mode.text, e.view.toggleLabel] }

end Verbs

/-! ## From the arguments to the report -/

section Run

variable {m : Type → Type} [Monad m]

/-- An engine, the source of its fragments and the store of its toggle. -/
structure Opened (m : Type → Type) where
  engine : Engine
  fetch : Handle → m Answer
  remember : Bool → m Unit

def ignoreFile : String := "# Automatically created by navtree\n*\n"

/-- Makes the project directory, with a file that keeps it out of version control. -/
def ensureProject (host : Host m) (dir : FilePath) : m (Except FileFault Unit) := do
  match ← host.makeDirectories dir with
  | .error fault => return .error fault
  | .ok () =>
    let file := dir.join ⟨".gitignore"⟩
    if !(← host.isThere file) then
      let _ ← host.writeText file ignoreFile
    return .ok ()

/-- The navigation data of a configuration, with the anchor table that it names. -/
def loadData (host : Host m) (p : Places) : m (Except DataError NavData) := do
  match ← NavData.load host p.source with
  | .error e => return .error e
  | .ok data =>
    match p.anchors with
    | none => return .ok data
    | some file => return (← AnchorTable.load host file).map data.withAnchors

/-- What the project directory remembers of the toggle, if anything is to be remembered. -/
def openStore (host : Host m) (c : Config) : m (Except FileFault (Option Bool)) := do
  if c.text.sync.persist then
    match ← ensureProject host c.places.projectDir with
    | .error fault => return .error fault
    | .ok () => return .ok (← StateFolder.get host c.places.projectDir)
  else return .ok none

def openEngine (host : Host m) (i : Invocation) : m (Except Failure (Opened m)) := do
  match ← Config.load host i.config i.source with
  | .error e => return .error (.config e)
  | .ok c =>
    match ← loadData host c.places with
    | .error e => return .error (.data e)
    | .ok data =>
      match ← openStore host c with
      | .error fault => return .error (.file fault)
      | .ok remembered =>
        let settings : Settings :=
          { enabled := c.text.sync.enabled
            whileLinked := c.text.sync.onMessage
            whileUnlinked := c.text.sync.offMessage }
        return .ok
          { engine := .start data settings remembered
            fetch := Folder.fetch host.readText c.places.fragmentsDir
            remember := fun enabled =>
              if c.text.sync.persist then StateFolder.set host c.places.projectDir enabled else pure () }

def runVerb (rounds : Nat) (o : Opened m) : Verb → m Report
  | .resolve anchor page => reportResolve o.fetch o.engine anchor page
  | .check all => reportCheck o.fetch o.engine all
  | .tree depth expand => reportTree o.fetch rounds o.engine depth expand
  | .sync toggle => reportSync o.remember o.engine toggle

def usage : String :=
  "Usage: navtree [-c FILE] [-s FILE] [-v] " ++
    "resolve REF [--page] | check [--all] | tree [-d N] [-e] | sync [-t]"

/-- Runs a command line, with at most so many rounds of loading for a whole tree. -/
def run (host : Host m) (rounds : Nat) (args : List String) : m Report :=
  match parse args with
  | .misuse => return { exitCode := 2, err := [usage] }
  | .help => return { out := [usage] }
  | .run i => do
    match ← openEngine host i with
    | .error f => return Report.fail {} f
    | .ok o => runVerb rounds o i.verb

end Run
end DocNav.Cli
