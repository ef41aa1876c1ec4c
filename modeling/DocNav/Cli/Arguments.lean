import DocNav.Files.Path
import DocNav.PageRef
/-!
# The arguments of the command line

A command line names one of four verbs. Options are `--name value`, `--name=value`, `-n value` or `-nvalue`,
and short ones without values can be written together. Some options belong to every verb and may stand before
or behind it; where one stands in both places, the one behind the verb counts. An option may be given once in
each place. Behind `--` nothing is an option.
-/

namespace DocNav.Cli

inductive Verb where
  /-- Locate an anchor, or its page. -/
  | resolve (anchor : PageRef) (page : Bool)
  /-- Locate the first and last of the bootstrap list, or every indexed anchor. -/
  | check (all : Bool)
  /-- Print the tree down to a level, with fragments loaded or not. -/
  | tree (depth : Option Nat) (expand : Bool)
  /-- Tell the mode of the panes, or flip it first. -/
  | sync (toggle : Bool)
deriving DecidableEq, Repr

structure Invocation where
  config : Option FilePath := none
  source : Option FilePath := none
  verb : Verb
deriving DecidableEq, Repr

inductive Parsed where
  | run (i : Invocation)
  /-- The arguments ask for help or for the version. -/
  | help
  | misuse
deriving DecidableEq, Repr

inductive OptionKind where
  | flag
  /-- Takes a path, which is not empty. -/
  | path
  /-- Takes a number. -/
  | number
  | help
deriving DecidableEq, Repr

structure OptionSpec where
  name : String
  short : Option Char := none
  kind : OptionKind
deriving DecidableEq, Repr

def OptionSpec.takesValue (o : OptionSpec) : Bool := o.kind = .path || o.kind = .number

/-- A number below 2 ^ 64 in decimal digits, which a plus may precede. -/
def number? (s : String) : Option Nat :=
  let ds := match s.toList with
    | '+' :: ds => ds
    | ds => ds
  if ds ≠ [] ∧ ds.all Char.isDigit then
    let n := ds.foldl (fun n d => n * 10 + (d.toNat - 48)) 0
    if n < Nat.pow 2 64 then some n else none
  else none

def OptionSpec.accepts (o : OptionSpec) (value : String) : Bool :=
  match o.kind with
  | .path => value ≠ ""
  | .number => (number? value).isSome
  | .flag | .help => true

/-- What is read so far. -/
structure Given where
  /-- Options by name, with their values; a flag has the empty one. -/
  options : List (String × String) := []
  words : List String := []
deriving DecidableEq, Repr

def Given.option? (g : Given) (name : String) : Option String := g.options.lookup name

def Given.has (g : Given) (name : String) : Bool := (g.option? name).isSome

inductive Stop where
  | help
  | misuse
deriving DecidableEq, Repr

def Given.add (g : Given) (o : OptionSpec) (value : String) : Except Stop Given :=
  if o.kind = .help then .error .help
  else if g.has o.name || !o.accepts value then .error .misuse
  else .ok { g with options := g.options ++ [(o.name, value)] }

/-- Reads an option with a long name: what is given then, and the option that waits for its value. -/
def readLong (specs : List OptionSpec) (g : Given) (text : List Char) :
    Except Stop (Given × Option OptionSpec) :=
  let name := String.ofList (text.takeWhile (· ≠ '='))
  match specs.find? (·.name = name), text.dropWhile (· ≠ '=') with
  | none, _ => .error .misuse
  | some o, [] => if o.takesValue then .ok (g, some o) else (g.add o "").map fun g => (g, none)
  | some o, _ :: value =>
    if o.takesValue then (g.add o (String.ofList value)).map fun g => (g, none) else .error .misuse

/-- Reads short options written together, of which the last may have its value behind it. -/
def readShort (specs : List OptionSpec) (g : Given) : List Char → Except Stop (Given × Option OptionSpec)
  | [] => .ok (g, none)
  | c :: rest =>
    match specs.find? (·.short = some c) with
    | none => .error .misuse
    | some o =>
      if o.takesValue then
        match rest with
        | [] => .ok (g, some o)
        | '=' :: value => (g.add o (String.ofList value)).map fun g => (g, none)
        | value => (g.add o (String.ofList value)).map fun g => (g, none)
      else
        match g.add o "" with
        | .error e => .error e
        | .ok g => readShort specs g rest

/-- Reads arguments up to the last, or up to the word that is number `stopAt`, which cannot stand behind `--`.
Gives what they say and the arguments left. -/
def readArguments (specs : List OptionSpec) (stopAt : Nat) (g : Given) (wanting : Option OptionSpec)
    (onlyWords : Bool) : List String → Except Stop (Given × List String)
  | [] => if wanting.isSome then .error .misuse else .ok (g, [])
  | arg :: rest =>
    if onlyWords then
      if g.words.length + 1 = stopAt then .error .misuse
      else readArguments specs stopAt { g with words := g.words ++ [arg] } none true rest
    else
      match wanting, arg.toList with
      | none, ['-', '-'] => readArguments specs stopAt g none true rest
      | none, '-' :: '-' :: text =>
        match readLong specs g text with
        | .error e => .error e
        | .ok (g, wanting) => readArguments specs stopAt g wanting false rest
      | none, '-' :: c :: text =>
        match readShort specs g (c :: text) with
        | .error e => .error e
        | .ok (g, wanting) => readArguments specs stopAt g wanting false rest
      | some _, '-' :: _ :: _ => .error .misuse
      | some o, _ =>
        match g.add o arg with
        | .error e => .error e
        | .ok g => readArguments specs stopAt g none false rest
      | none, _ =>
        if g.words.length + 1 = stopAt then .ok ({ g with words := g.words ++ [arg] }, rest)
        else readArguments specs stopAt { g with words := g.words ++ [arg] } none false rest

def helpOption : OptionSpec := { name := "help", short := some 'h', kind := .help }

def sharedOptions : List OptionSpec :=
  [{ name := "config", short := some 'c', kind := .path },
   { name := "source", short := some 's', kind := .path },
   { name := "verbose", short := some 'v', kind := .flag },
   helpOption]

def versionOption : OptionSpec := { name := "version", short := some 'V', kind := .help }

/-- The options of a verb besides the shared ones, and how many words it takes. -/
def verbOptions? : String → Option (List OptionSpec × Nat)
  | "resolve" => some ([{ name := "page", kind := .flag }], 1)
  | "check" => some ([{ name := "all", kind := .flag }], 0)
  | "tree" =>
    some ([{ name := "depth", short := some 'd', kind := .number },
           { name := "expand", short := some 'e', kind := .flag }], 0)
  | "sync" => some ([{ name := "toggle", short := some 't', kind := .flag }], 0)
  | _ => none

def verb? (name : String) (g : Given) : Option Verb :=
  match name, g.words with
  | "resolve", [anchor] => some (.resolve ⟨anchor⟩ (g.has "page"))
  | "check", [] => some (.check (g.has "all"))
  | "tree", [] => some (.tree ((g.option? "depth").bind number?) (g.has "expand"))
  | "sync", [] => some (.sync (g.has "toggle"))
  | _, _ => none

/-- What follows the verb `help`: the name of a verb at most. -/
def parseHelp : List String → Parsed
  | [] => .help
  | [name] => if (verbOptions? name).isSome ∨ name = "help" then .help else .misuse
  | _ => .misuse

def Stop.parsed : Stop → Parsed
  | help => .help
  | misuse => .misuse

/-- Reads what follows a verb, more words than it takes being a misuse. -/
def parseVerb (name : String) (shared : Given) (args : List String) : Parsed :=
  match verbOptions? name with
  | none => if name = "help" then parseHelp args else .misuse
  | some (specs, words) =>
    match readArguments (specs ++ sharedOptions) (words + 1) {} none false args with
    | .error e => e.parsed
    | .ok (g, _) =>
      match verb? name g with
      | none => .misuse
      | some verb =>
        let path (option : String) : Option FilePath :=
          (g.option? option <|> shared.option? option).map FilePath.mk
        .run { config := path "config", source := path "source", verb }

def parse (args : List String) : Parsed :=
  match readArguments (versionOption :: sharedOptions) 1 {} none false args with
  | .error e => e.parsed
  | .ok (g, rest) =>
    match g.words with
    | [name] => parseVerb name g rest
    | _ => .misuse

end DocNav.Cli
