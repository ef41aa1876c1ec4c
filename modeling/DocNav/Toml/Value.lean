import DocNav.Toml.Numeral
/-!
# TOML documents as tables

A document is a sequence of statements: headers that open a table, and pairs of a dotted key and a value. Put
together they form one table. Each table remembers how it came about, because that decides what may still be
added to it: a table may be opened once, a table written in braces is complete, and dotted keys only add to
tables that dotted keys made or went through. `Toml.isReadable` says whether all numbers in a value can be
held.
-/

namespace DocNav

/-- How a table came about. -/
inductive TableOrigin where
  /-- By a header of its own; also the whole document. -/
  | opened
  /-- On the way to the table of a header. -/
  | implied
  /-- On the way of a dotted key, which made it or took it over from headers. -/
  | dotted
  /-- Written in braces. -/
  | braced
deriving DecidableEq, Repr

/-- What a table counts as once a path has gone through it. A dotted key takes over a table that only headers
went through. -/
def TableOrigin.passed (byDots : Bool) (o : TableOrigin) : TableOrigin :=
  if byDots ∧ o = .implied then .dotted else o

inductive Toml where
  | text (s : String)
  | boolean (b : Bool)
  | number (n : Numeral)
  | moment
  /-- `ofTables` where headers in double brackets made it. -/
  | array (ofTables : Bool) (items : List Toml)
  | table (origin : TableOrigin) (entries : List (String × Toml))
deriving Repr, Inhabited

/-- A value as it is written, with tables in braces not yet put together. -/
inductive TomlSyntax where
  | value (v : Toml)
  | list (items : List TomlSyntax)
  | braces (pairs : List (List String × TomlSyntax))
deriving Repr, Inhabited

inductive TomlStatement where
  | header (path : List String)
  | arrayHeader (path : List String)
  | pair (path : List String) (v : TomlSyntax)
deriving Repr

namespace Toml

abbrev Entries := List (String × Toml)

mutual
def isReadable : Toml → Bool
  | number n => n.hasValue
  | array _ items => allReadable items
  | table _ es => entriesReadable es
  | _ => true

def allReadable : List Toml → Bool
  | [] => true
  | v :: vs => v.isReadable && allReadable vs

def entriesReadable : List (String × Toml) → Bool
  | [] => true
  | (_, v) :: es => v.isReadable && entriesReadable es
end

def setEntry (key : String) (v : Toml) : Entries → Entries
  | [] => [(key, v)]
  | (k, old) :: rest => if k = key then (k, v) :: rest else (k, old) :: setEntry key v rest

/-- Changes the table that a path leads to, making the tables on the way that are missing. An array of tables
is entered at its last one. -/
def updateAt (byDots : Bool) (change : TableOrigin → Entries → Option (TableOrigin × Entries)) :
    List String → TableOrigin → Entries → Option (TableOrigin × Entries)
  | [], origin, es => change origin es
  | key :: path, origin, es =>
    match es.lookup key with
    | none => do
      let (o, new) ← updateAt byDots change path (if byDots then .dotted else .implied) []
      return (origin, es ++ [(key, .table o new)])
    | some (table o old) =>
      if o = .braced ∨ (byDots ∧ o = .opened) then none
      else do
        let (o, new) ← updateAt byDots change path (o.passed byDots) old
        return (origin, setEntry key (.table o new) es)
    | some (array true items) =>
      match items.reverse with
      | table o old :: before => do
        let (o, new) ← updateAt byDots change path o old
        return (origin, setEntry key (.array true (before.reverse ++ [.table o new])) es)
      | _ => none
    | some _ => none

/-- Adds a value under a dotted key. A plain key adds to any table but one that dotted keys made, and a dotted
one only to such a table. -/
def insertPair (path : List String) (v : Toml) (origin : TableOrigin) (es : Entries) :
    Option (TableOrigin × Entries) :=
  match path.reverse with
  | [] => none
  | key :: above =>
    let add (o : TableOrigin) (es : Entries) : Option (TableOrigin × Entries) :=
      if (o == .dotted) == above.isEmpty then none
      else if (es.lookup key).isSome then none
      else some (o, es ++ [(key, v)])
    updateAt true add above.reverse origin es

/-- Opens the table of a header. -/
def openTable (path : List String) (es : Entries) : Option (TableOrigin × Entries) :=
  match path.reverse with
  | [] => none
  | key :: above =>
    let add (o : TableOrigin) (es : Entries) : Option (TableOrigin × Entries) :=
      match es.lookup key with
      | none => some (o, es ++ [(key, .table .opened [])])
      | some (table .implied old) => some (o, setEntry key (.table .opened old) es)
      | some _ => none
    updateAt false add above.reverse .opened es

/-- Opens a further table of an array of tables. -/
def openArrayTable (path : List String) (es : Entries) : Option (TableOrigin × Entries) :=
  match path.reverse with
  | [] => none
  | key :: above =>
    let add (o : TableOrigin) (es : Entries) : Option (TableOrigin × Entries) :=
      match es.lookup key with
      | none => some (o, es ++ [(key, .array true [.table .opened []])])
      | some (array true items) => some (o, setEntry key (.array true (items ++ [.table .opened []])) es)
      | some _ => none
    updateAt false add above.reverse .opened es

mutual
/-- The value that a written value stands for. -/
def ofSyntax : TomlSyntax → Option Toml
  | .value v => some v
  | .list items => (ofSyntaxAll items).map (.array false)
  | .braces pairs => (ofPairs [] pairs).map (.table .braced)

def ofSyntaxAll : List TomlSyntax → Option (List Toml)
  | [] => some []
  | x :: xs =>
    match ofSyntax x, ofSyntaxAll xs with
    | some v, some vs => some (v :: vs)
    | _, _ => none

def ofPairs (es : Entries) : List (List String × TomlSyntax) → Option Entries
  | [] => some es
  | (path, x) :: rest =>
    match ofSyntax x with
    | none => none
    | some v =>
      match insertPair path v .opened es with
      | none => none
      | some (_, es) => ofPairs es rest
end

/-- Adds a statement to the document, where pairs go to the table opened last. -/
def addStatement (opened : List String) (es : Entries) : TomlStatement → Option (List String × Entries)
  | .header path => (openTable path es).map fun r => (path, r.2)
  | .arrayHeader path => (openArrayTable path es).map fun r => (path, r.2)
  | .pair path x => do
    let v ← ofSyntax x
    let r ← updateAt false (insertPair path v) opened .opened es
    return (opened, r.2)

def ofStatements (opened : List String) (es : Entries) : List TomlStatement → Option Entries
  | [] => some es
  | s :: rest =>
    match addStatement opened es s with
    | none => none
    | some (opened, es) => ofStatements opened es rest

end Toml
end DocNav
