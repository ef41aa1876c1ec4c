/-!
# JSON values

A value as its text gives it: the fields of an object in order, repeats included, and a number as the
characters that spell it. A string is `none` where its escapes name half of a surrogate pair: such a string
is well formed but stands for no text.
-/

namespace DocNav

inductive Json where
  | null
  | bool (b : Bool)
  | number (digits : List Char)
  | string (s : Option String)
  | array (items : List Json)
  | object (fields : List (Option String × Json))
deriving Repr, Inhabited

namespace Json

def asText? : Json → Option String
  | string s => s
  | _ => none

/-- Text, or nothing for `null`. -/
def asOptionalText? : Json → Option (Option String)
  | null => some none
  | string (some s) => some (some s)
  | _ => none

def asBool? : Json → Option Bool
  | bool b => some b
  | _ => none

def asTexts? : Json → Option (List String)
  | array items => items.mapM asText?
  | _ => none

/-- The fields of an object whose names all stand for text. -/
def asFields? : Json → Option (List (String × Json))
  | object fields => fields.mapM fun f => f.1.map fun name => (name, f.2)
  | _ => none

/-- The value of a field that occurs at most once. -/
def fieldOnce? (fields : List (String × Json)) (name : String) : Option (Option Json) :=
  match fields.filter (·.1 = name) with
  | [] => some none
  | [f] => some (some f.2)
  | _ => none

/-- The fields of a record of fixed names, none for one that is missing. It is written as an object, in which
other fields count for nothing, or as the array of all its fields in order. -/
def asRecord? (names : List String) : Json → Option (List (Option Json))
  | array items => if items.length = names.length then some (items.map some) else none
  | j =>
    match j.asFields? with
    | some fields => names.mapM (fieldOnce? fields)
    | none => none

end Json
end DocNav
