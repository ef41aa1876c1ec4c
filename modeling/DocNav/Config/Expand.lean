import DocNav.Text.CharClass
/-!
# Variables in settings

A setting may name variables of the environment: `$` and braces around a name stand for its value, and
`:-` behind the name for a default where the variable is not set. A setting in which `$` is nowhere followed
by an opening brace stays as it is. In any other, a `$` with letters, numbers or `_` behind it stands for a
variable too, and `$$` for one `$`. Values and defaults are taken as they are.
-/

namespace DocNav.Expand

/-- A part of a setting. -/
inductive Piece where
  | plain (text : List Char)
  /-- A variable, with the default it has where the name is in braces and has one. -/
  | reference (name : List Char) (default? : Option (List Char))
deriving DecidableEq, Repr

def isNameChar (c : Char) : Bool := CharClass.isLetterOrNumber c || c = '_'

/-- The text before and behind the first closing brace. -/
def untilBrace (s : List Char) : Option (List Char × List Char) :=
  match s.dropWhile (· ≠ '\x7d') with
  | [] => none
  | _ :: rest => some (s.takeWhile (· ≠ '\x7d'), rest)

theorem length_of_untilBrace {s inside behind : List Char} (h : untilBrace s = some (inside, behind)) :
    behind.length < s.length := by
  unfold untilBrace at h
  split at h
  · simp at h
  · rename_i hd
    have := (List.dropWhile_sublist (fun c => decide (c ≠ '\x7d')) (l := s)).length_le
    simp_all only [Option.some.injEq, Prod.mk.injEq, List.length_cons]
    omega

/-- The text before and behind the first `:-`. -/
def splitDefault : List Char → Option (List Char × List Char)
  | [] => none
  | ':' :: '-' :: rest => some ([], rest)
  | c :: rest => (splitDefault rest).map fun (name, d) => (c :: name, d)

/-- What stands between braces: a name and a default, or a name alone. No name before `:-` makes the whole a
name. -/
def braced (inside : List Char) : Piece :=
  match splitDefault inside with
  | some (c :: name, d) => .reference (c :: name) (some d)
  | _ => .reference inside none

/-- The parts of a setting, from left to right. -/
def pieces : List Char → List Piece
  | [] => []
  | '$' :: '\x7b' :: rest =>
    match h : untilBrace rest with
    | some (inside, behind) =>
      have := length_of_untilBrace h
      braced inside :: pieces behind
    | none => .plain ['$', '\x7b'] :: pieces rest
  | '$' :: '$' :: rest => .plain ['$'] :: pieces rest
  | '$' :: rest =>
    match rest.takeWhile isNameChar with
    | [] => .plain ['$'] :: pieces rest
    | name =>
      have := (List.dropWhile_sublist isNameChar (l := rest)).length_le
      .reference name none :: pieces (rest.dropWhile isNameChar)
  | c :: rest => .plain [c] :: pieces rest
termination_by s => s.length
decreasing_by all_goals (simp only [List.length_cons]; omega)

/-- Whether `$` is followed by an opening brace anywhere. -/
def namesVariable : List Char → Bool
  | '$' :: '\x7b' :: _ => true
  | _ :: rest => namesVariable rest
  | [] => false

/-- The value of a part, or the name of the variable that is not set. -/
def value (env : String → Option String) : Piece → Except String (List Char)
  | .plain text => .ok text
  | .reference name default? =>
    match env (String.ofList name), default? with
    | some v, _ => .ok v.toList
    | none, some d => .ok d
    | none, none => .error (String.ofList name)

def values (env : String → Option String) : List Piece → Except String (List Char)
  | [] => .ok []
  | p :: ps =>
    match value env p with
    | .error name => .error name
    | .ok v =>
      match values env ps with
      | .error name => .error name
      | .ok vs => .ok (v ++ vs)

/-- The setting with its variables replaced, or the first variable that is not set. -/
def expand (env : String → Option String) (s : String) : Except String String :=
  if namesVariable s.toList then (values env (pieces s.toList)).map String.ofList else .ok s

/-- The variables that a setting may ask for. -/
def names (s : String) : List String :=
  if namesVariable s.toList then
    (pieces s.toList).filterMap fun
      | .plain _ => none
      | .reference name _ => some (String.ofList name)
  else []

end DocNav.Expand
