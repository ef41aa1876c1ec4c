import DocNav.Proofs.JsonTexts
/-!
# Writing JSON

One way to write each part of a JSON value, without blanks: a character of a string stands for itself unless it has to be
escaped, and the parts of an array or an object are separated by commas. What is written is a text of the grammar:
`quoted_text`, `valueText_array`, `valueText_object`. Beside it stands the depth of a value, the measure by which readers
refuse deep texts.
-/

namespace DocNav.Json

/-! ## Depth -/

mutual
/-- The most brackets that are open at once in a value's texts. -/
def depth : Json → Nat
  | null | bool _ | number _ | string _ => 0
  | array items => depthAll items + 1
  | object fields => depthFields fields + 1

def depthAll : List Json → Nat
  | [] => 0
  | j :: js => max (depth j) (depthAll js)

def depthFields : List (Option String × Json) → Nat
  | [] => 0
  | (_, j) :: fs => max (depth j) (depthFields fs)
end

theorem depthAll_le_iff {js : List Json} {n : Nat} : depthAll js ≤ n ↔ ∀ j ∈ js, depth j ≤ n := by
  induction js with
  | nil => simp [depthAll]
  | cons j js ih => simp [depthAll, ih]

theorem depthFields_le_iff {fs : List (Option String × Json)} {n : Nat} :
    depthFields fs ≤ n ↔ ∀ f ∈ fs, depth f.2 ≤ n := by
  induction fs with
  | nil => simp [depthFields]
  | cons f fs ih => simp [depthFields, ih]

/-! ## Strings -/

/-- How a character is written in a string. -/
def escape (c : Char) : List Char :=
  if c = '"' ∨ c = '\\' then ['\\', c]
  else if c.toNat < 0x20 then ['\\', 'u', '0', '0', (c.toNat / 16).digitChar, (c.toNat % 16).digitChar]
  else [c]

def quoted (s : String) : List Char := '"' :: (s.toList.flatMap escape ++ ['"'])

/-- The digits of a control character. -/
theorem hexUnit?_control : ∀ n < 0x20, hexUnit? '0' '0' (n / 16).digitChar (n % 16).digitChar = some n := by
  decide

theorem spells_escape (c : Char) {ps : List StringPart} {s : List Char} (h : Spells ps s) :
    Spells (.char c :: ps) (escape c ++ s) := by
  unfold escape
  split
  · rename_i hc
    exact .simple (by rcases hc with rfl | rfl <;> rfl) h
  · rename_i hc
    rw [not_or] at hc
    split
    · rename_i hcontrol
      have hpart : StringPart.ofUnit c.toNat = .char c := by
        rw [StringPart.ofUnit, if_neg (by omega), Char.ofNat_toNat]
      rw [← hpart]
      exact .unit (hexUnit?_control _ hcontrol) h
    · rename_i hcontrol
      exact .plain hc.1 hc.2 (by omega) h

theorem spells_flatMap (cs : List Char) : Spells (cs.map .char) (cs.flatMap escape) := by
  induction cs with
  | nil => exact .nil
  | cons c cs ih => exact spells_escape c ih

theorem joinParts_chars (cs : List Char) : joinParts (cs.map .char) = some cs := by
  induction cs with
  | nil => rfl
  | cons c cs ih => simp [joinParts, ih]

theorem quoted_text (s : String) : StringText (some s) (quoted s) := by
  have h := StringText.mk (spells_flatMap s.toList)
  rwa [joinParts_chars, Option.map_some, String.ofList_toList] at h

/-! ## Arrays and objects -/

/-- Texts with commas between them. -/
def separated : List (List Char) → List Char
  | [] => []
  | [s] => s
  | s :: t :: ts => s ++ ',' :: separated (t :: ts)

def bracketed (items : List (List Char)) : List Char := '[' :: (separated items ++ [']'])

def braced (fields : List (String × List Char)) : List Char :=
  '\x7b' :: (separated (fields.map fun f => quoted f.1 ++ ':' :: f.2) ++ ['\x7d'])

/-- An object whose names all stand for text. -/
def named (fields : List (String × Json)) : Json := .object (fields.map fun f => (some f.1, f.2))

theorem itemsText_separated {j : Json} {js : List Json} {s : List Char} {ts : List (List Char)} (h : ValueText j s)
    (hs : List.Forall₂ ValueText js ts) : ItemsText (j :: js) (separated (s :: ts)) := by
  induction hs generalizing j s with
  | nil => exact .one h.text
  | cons h' _ ih => exact .cons h.text (ih h')

theorem valueText_array {js : List Json} {ts : List (List Char)} (h : List.Forall₂ ValueText js ts) :
    ValueText (.array js) (bracketed ts) := by
  cases h with
  | nil => exact .emptyArray nofun
  | cons h hs => exact .array (itemsText_separated h hs)

/-- A field and its text: the same name, and a text of the value. -/
def WritesField (f : String × Json) (t : String × List Char) : Prop := f.1 = t.1 ∧ ValueText f.2 t.2

theorem WritesField.text {f : String × Json} {t : String × List Char} (h : WritesField f t) :
    FieldText (some f.1, f.2) (quoted t.1 ++ ':' :: t.2) := by
  obtain ⟨name, j⟩ := f
  obtain ⟨name', s⟩ := t
  obtain ⟨rfl, hs⟩ := h
  have hnil : Blank [] := fun _ hc => nomatch hc
  exact .mk hnil (quoted_text name) hnil hs.text

theorem fieldsText_separated {f : String × Json} {fs : List (String × Json)} {t : String × List Char}
    {ts : List (String × List Char)} (h : WritesField f t) (hs : List.Forall₂ WritesField fs ts) :
    FieldsText ((f :: fs).map fun f => (some f.1, f.2))
      (separated ((t :: ts).map fun f => quoted f.1 ++ ':' :: f.2)) := by
  induction hs generalizing f t with
  | nil => exact .one h.text
  | cons h' _ ih => exact .cons h.text (ih h')

theorem valueText_object {fs : List (String × Json)} {ts : List (String × List Char)}
    (h : List.Forall₂ WritesField fs ts) : ValueText (named fs) (braced ts) := by
  cases h with
  | nil => exact .emptyObject nofun
  | cons h hs => exact .object (fieldsText_separated h hs)

end DocNav.Json
