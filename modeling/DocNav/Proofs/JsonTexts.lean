import DocNav.Json.Reader
import Mathlib
/-!
# The texts of JSON values

The grammar of RFC 8259 as a relation between a value and its texts, apart from any reader: a value has a text for
every choice of blanks, escapes and spellings of its numbers. Main result: `Json.read?_eq_some_iff`, by which reading
accepts exactly the texts of the grammar.
-/

namespace DocNav.Json

/-! ## The grammar -/

def Blank (s : List Char) : Prop := ∀ c ∈ s, isBlank c = true

/-- What stands for the parts of a string, between its quotes. -/
inductive Spells : List StringPart → List Char → Prop
  | nil : Spells [] []
  | plain {c : Char} {ps : List StringPart} {s : List Char} :
      c ≠ '"' → c ≠ '\\' → 0x20 ≤ c.toNat → Spells ps s → Spells (.char c :: ps) (c :: s)
  | simple {c e : Char} {ps : List StringPart} {s : List Char} :
      simpleEscape? c = some e → Spells ps s → Spells (.char e :: ps) ('\\' :: c :: s)
  | unit {a b c d : Char} {unit : Nat} {ps : List StringPart} {s : List Char} :
      hexUnit? a b c d = some unit → Spells ps s →
      Spells (.ofUnit unit :: ps) ('\\' :: 'u' :: a :: b :: c :: d :: s)

inductive StringText : Option String → List Char → Prop
  | mk {ps : List StringPart} {s : List Char} :
      Spells ps s → StringText ((joinParts ps).map String.ofList) ('"' :: (s ++ ['"']))

inductive DigitsText : List Char → Prop
  | mk {c : Char} {ds : List Char} : c.isDigit = true → (∀ d ∈ ds, d.isDigit = true) → DigitsText (c :: ds)

/-- Digits without needless zeros. -/
inductive WholeText : List Char → Prop
  | zero : WholeText ['0']
  | row {c : Char} {ds : List Char} :
      c.isDigit = true → c ≠ '0' → (∀ d ∈ ds, d.isDigit = true) → WholeText (c :: ds)

/-- Nothing, or a mark and what belongs to it. -/
inductive MarkedText (marks : List Char) (Body : List Char → Prop) : List Char → Prop
  | absent : MarkedText marks Body []
  | present {c : Char} {s : List Char} : c ∈ marks → Body s → MarkedText marks Body (c :: s)

inductive SignedText (signs : List Char) (Body : List Char → Prop) : List Char → Prop
  | unsigned {s : List Char} : Body s → SignedText signs Body s
  | signed {c : Char} {s : List Char} : c ∈ signs → Body s → SignedText signs Body (c :: s)

inductive UnsignedText : List Char → Prop
  | mk {whole part power : List Char} :
      WholeText whole → MarkedText ['.'] DigitsText part →
      MarkedText ['e', 'E'] (SignedText ['+', '-'] DigitsText) power → UnsignedText (whole ++ part ++ power)

def NumberText : List Char → Prop := SignedText ['-'] UnsignedText

mutual
/-- The texts of a value by itself. -/
inductive ValueText : Json → List Char → Prop
  | null : ValueText .null "null".toList
  | bool {b : Bool} : ValueText (.bool b) (if b then "true" else "false").toList
  | number {ds : List Char} : NumberText ds → ValueText (.number ds) ds
  | string {t : Option String} {s : List Char} : StringText t s → ValueText (.string t) s
  | emptyArray {b : List Char} : Blank b → ValueText (.array []) ('[' :: (b ++ [']']))
  | array {js : List Json} {s : List Char} : ItemsText js s → ValueText (.array js) ('[' :: (s ++ [']']))
  | emptyObject {b : List Char} : Blank b → ValueText (.object []) ('\x7b' :: (b ++ ['\x7d']))
  | object {fs : List (Option String × Json)} {s : List Char} :
      FieldsText fs s → ValueText (.object fs) ('\x7b' :: (s ++ ['\x7d']))

/-- The texts of a value, with blanks around it. -/
inductive Text : Json → List Char → Prop
  | mk {j : Json} {b s b' : List Char} : Blank b → ValueText j s → Blank b' → Text j (b ++ (s ++ b'))

/-- The texts between the brackets of an array that is not empty. -/
inductive ItemsText : List Json → List Char → Prop
  | one {j : Json} {s : List Char} : Text j s → ItemsText [j] s
  | cons {j : Json} {js : List Json} {s t : List Char} :
      Text j s → ItemsText js t → ItemsText (j :: js) (s ++ ',' :: t)

inductive FieldText : Option String × Json → List Char → Prop
  | mk {name : Option String} {j : Json} {b k b' s : List Char} :
      Blank b → StringText name k → Blank b' → Text j s → FieldText (name, j) (b ++ (k ++ (b' ++ ':' :: s)))

/-- The texts between the brackets of an object that is not empty. -/
inductive FieldsText : List (Option String × Json) → List Char → Prop
  | one {f : Option String × Json} {s : List Char} : FieldText f s → FieldsText [f] s
  | cons {f : Option String × Json} {fs : List (Option String × Json)} {s t : List Char} :
      FieldText f s → FieldsText fs t → FieldsText (f :: fs) (s ++ ',' :: t)
end

theorem ValueText.text {j : Json} {s : List Char} (h : ValueText j s) : Text j s := by
  have hnil : Blank [] := fun _ hc => nomatch hc
  simpa using Text.mk hnil h hnil

/-! ## Blanks -/

/-- What holds of the four blanks holds of all characters of a blank text. -/
theorem Blank.elim {P : Char → Prop} {b : List Char} (hb : Blank b) (h : ∀ c ∈ [' ', '\n', '\t', '\r'], P c) :
    ∀ c ∈ b, P c := by
  intro c hc
  apply h
  simpa [isBlank, or_assoc] using hb c hc

theorem skipBlanks_append {b : List Char} (hb : Blank b) (s : List Char) : skipBlanks (b ++ s) = skipBlanks s := by
  rw [skipBlanks, skipBlanks, List.dropWhile_append]
  have : b.dropWhile isBlank = [] := by rwa [List.dropWhile_eq_nil_iff]
  simp [this]

theorem skipBlanks_blank {b : List Char} (hb : Blank b) : skipBlanks b = [] := by
  rwa [skipBlanks, List.dropWhile_eq_nil_iff]

@[simp] theorem skipBlanks_of_not_blank {c : Char} (hc : isBlank c = false) (s : List Char) :
    skipBlanks (c :: s) = c :: s := by simp [skipBlanks, hc]

/-- What stands before the rest that blanks are skipped to. -/
theorem skipBlanks_spec (s : List Char) : ∃ b, Blank b ∧ s = b ++ skipBlanks s :=
  ⟨s.takeWhile isBlank, fun _ hc => List.mem_takeWhile_imp hc, List.takeWhile_append_dropWhile.symm⟩

/-! ## Strings -/

theorem readParts_of_spells {ps : List StringPart} {s : List Char} (h : Spells ps s) (r : List Char) :
    readParts (s ++ '"' :: r) = some (ps, r) := by
  induction h with
  | nil => rfl
  | plain hquote hslash hcontrol _ ih =>
    rw [List.cons_append, readParts]
    · simp [ih, hslash, hcontrol]
    · exact hquote
    · exact fun _ _ _ _ _ h _ => hslash h
    · exact fun _ _ h _ => hslash h
  | @simple c e ps s he _ ih =>
    rw [List.cons_append, List.cons_append, readParts]
    · simp [he, ih]
    · rintro _ _ _ _ _ rfl -
      simp [simpleEscape?] at he
  | unit hunit _ ih => simp [readParts, hunit, ih]

theorem spells_of_readParts {s : List Char} : ∀ {ps : List StringPart} {r : List Char},
    readParts s = some (ps, r) → ∃ t, Spells ps t ∧ s = t ++ '"' :: r := by
  fun_induction readParts s with
  | case1 | case4 | case6 | case7 | case9 => simp
  | case2 rest =>
    rintro ps r ⟨⟩
    exact ⟨[], .nil, rfl⟩
  | case3 a b c d rest unit ps r hrest hunit ih =>
    rintro _ _ ⟨⟩
    obtain ⟨t, ht, rfl⟩ := ih hrest
    exact ⟨_, .unit hunit ht, rfl⟩
  | case5 c rest _ e ps r hrest he ih =>
    rintro _ _ ⟨⟩
    obtain ⟨t, ht, rfl⟩ := ih hrest
    exact ⟨_, .simple he ht, rfl⟩
  | case8 c rest hquote _ _ hplain ps r hrest ih =>
    rintro _ _ ⟨⟩
    obtain ⟨t, ht, rfl⟩ := ih hrest
    obtain ⟨hslash, hcontrol⟩ := not_or.1 hplain
    exact ⟨_, .plain hquote hslash (by omega) ht, rfl⟩

theorem readString_of_text {t : Option String} {k : List Char} (h : StringText t k) :
    ∃ s, k = '"' :: s ∧ ∀ r, readString (s ++ r) = some (t, r) := by
  cases h with
  | @mk ps s hs =>
    refine ⟨s ++ ['"'], rfl, fun r => ?_⟩
    simp [readString, readParts_of_spells hs]

theorem text_of_readString {t : Option String} {s r : List Char} (h : readString s = some (t, r)) :
    ∃ k, StringText t ('"' :: k) ∧ s = k ++ r := by
  rw [readString, Option.map_eq_some_iff] at h
  obtain ⟨⟨ps, r⟩, hps, ⟨⟩⟩ := h
  obtain ⟨k, hk, rfl⟩ := spells_of_readParts hps
  exact ⟨k ++ ['"'], .mk hk, by simp⟩

/-! ## Numbers -/

/-- The text does not go on with a digit. -/
def NoDigit (r : List Char) : Prop := ∀ c ∈ r.head?, c.isDigit = false

/-- The text does not go on as a number does. -/
def Apart (r : List Char) : Prop := ∀ c ∈ r.head?, c.isDigit = false ∧ c ∉ ['.', 'e', 'E']

/-- What a reader takes from the front of a text is one of these texts. -/
def Takes (read : List Char → Option (List Char × List Char)) (Body : List Char → Prop) : Prop :=
  ∀ {s t r}, read s = some (t, r) → Body t ∧ s = t ++ r

theorem readDigits_of_text {ds r : List Char} (h : DigitsText ds) (hr : NoDigit r) :
    readDigits (ds ++ r) = some (ds, r) := by
  cases h with | @mk c ds hc hds
  have hall : ∀ d ∈ c :: ds, d.isDigit = true := by simpa using ⟨hc, hds⟩
  have htake : r.takeWhile Char.isDigit = [] := by
    cases r with
    | nil => rfl
    | cons d r => simp [hr d rfl]
  have hdrop : r.dropWhile Char.isDigit = r := by
    cases r with
    | nil => rfl
    | cons d r => simp [hr d rfl]
  rw [readDigits, List.takeWhile_append_of_pos hall, List.dropWhile_append_of_pos hall, htake, hdrop]
  simp

theorem takes_readDigits : Takes readDigits DigitsText := by
  intro s t r h
  have hall : ∀ d ∈ s.takeWhile Char.isDigit, d.isDigit = true := fun _ => List.mem_takeWhile_imp
  have hs : s = s.takeWhile Char.isDigit ++ s.dropWhile Char.isDigit := List.takeWhile_append_dropWhile.symm
  rw [readDigits] at h
  split at h
  · simp at h
  next hds =>
    cases h
    cases hcs : s.takeWhile Char.isDigit with
    | nil => exact absurd hcs hds
    | cons c cs =>
      rw [hcs] at hall hs
      exact ⟨.mk (hall c (by simp)) fun d hd => hall d (by simp [hd]), hs⟩

theorem readWhole_of_text {ds r : List Char} (h : WholeText ds) (hr : NoDigit r) :
    readWhole (ds ++ r) = some (ds, r) := by
  cases h with
  | zero =>
    cases r with
    | nil => rfl
    | cons d r => simp [readWhole, hr d rfl]
  | row hc hzero hds =>
    rw [readWhole, readDigits_of_text (.mk hc hds) hr]
    rintro rest ⟨⟩
    exact hzero rfl

theorem takes_readWhole : Takes readWhole WholeText := by
  intro s t r h
  unfold readWhole at h
  split at h
  · split at h
    · simp at h
    · cases h
      exact ⟨.zero, rfl⟩
  next hzero =>
    obtain ⟨⟨hc, hds⟩, rfl⟩ := takes_readDigits h
    exact ⟨.row hc (fun hc => hzero _ (by rw [hc]; rfl)) hds, rfl⟩

theorem MarkedText.head {marks s r : List Char} {Body : List Char → Prop} (h : MarkedText marks Body s) :
    ∀ c ∈ (s ++ r).head?, c ∈ marks ∨ c ∈ r.head? := by
  cases h with
  | absent => exact fun c hc => .inr hc
  | present hc _ =>
    rintro _ ⟨⟩
    exact .inl hc

section
variable {marks s r : List Char} {Body : List Char → Prop}
  {read : List Char → Option (List Char × List Char)}

theorem readMarked_of_text (hread : ∀ {t}, Body t → read (t ++ r) = some (t, r)) (h : MarkedText marks Body s)
    (hr : ∀ c ∈ r.head?, c ∉ marks) : readMarked marks read (s ++ r) = some (s, r) := by
  cases h with
  | absent =>
    cases r with
    | nil => rfl
    | cons c r => simp [readMarked, hr c rfl]
  | present hc hs => simp [readMarked, hc, hread hs]

theorem takes_readMarked (hread : Takes read Body) : Takes (readMarked marks read) (MarkedText marks Body) := by
  intro s t r h
  cases s with
  | nil =>
    cases h
    exact ⟨.absent, rfl⟩
  | cons c s =>
    rw [readMarked] at h
    split at h
    next hc =>
      rw [Option.map_eq_some_iff] at h
      obtain ⟨⟨t, r⟩, ht, ⟨⟩⟩ := h
      obtain ⟨hbody, rfl⟩ := hread ht
      exact ⟨.present hc hbody, rfl⟩
    · cases h
      exact ⟨.absent, rfl⟩

theorem readSigned_of_text (hread : ∀ {t}, Body t → read (t ++ r) = some (t, r)) (h : SignedText marks Body s)
    (hbody : ∀ t, Body t → ∀ c ∈ (t ++ r).head?, c ∉ marks) : readSigned marks (s ++ r) read = some (s, r) := by
  cases h with
  | unsigned hs =>
    rw [← hread hs]
    cases hsr : s ++ r with
    | nil => rfl
    | cons c t =>
      have hc := hbody s hs c (by rw [hsr]; rfl)
      simp [readSigned, hc]
  | signed hc hs => simp [readSigned, hc, hread hs]

theorem takes_readSigned (hread : Takes read Body) :
    Takes (readSigned marks · read) (SignedText marks Body) := by
  intro s t r h
  have hunsigned : read s = some (t, r) → SignedText marks Body t ∧ s = t ++ r := fun h =>
    (hread h).imp_left .unsigned
  cases s with
  | nil => exact hunsigned h
  | cons c s =>
    simp only [readSigned] at h
    split at h
    next hc =>
      rw [Option.map_eq_some_iff] at h
      obtain ⟨⟨t, r⟩, ht, ⟨⟩⟩ := h
      obtain ⟨hbody, rfl⟩ := hread ht
      exact ⟨.signed hc hbody, rfl⟩
    · exact hunsigned h

end

theorem DigitsText.head {ds r : List Char} (h : DigitsText ds) : ∀ c ∈ (ds ++ r).head?, c.isDigit = true := by
  obtain ⟨hc, -⟩ := h
  rintro _ ⟨⟩
  exact hc

theorem WholeText.head {ds r : List Char} (h : WholeText ds) : ∀ c ∈ (ds ++ r).head?, c.isDigit = true := by
  cases h with
  | zero =>
    rintro _ ⟨⟩
    rfl
  | row hc =>
    rintro _ ⟨⟩
    exact hc

theorem UnsignedText.head {ds r : List Char} (h : UnsignedText ds) : ∀ c ∈ (ds ++ r).head?, c.isDigit = true := by
  obtain ⟨hwhole, -, -⟩ := h
  simpa only [List.append_assoc] using hwhole.head

theorem not_mem_signs {c : Char} (hc : c.isDigit = true) : c ∉ ['+', '-'] := by
  intro h
  simp only [List.mem_cons, List.not_mem_nil, or_false] at h
  obtain rfl | rfl := h <;> simp at hc

theorem readUnsigned_of_text {ds r : List Char} (h : UnsignedText ds) (hr : Apart r) :
    readUnsigned (ds ++ r) = some (ds, r) := by
  cases h with | @mk whole part power hwhole hpart hpower
  have hdigits : NoDigit r := fun c hc => (hr c hc).1
  have hpowerR : NoDigit (power ++ r) ∧ ∀ c ∈ (power ++ r).head?, c ∉ ['.'] := by
    refine ⟨fun c hc => ?_, fun c hc => ?_⟩ <;> obtain hmark | hrest := hpower.head c hc
    · simp only [List.mem_cons, List.not_mem_nil, or_false] at hmark
      obtain rfl | rfl := hmark <;> rfl
    · exact hdigits c hrest
    · simp only [List.mem_cons, List.not_mem_nil, or_false] at hmark
      obtain rfl | rfl := hmark <;> simp
    · have := (hr c hrest).2
      simp_all
  have hpartR : NoDigit (part ++ (power ++ r)) := by
    intro c hc
    obtain hmark | hrest := hpart.head c hc
    · obtain rfl : c = '.' := by simpa using hmark
      rfl
    · exact hpowerR.1 c hrest
  have hwhole' := readWhole_of_text hwhole hpartR
  have hpart' := readMarked_of_text (fun ht => readDigits_of_text ht hpowerR.1) hpart hpowerR.2
  have hpower' : readMarked ['e', 'E'] (readSigned ['+', '-'] · readDigits) (power ++ r) = some (power, r) :=
    readMarked_of_text
      (fun ht => readSigned_of_text (fun ht => readDigits_of_text ht hdigits) ht
        fun t ht c hc => not_mem_signs (ht.head c hc)) hpower
      fun c hc => by
        have := (hr c hc).2
        simp_all
  simp [readUnsigned, hwhole', hpart', hpower', List.append_assoc]

theorem takes_readUnsigned : Takes readUnsigned UnsignedText := by
  intro s t r h
  simp only [readUnsigned, Option.bind_eq_bind, Option.bind_eq_some_iff, Option.pure_def, Prod.exists,
    Option.some.injEq, Prod.mk.injEq] at h
  obtain ⟨whole, s₁, hwhole, part, s₂, hpart, power, s₃, hpower, rfl, rfl⟩ := h
  obtain ⟨hwholeText, rfl⟩ := takes_readWhole hwhole
  obtain ⟨hpartText, rfl⟩ := takes_readMarked takes_readDigits hpart
  obtain ⟨hpowerText, rfl⟩ := takes_readMarked (takes_readSigned takes_readDigits) hpower
  exact ⟨.mk hwholeText hpartText hpowerText, by simp⟩

theorem readNumber_of_text {ds r : List Char} (h : NumberText ds) (hr : Apart r) :
    readNumber (ds ++ r) = some (ds, r) :=
  readSigned_of_text (fun ht => readUnsigned_of_text ht hr) h fun t ht c hc hsign =>
    not_mem_signs (ht.head c hc) (by simp_all)

theorem takes_readNumber : Takes readNumber NumberText := takes_readSigned takes_readUnsigned

/-! ## Values -/

theorem Apart.of_blank {b r : List Char} (hb : Blank b) (hr : Apart r) : Apart (b ++ r) := by
  cases b with
  | nil => exact hr
  | cons c b =>
    rintro _ ⟨⟩
    exact hb.elim (P := fun c => c.isDigit = false ∧ c ∉ ['.', 'e', 'E']) (by simp) c List.mem_cons_self

theorem apart_cons {c : Char} (hc : c.isDigit = false ∧ c ∉ ['.', 'e', 'E']) (r : List Char) :
    Apart (c :: r) := by
  rintro _ ⟨⟩
  exact hc

theorem NumberText.head {ds : List Char} (h : NumberText ds) :
    ∃ c t, ds = c :: t ∧ (c = '-' ∨ c.isDigit = true) := by
  cases h with
  | unsigned h =>
    cases hds : ds with
    | nil =>
      cases h with | mk hwhole
      cases hwhole <;> simp at hds
    | cons c t =>
      have := h.head (r := []) c (by simp [hds])
      exact ⟨c, t, rfl, .inr this⟩
  | signed hc _ => exact ⟨_, _, rfl, .inl (by simpa using hc)⟩

/-- A value starts with a character that is neither blank nor closes a bracket. -/
theorem ValueText.head {j : Json} {s : List Char} (h : ValueText j s) :
    ∃ c t, s = c :: t ∧ isBlank c = false ∧ c ≠ ']' := by
  cases h with
  | null => exact ⟨_, _, rfl, rfl, by decide⟩
  | @bool b => cases b <;> exact ⟨_, _, rfl, rfl, by decide⟩
  | number h =>
    obtain ⟨c, t, rfl, rfl | hc⟩ := h.head
    · exact ⟨_, _, rfl, rfl, by decide⟩
    · refine ⟨c, t, rfl, ?_, ?_⟩
      · simp only [isBlank, Bool.or_eq_false_iff, decide_eq_false_iff_not]
        refine ⟨⟨⟨?_, ?_⟩, ?_⟩, ?_⟩ <;> rintro rfl <;> simp at hc
      · rintro rfl
        simp at hc
  | string h =>
    obtain ⟨t, rfl, -⟩ := readString_of_text h
    exact ⟨_, _, rfl, rfl, by decide⟩
  | emptyArray | array | emptyObject | object => exact ⟨_, _, rfl, rfl, by decide⟩

theorem readValue_of_number {ds r : List Char} (h : NumberText ds) (hr : Apart r) (fuel : Nat) :
    readValue (fuel + 1) (ds ++ r) = some (.number ds, r) := by
  obtain ⟨c, t, rfl, hc⟩ := h.head
  obtain ⟨_, _, ⟨⟩, hblank, -⟩ := (ValueText.number h).head
  rw [readValue, List.cons_append, skipBlanks_of_not_blank hblank, ← List.cons_append]
  split
  case h_7 => rw [readNumber_of_text h hr, Option.map_some]
  all_goals
    next heq =>
      cases heq
      simp at hc

theorem readValue_skip {b : List Char} (hb : Blank b) (fuel : Nat) (s : List Char) :
    readValue (fuel + 1) (b ++ s) = readValue (fuel + 1) s := by
  rw [readValue, readValue, skipBlanks_append hb]

theorem Text.head {j : Json} {s : List Char} (h : Text j s) (r : List Char) :
    ∃ c t, skipBlanks (s ++ r) = c :: t ∧ c ≠ ']' := by
  cases h with | @mk j b s b' hb hs hb'
  obtain ⟨c, t, rfl, hblank, hc⟩ := hs.head
  exact ⟨c, t ++ (b' ++ r), by simp [skipBlanks_append hb, hblank], hc⟩

theorem ItemsText.head {js : List Json} {s : List Char} (h : ItemsText js s) (r : List Char) :
    ∃ c t, skipBlanks (s ++ r) = c :: t ∧ c ≠ ']' := by
  cases h with
  | one h => exact h.head r
  | cons h _ =>
    rw [List.append_assoc]
    exact h.head _

theorem FieldText.head {f : Option String × Json} {s : List Char} (h : FieldText f s) (r : List Char) :
    ∃ t, skipBlanks (s ++ r) = '"' :: t := by
  cases h with | @mk name j b k b' s hb hk hb' hs
  obtain ⟨t, rfl, -⟩ := readString_of_text hk
  exact ⟨t ++ (b' ++ ':' :: (s ++ r)), by simp [skipBlanks_append hb, isBlank]⟩

theorem FieldsText.head {fs : List (Option String × Json)} {s : List Char} (h : FieldsText fs s) (r : List Char) :
    ∃ t, skipBlanks (s ++ r) = '"' :: t := by
  cases h with
  | one h => exact h.head r
  | cons h _ =>
    rw [List.append_assoc]
    exact h.head _

mutual
theorem readValue_of_value {j : Json} {s : List Char} : ValueText j s → ∀ (fuel : Nat), 2 * s.length ≤ fuel + 1 →
    ∀ {r : List Char}, Apart r → readValue (fuel + 1) (s ++ r) = some (j, r)
  | .null, fuel, _, r, _ => rfl
  | .bool (b := b), fuel, _, r, _ => by cases b <;> rfl
  | .number h, fuel, _, r, hr => readValue_of_number h hr fuel
  | .string h, fuel, _, r, _ => by
    obtain ⟨t, rfl, ht⟩ := readString_of_text h
    simp [readValue, isBlank, ht]
  | .emptyArray hb, fuel, _, r, _ => by
    simp [readValue, isBlank, skipBlanks_append hb]
  | .array h, fuel, hfuel, r, _ => by
    simp at hfuel
    have hitems := readItems_of_text h fuel (by omega) r
    obtain ⟨c, t, hhead, hc⟩ := h.head (']' :: r)
    simp [readValue, isBlank, hhead, hc, hitems]
  | .emptyObject hb, fuel, _, r, _ => by
    simp [readValue, isBlank, skipBlanks_append hb]
  | .object h, fuel, hfuel, r, _ => by
    simp at hfuel
    have hfields := readFields_of_text h fuel (by omega) r
    obtain ⟨t, hhead⟩ := h.head ('\x7d' :: r)
    simp [readValue, isBlank, hhead, hfields]

theorem readValue_of_text {j : Json} {s : List Char} : Text j s → ∀ (fuel : Nat), 2 * s.length ≤ fuel →
    ∀ {r : List Char}, Apart r → ∃ b, Blank b ∧ readValue fuel (s ++ r) = some (j, b ++ r)
  | .mk hb hs hb', fuel, hfuel, r, hr => by
    obtain ⟨c, t, hhead, hblank, -⟩ := hs.head
    obtain ⟨n, rfl⟩ : ∃ n, fuel = n + 1 := ⟨fuel - 1, by simp [hhead] at hfuel; omega⟩
    have hread := readValue_of_value hs n (by simp at hfuel; omega) (hr.of_blank hb')
    exact ⟨_, hb', by simpa using (readValue_skip hb n _).trans hread⟩

theorem readItems_of_text {js : List Json} {s : List Char} : ItemsText js s → ∀ (fuel : Nat),
    2 * s.length + 1 ≤ fuel → ∀ r, readItems fuel (s ++ ']' :: r) = some (js, r)
  | .one h, fuel + 1, hfuel, r => by
    obtain ⟨b, hb, hread⟩ := readValue_of_text h fuel (by omega) (apart_cons (c := ']') (by decide) r)
    simp [readItems, hread, skipBlanks_append hb, isBlank]
  | .cons (t := t) h hs, fuel + 1, hfuel, r => by
    simp at hfuel
    have hitems := readItems_of_text hs fuel (by omega) r
    obtain ⟨b, hb, hread⟩ := readValue_of_text h fuel (by omega)
      (apart_cons (c := ',') (by decide) (t ++ ']' :: r))
    simp [readItems, hread, skipBlanks_append hb, isBlank, hitems]

theorem readFields_of_text {fs : List (Option String × Json)} {s : List Char} : FieldsText fs s → ∀ (fuel : Nat),
    2 * s.length + 1 ≤ fuel → ∀ r, readFields fuel (s ++ '\x7d' :: r) = some (fs, r)
  | .one (.mk hb hk hb' hs), fuel + 1, hfuel, r => by
    obtain ⟨t, rfl, hname⟩ := readString_of_text hk
    simp at hfuel
    obtain ⟨b, hblank, hread⟩ := readValue_of_text hs fuel (by omega)
      (apart_cons (c := '\x7d') (by decide) r)
    simp [readFields, skipBlanks_append hb, skipBlanks_append hb', skipBlanks_append hblank, isBlank, hname, hread]
  | .cons (t := t) (.mk hb hk hb' hs) hfs, fuel + 1, hfuel, r => by
    obtain ⟨u, rfl, hname⟩ := readString_of_text hk
    simp at hfuel
    have hfields := readFields_of_text hfs fuel (by omega) r
    obtain ⟨b, hblank, hread⟩ := readValue_of_text hs fuel (by omega)
      (apart_cons (c := ',') (by decide) (t ++ '\x7d' :: r))
    simp [readFields, skipBlanks_append hb, skipBlanks_append hb', skipBlanks_append hblank, isBlank, hname, hread,
      hfields]
end

/-! ## What is read is a text -/

theorem text_of_readWord {w : String} {v : Json} {s r : List Char} {j : Json} (h : readWord w v s = some (j, r)) :
    j = v ∧ s = w.toList ++ r := by
  rw [readWord] at h
  split at h
  next hw =>
    cases h
    obtain ⟨t, rfl⟩ := List.isPrefixOf_iff_prefix.1 hw
    simp [← String.length_toList]
  · simp at h

mutual
theorem text_of_readValue : ∀ (fuel : Nat) {s r : List Char} {j : Json}, readValue fuel s = some (j, r) →
    ∃ b t, Blank b ∧ ValueText j t ∧ s = b ++ (t ++ r)
  | 0, s, r, j, h => by simp [readValue] at h
  | fuel + 1, s, r, j, h => by
    obtain ⟨b, hb, hs⟩ := skipBlanks_spec s
    suffices ∃ t, ValueText j t ∧ skipBlanks s = t ++ r by
      obtain ⟨t, ht, hst⟩ := this
      exact ⟨b, t, hb, ht, hst ▸ hs⟩
    rw [readValue] at h
    split at h
    next rest heq =>
      rw [Option.map_eq_some_iff] at h
      obtain ⟨⟨t, r⟩, ht, ⟨⟩⟩ := h
      obtain ⟨k, hk, rfl⟩ := text_of_readString ht
      exact ⟨_, .string hk, heq⟩
    next rest heq =>
      obtain ⟨b', hb', hrest⟩ := skipBlanks_spec rest
      split at h
      next hclose =>
        cases h
        refine ⟨_, .emptyArray hb', ?_⟩
        rw [heq, hrest, hclose]
        simp
      · rw [Option.map_eq_some_iff] at h
        obtain ⟨⟨js, r⟩, hjs, ⟨⟩⟩ := h
        obtain ⟨t, ht, rfl⟩ := text_of_readItems fuel hjs
        exact ⟨_, .array ht, by simp [heq]⟩
    next rest heq =>
      obtain ⟨b', hb', hrest⟩ := skipBlanks_spec rest
      split at h
      next hclose =>
        cases h
        refine ⟨_, .emptyObject hb', ?_⟩
        rw [heq, hrest, hclose]
        simp
      · rw [Option.map_eq_some_iff] at h
        obtain ⟨⟨fs, r⟩, hfs, ⟨⟩⟩ := h
        obtain ⟨t, ht, rfl⟩ := text_of_readFields fuel hfs
        exact ⟨_, .object ht, by simp [heq]⟩
    next rest heq =>
      obtain ⟨rfl, hw⟩ := text_of_readWord h
      exact ⟨_, .null, heq.trans hw⟩
    next rest heq =>
      obtain ⟨rfl, hw⟩ := text_of_readWord h
      exact ⟨_, .bool (b := true), heq.trans hw⟩
    next rest heq =>
      obtain ⟨rfl, hw⟩ := text_of_readWord h
      exact ⟨_, .bool (b := false), heq.trans hw⟩
    next rest _ _ _ _ _ _ =>
      rw [Option.map_eq_some_iff] at h
      obtain ⟨⟨ds, r⟩, hds, ⟨⟩⟩ := h
      obtain ⟨hnumber, hrest⟩ := takes_readNumber hds
      exact ⟨_, .number hnumber, hrest⟩

theorem text_of_readItems : ∀ (fuel : Nat) {s r : List Char} {js : List Json}, readItems fuel s = some (js, r) →
    ∃ t, ItemsText js t ∧ s = t ++ ']' :: r
  | 0, s, r, js, h => by simp [readItems] at h
  | fuel + 1, s, r, js, h => by
    rw [readItems] at h
    split at h
    · simp at h
    next j rest hread =>
      obtain ⟨b, t, hb, ht, rfl⟩ := text_of_readValue fuel hread
      obtain ⟨b', hb', hrest⟩ := skipBlanks_spec rest
      split at h
      next tail hcomma =>
        rw [Option.map_eq_some_iff] at h
        obtain ⟨⟨js, r⟩, hjs, ⟨⟩⟩ := h
        obtain ⟨u, hu, rfl⟩ := text_of_readItems fuel hjs
        refine ⟨_, .cons (.mk hb ht hb') hu, ?_⟩
        rw [hrest, hcomma]
        simp
      next tail hclose =>
        cases h
        refine ⟨_, .one (.mk hb ht hb'), ?_⟩
        rw [hrest, hclose]
        simp
      · simp at h

theorem text_of_readFields : ∀ (fuel : Nat) {s r : List Char} {fs : List (Option String × Json)},
    readFields fuel s = some (fs, r) → ∃ t, FieldsText fs t ∧ s = t ++ '\x7d' :: r
  | 0, s, r, fs, h => by simp [readFields] at h
  | fuel + 1, s, r, fs, h => by
    obtain ⟨b, hb, hs⟩ := skipBlanks_spec s
    rw [readFields] at h
    split at h
    next tail hquote =>
      split at h
      · simp at h
      next name tail hname =>
        obtain ⟨k, hk, rfl⟩ := text_of_readString hname
        obtain ⟨b₁, hb₁, hcolon⟩ := skipBlanks_spec tail
        split at h
        next value heq =>
          rw [heq] at hcolon
          split at h
          · simp at h
          next j rest hread =>
            obtain ⟨b₂, t, hb₂, ht, rfl⟩ := text_of_readValue fuel hread
            obtain ⟨b₃, hb₃, hrest⟩ := skipBlanks_spec rest
            have hfield : FieldText (name, j) (b ++ ('"' :: k ++ (b₁ ++ ':' :: (b₂ ++ (t ++ b₃))))) :=
              .mk hb hk hb₁ (.mk hb₂ ht hb₃)
            split at h
            next more hcomma =>
              rw [Option.map_eq_some_iff] at h
              obtain ⟨⟨fs, r⟩, hfs, ⟨⟩⟩ := h
              obtain ⟨u, hu, rfl⟩ := text_of_readFields fuel hfs
              refine ⟨_, .cons hfield hu, ?_⟩
              rw [hs, hquote, hcolon, hrest, hcomma]
              simp
            next more hclose =>
              cases h
              refine ⟨_, .one hfield, ?_⟩
              rw [hs, hquote, hcolon, hrest, hclose]
              simp
            · simp at h
        · simp at h
    · simp at h
end

/-- Reading accepts exactly the texts of the grammar, with the values that they have there. -/
theorem read?_eq_some_iff {s : List Char} {j : Json} : read? s = some j ↔ Text j s := by
  constructor
  · intro h
    rw [read?] at h
    split at h
    next j rest hread =>
      obtain ⟨b, t, hb, ht, rfl⟩ := text_of_readValue _ hread
      obtain ⟨b', hb', hrest⟩ := skipBlanks_spec rest
      split at h
      next hend =>
        cases h
        rw [List.isEmpty_iff.1 hend, List.append_nil] at hrest
        exact hrest ▸ .mk hb ht hb'
      · simp at h
    · simp at h
  · intro h
    obtain ⟨b, hb, hread⟩ := readValue_of_text h (fuelFor s) (by simp [fuelFor]) (r := [])
      (by rintro _ ⟨⟩)
    rw [List.append_nil, List.append_nil] at hread
    rw [read?, hread]
    simp [skipBlanks_blank hb]

end DocNav.Json
