import DocNav.Script
import DocNav.Proofs.JsonTexts
/-!
# The literals of a script

A scan for the end of a bracketed literal passes over a text if it comes out of it as it went in, all brackets that
the text opens being closed in it. JSON texts are passed over, whatever their strings contain, so an array or an
object is cut out as a whole (`balanced_of_text`). A message is read back from every literal that escapes it
(`quoted?_of_message`).
-/

namespace DocNav.Script

/-! ## Bracketed literals -/

/-- Where a bracket is open, the scan goes on behind the text as it would without it. -/
def Passes (s : List Char) : Prop :=
  ∀ depth r, closeFrom { depth := depth + 1 } (s ++ r) = (closeFrom { depth := depth + 1 } r).map (s ++ ·)

theorem Passes.nil : Passes [] := by
  intro depth r
  simp

theorem Passes.append {s t : List Char} (hs : Passes s) (ht : Passes t) : Passes (s ++ t) := by
  intro depth r
  rw [List.append_assoc, hs, ht, Option.map_map]
  simp [Function.comp_def]

/-- Characters that a scan outside quotes does not react to. -/
def plain (c : Char) : Bool := c ∉ ['"', '\x27', '[', '\x7b', ']', '\x7d']

theorem Passes.char {c : Char} (hc : plain c = true) : Passes [c] := by
  intro depth r
  simp only [plain, List.mem_cons, List.not_mem_nil, or_false, not_or, decide_eq_true_eq] at hc
  obtain ⟨hquote, hmark, hsquare, hcurly, hclose, hclose'⟩ := hc
  simp [closeFrom, ScanState.next, hquote, hmark, hsquare, hcurly, hclose, hclose']

theorem Passes.of_plain {s : List Char} (hs : ∀ c ∈ s, plain c = true) : Passes s := by
  induction s with
  | nil => exact .nil
  | cons c s ih =>
    exact (Passes.char (hs c (by simp))).append (ih fun d hd => hs d (by simp [hd]))

theorem Passes.bracketed {s : List Char} {first last : Char} (hs : Passes s) (hfirst : first ∈ ['[', '\x7b'])
    (hlast : last ∈ [']', '\x7d']) : Passes (first :: (s ++ [last])) := by
  intro depth r
  have hopen : closeFrom { depth := depth + 1 } (first :: (s ++ [last]) ++ r) =
      (closeFrom { depth := depth + 2 } (s ++ last :: r)).map (first :: ·) := by
    simp only [List.mem_cons, List.not_mem_nil, or_false] at hfirst
    obtain rfl | rfl := hfirst <;> simp [closeFrom, ScanState.next]
  have hclose : closeFrom { depth := depth + 2 } (last :: r) =
      (closeFrom { depth := depth + 1 } r).map (last :: ·) := by
    simp only [List.mem_cons, List.not_mem_nil, or_false] at hlast
    obtain rfl | rfl := hlast <;> simp [closeFrom, ScanState.next]
  rw [hopen, hs, hclose]
  simp [Function.comp_def]

theorem balanced_of_passes {s r : List Char} {first last : Char} (hs : Passes s) (hfirst : first ∈ ['[', '\x7b'])
    (hlast : last ∈ [']', '\x7d']) :
    balanced (first :: (s ++ last :: r)) = some (first :: (s ++ [last])) := by
  have hclose : closeFrom { depth := 1 } (last :: r) = some [last] := by
    simp only [List.mem_cons, List.not_mem_nil, or_false] at hlast
    obtain rfl | rfl := hlast <;> simp [closeFrom]
  have hopen : first = '[' ∨ first = '\x7b' := by simpa using hfirst
  rw [balanced, if_pos hopen, hs 0, hclose]
  rfl

/-! ### JSON texts -/

open Json (Spells StringText NumberText ValueText Text ItemsText FieldText FieldsText)

theorem not_quote_of_hex {a b c d : Char} {unit : Nat} (h : Json.hexUnit? a b c d = some unit) :
    ∀ x ∈ [a, b, c, d], x ≠ '"' ∧ x ≠ '\\' := by
  intro x hx
  simp only [Json.hexUnit?, Option.bind_eq_bind, Option.bind_eq_some_iff] at h
  obtain ⟨_, ha, _, hb, _, hc, _, hd, -⟩ := h
  constructor <;>
  · rintro rfl
    simp only [List.mem_cons, List.not_mem_nil, or_false] at hx
    obtain rfl | rfl | rfl | rfl := hx <;> simp [Digits.value?] at *

/-- Between its quotes the parts of a string are passed over. -/
theorem closeFrom_spells {ps : List Json.StringPart} {s : List Char} (h : Spells ps s) (depth : Nat) (r : List Char) :
    closeFrom ⟨depth, .inside '"'⟩ (s ++ r) = (closeFrom ⟨depth, .inside '"'⟩ r).map (s ++ ·) := by
  induction h with
  | nil => simp
  | plain hquote hslash _ _ ih => simp [closeFrom, ScanState.next, hquote, hslash, ih, Function.comp_def]
  | simple _ _ ih => simp [closeFrom, ScanState.next, ih, Function.comp_def]
  | unit hunit _ ih =>
    have := not_quote_of_hex hunit
    simp at this
    simp [closeFrom, ScanState.next, ih, Function.comp_def, this]

theorem Passes.string {t : Option String} {s : List Char} (h : StringText t s) : Passes s := by
  obtain ⟨hs⟩ := h
  intro depth r
  have hbody := closeFrom_spells hs (depth + 1) ('"' :: r)
  simp [closeFrom, ScanState.next, hbody, Function.comp_def]

theorem Passes.blank {b : List Char} (hb : Json.Blank b) : Passes b :=
  .of_plain (hb.elim (by simp [plain]))

section
variable {P : Char → Prop} {marks s : List Char} {Body : List Char → Prop}

theorem mem_of_marked (h : Json.MarkedText marks Body s) (hmarks : ∀ c ∈ marks, P c)
    (hbody : ∀ t, Body t → ∀ c ∈ t, P c) : ∀ c ∈ s, P c := by
  cases h with
  | absent => simp
  | present hc hs => simpa using ⟨hmarks _ hc, hbody _ hs⟩

theorem mem_of_signed (h : Json.SignedText marks Body s) (hmarks : ∀ c ∈ marks, P c)
    (hbody : ∀ t, Body t → ∀ c ∈ t, P c) : ∀ c ∈ s, P c := by
  cases h with
  | unsigned hs => exact hbody _ hs
  | signed hc hs => simpa using ⟨hmarks _ hc, hbody _ hs⟩

end

theorem plain_of_digit {c : Char} (hc : c.isDigit = true) : plain c = true := by
  simp only [plain, List.mem_cons, List.not_mem_nil, or_false, not_or, decide_eq_true_eq]
  refine ⟨?_, ?_, ?_, ?_, ?_, ?_⟩ <;>
  · rintro rfl
    simp at hc

theorem Passes.number {ds : List Char} (h : NumberText ds) : Passes ds := by
  have hdigits : ∀ t, Json.DigitsText t → ∀ c ∈ t, plain c = true := by
    rintro _ ⟨hc, hds⟩
    simpa using ⟨plain_of_digit hc, fun d hd => plain_of_digit (hds d hd)⟩
  have hwhole : ∀ t, Json.WholeText t → ∀ c ∈ t, plain c = true := by
    rintro _ (_ | ⟨hc, _, hds⟩)
    · simp [plain]
    · simpa using ⟨plain_of_digit hc, fun d hd => plain_of_digit (hds d hd)⟩
  refine .of_plain (mem_of_signed h (by simp [plain]) ?_)
  rintro _ ⟨hw, hpart, hpower⟩ c hc
  simp only [List.mem_append] at hc
  obtain (hc | hc) | hc := hc
  · exact hwhole _ hw c hc
  · exact mem_of_marked hpart (by simp [plain]) hdigits c hc
  · exact mem_of_marked hpower (by simp [plain]) (fun t ht => mem_of_signed ht (by simp [plain]) hdigits) c hc

mutual
theorem Passes.value {j : Json} {s : List Char} : ValueText j s → Passes s
  | .null => .of_plain (by simp [plain])
  | .bool (b := b) => by cases b <;> exact .of_plain (by simp [plain])
  | .number h => .number h
  | .string h => .string h
  | .emptyArray hb => .bracketed (.blank hb) (by simp) (by simp)
  | .array h => .bracketed (.items h) (by simp) (by simp)
  | .emptyObject hb => .bracketed (.blank hb) (by simp) (by simp)
  | .object h => .bracketed (.fields h) (by simp) (by simp)

theorem Passes.text {j : Json} {s : List Char} : Text j s → Passes s
  | .mk hb h hb' => (Passes.blank hb).append ((Passes.value h).append (.blank hb'))

theorem Passes.items {js : List Json} {s : List Char} : ItemsText js s → Passes s
  | .one h => .text h
  | .cons h hs => (Passes.text h).append ((Passes.char (c := ',') rfl).append (.items hs))

theorem Passes.field {f : Option String × Json} {s : List Char} : FieldText f s → Passes s
  | .mk hb hk hb' h =>
    (Passes.blank hb).append ((Passes.string hk).append
      ((Passes.blank hb').append ((Passes.char (c := ':') rfl).append (.text h))))

theorem Passes.fields {fs : List (Option String × Json)} {s : List Char} : FieldsText fs s → Passes s
  | .one h => .field h
  | .cons h hs => (Passes.field h).append ((Passes.char (c := ',') rfl).append (.fields hs))
end

/-- The text of an array or an object is cut out of what it starts. -/
theorem balanced_of_text {j : Json} {s : List Char} (h : ValueText j s)
    (hj : (∃ js, j = .array js) ∨ ∃ fs, j = .object fs) (r : List Char) : balanced (s ++ r) = some s := by
  have hcut : ∀ {t : List Char} {first last : Char}, Passes t → first ∈ ['[', '\x7b'] → last ∈ [']', '\x7d'] →
      balanced (first :: (t ++ [last]) ++ r) = some (first :: (t ++ [last])) := by
    intro t first last ht hfirst hlast
    simpa using balanced_of_passes ht hfirst hlast
  cases h with
  | emptyArray hb => exact hcut (.blank hb) (by simp) (by simp)
  | array h => exact hcut (.items h) (by simp) (by simp)
  | emptyObject hb => exact hcut (.blank hb) (by simp) (by simp)
  | object h => exact hcut (.fields h) (by simp) (by simp)
  | null | bool | number | string => simp at hj

/-! ## Messages -/

/-- A message as it stands between quotes: its quote and the backslash behind a backslash, and other characters as
they are or behind one, a line feed apart. -/
inductive Escapes (mark : Char) : List Char → List Char → Prop
  | nil : Escapes mark [] []
  | plain {c : Char} {m s : List Char} : c ≠ mark → c ≠ '\\' → Escapes mark m s → Escapes mark (c :: m) (c :: s)
  | escaped {c : Char} {m s : List Char} : c ≠ '\n' → Escapes mark m s → Escapes mark (c :: m) ('\\' :: c :: s)

/-- The literals of a message. -/
inductive MessageText : List Char → List Char → Prop
  | mk {mark : Char} {m s : List Char} :
      mark ∈ ['"', '\x27'] → Escapes mark m s → MessageText m (mark :: (s ++ [mark]))

theorem readQuoted_of_escapes {mark : Char} {m s : List Char} (h : Escapes mark m s) (hmark : mark ≠ '\\')
    (r : List Char) : readQuoted mark (s ++ mark :: r) = some m := by
  induction h with
  | nil =>
    rw [List.nil_append, readQuoted]
    · simp
    · exact fun _ _ h _ => hmark h
  | plain hc hslash _ ih =>
    rw [List.cons_append, readQuoted]
    · simp [hc, hslash, ih]
    · exact fun _ _ h _ => hslash h
  | escaped hc _ ih => simp [readQuoted, hc, ih]

/-- A message is read from each of its literals. -/
theorem quoted?_of_message {m s : List Char} (h : MessageText m s) (r : List Char) : quoted? (s ++ r) = some m := by
  cases h with | mk hmark h
  simp only [List.mem_cons, List.not_mem_nil, or_false] at hmark
  obtain rfl | rfl := hmark <;> simpa [quoted?] using readQuoted_of_escapes h (by decide) r

/-- The message in quotes, with a backslash before each backslash and each quote of that kind. -/
def quote (mark : Char) (m : List Char) : List Char :=
  mark :: (m.flatMap (fun c => if c = '\\' ∨ c = mark then ['\\', c] else [c]) ++ [mark])

theorem messageText_quote {mark : Char} (hmark : mark ∈ ['"', '\x27']) (m : List Char) :
    MessageText m (quote mark m) := by
  refine .mk hmark ?_
  induction m with
  | nil => exact .nil
  | cons c m ih =>
    rw [List.flatMap_cons]
    split
    next hc =>
      refine .escaped ?_ ih
      rintro rfl
      obtain h | rfl := hc
      · simp at h
      · simp at hmark
    next hc =>
      obtain ⟨hslash, hne⟩ := not_or.1 hc
      exact .plain hne hslash ih

end DocNav.Script
