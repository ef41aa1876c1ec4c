import DocNav.Script
import Mathlib
/-!
# Assignments in a script

`Script.Assigns` says that a text starts with `var NAME =`, and `Script.Mentions` that this stands somewhere in it
where `var` does not continue a word. An assignment is looked for in the text as it stands, literals and all: the one
at the front is found (`findAssigned_of_assigns`), and of a text in front of another the first assignment whose value is
accepted (`findAssigned_append_iff`), so that an assignment to another name is passed over unless its literal offers
one to this (`findAssigned_assignment_iff`).
-/

namespace DocNav

namespace CharClass

theorem mem_of_within {rs : List (Nat × Nat)} {c : Char} (h : within rs c = true) :
    ∃ x ∈ rs, x.1 ≤ c.toNat ∧ c.toNat ≤ x.2 := by
  induction rs with
  | nil => simp [within] at h
  | cons x rs ih =>
    obtain ⟨first, last⟩ := x
    simp only [within, Bool.and_eq_true, Bool.or_eq_true, decide_eq_true_eq] at h
    obtain ⟨hfirst, hlast | hrest⟩ := h
    · exact ⟨(first, last), by simp, hfirst, hlast⟩
    · obtain ⟨x, hx, hc⟩ := ih hrest
      exact ⟨x, by simp [hx], hc⟩

theorem isBlank_of_isWord {c : Char} (h : isWord c = true) : isBlank c = false := by
  -- No range of the one class meets a range of the other.
  have hapart : blank.all (fun x => word.all fun y => x.2 < y.1 || y.2 < x.1) = true := by decide +kernel
  by_contra hblank
  obtain ⟨x, hx, hxc⟩ := mem_of_within (Bool.not_eq_false _ ▸ hblank)
  obtain ⟨y, hy, hyc⟩ := mem_of_within h
  have := List.all_eq_true.1 (List.all_eq_true.1 hapart x hx) y hy
  simp only [Bool.or_eq_true, decide_eq_true_eq] at this
  omega

theorem toNat_lt_of_isAlphanum {c : Char} (h : c.isAlphanum = true) : c.toNat < 128 := by
  simp only [Char.isAlphanum, Char.isAlpha, Char.isUpper, Char.isLower, Char.isDigit, Bool.or_eq_true,
    Bool.and_eq_true, decide_eq_true_eq, UInt32.le_iff_toNat_le, ge_iff_le] at h
  have hvalue : c.toNat = c.val.toNat := rfl
  have hupper : 'Z'.val.toNat = 90 := rfl
  have hlower : 'z'.val.toNat = 122 := rfl
  have hdigit : '9'.val.toNat = 57 := rfl
  omega

theorem isWord_of_ascii {c : Char} (h : c.isAlphanum = true ∨ c = '_') : isWord c = true := by
  have hall : ∀ n : Fin 128, (Char.ofNat n).isAlphanum = true → isWord (Char.ofNat n) = true := by decide +kernel
  obtain h | rfl := h
  · have hc := hall ⟨c.toNat, toNat_lt_of_isAlphanum h⟩
    rw [Char.ofNat_toNat] at hc
    exact hc h
  · rfl

end CharClass

namespace Script

open CharClass (isBlank isWord isBlank_of_isWord)

/-- The text starts with `var NAME =`, and this is what follows. -/
inductive Assigns (name : List Char) : List Char → List Char → Prop
  | mk {b b' r : List Char} : b ≠ [] → (∀ c ∈ b, isBlank c = true) → (∀ c ∈ b', isBlank c = true) →
      Assigns name ("var".toList ++ (b ++ (name ++ (b' ++ '=' :: r)))) r

/-- Somewhere in the text there is `var NAME =` and `var` does not continue a word; the flag says whether a character
at the front would. -/
inductive Mentions (name : List Char) : Bool → List Char → Prop
  | here {s r : List Char} : Assigns name s r → Mentions name false s
  | later {inWord : Bool} {c : Char} {s : List Char} : Mentions name (isWord c) s → Mentions name inWord (c :: s)

/-- The first value that is accepted among those of the assignments to the name that start in the text, where another
text follows; the flag is as before. -/
inductive Offers {α : Type} (accept : List Char → Option α) (name behind : List Char) : Bool → List Char → α → Prop
  | here {c : Char} {s r : List Char} {a : α} : Assigns name (c :: (s ++ behind)) r →
      accept (r.dropWhile isBlank) = some a → Offers accept name behind false (c :: s) a
  | later {inWord : Bool} {c : Char} {s : List Char} {a : α} :
      (inWord = false → ∀ r, Assigns name (c :: (s ++ behind)) r → accept (r.dropWhile isBlank) = none) →
      Offers accept name behind (isWord c) s a → Offers accept name behind inWord (c :: s) a

/-- The first value that is accepted in the first of the texts that offers any; each comes with what follows it. -/
inductive Taken {α : Type} (accept : List Char → Option α) (name : List Char) : List (List Char × List Char) → α → Prop
  | here {s behind : List Char} {texts : List (List Char × List Char)} {a : α} :
      Offers accept name behind false s a → Taken accept name ((s, behind) :: texts) a
  | later {s behind : List Char} {texts : List (List Char × List Char)} {a : α} :
      (∀ b, ¬ Offers accept name behind false s b) → Taken accept name texts a →
      Taken accept name ((s, behind) :: texts) a

/-! ## What is found at the front -/

theorem mem_behindBlanks {s v : List Char} :
    v ∈ behindBlanks s ↔ ∃ b, b ≠ [] ∧ (∀ c ∈ b, isBlank c = true) ∧ s = b ++ v := by
  induction s with
  | nil =>
    simp only [behindBlanks, List.not_mem_nil, false_iff]
    rintro ⟨b, hb, -, h⟩
    exact hb (List.append_eq_nil_iff.1 h.symm).1
  | cons c s ih =>
    rw [behindBlanks]
    split
    next hc =>
      rw [List.mem_append, ih, List.mem_singleton]
      constructor
      · rintro (⟨b, -, hb, rfl⟩ | rfl)
        · exact ⟨c :: b, by simp, by simpa using ⟨hc, hb⟩, rfl⟩
        · exact ⟨[c], by simp, by simpa using hc, rfl⟩
      · rintro ⟨b, hne, hb, h⟩
        obtain ⟨d, b, rfl⟩ := List.exists_cons_of_ne_nil hne
        obtain ⟨rfl, rfl⟩ := List.cons.inj h
        cases b with
        | nil => exact .inr rfl
        | cons e b => exact .inl ⟨e :: b, by simp, fun x hx => hb x (by simp [hx]), rfl⟩
    next hc =>
      simp only [List.not_mem_nil, false_iff]
      rintro ⟨b, hne, hb, h⟩
      obtain ⟨d, b, rfl⟩ := List.exists_cons_of_ne_nil hne
      obtain ⟨rfl, -⟩ := List.cons.inj h
      exact hc (hb c (by simp))

theorem dropWhile_blanks {b : List Char} (hb : ∀ c ∈ b, isBlank c = true) {s : List Char} {c : Char}
    (hc : isBlank c = false) : (b ++ c :: s).dropWhile isBlank = c :: s := by
  rw [List.dropWhile_append_of_pos hb]
  simp [hc]

theorem behindName_eq_some {name s v : List Char} : behindName name s = some v ↔
    ∃ b r, (∀ c ∈ b, isBlank c = true) ∧ s = name ++ (b ++ '=' :: r) ∧ v = r.dropWhile isBlank := by
  constructor
  · intro h
    rw [behindName] at h
    split at h
    next hname =>
      obtain ⟨t, rfl⟩ := List.isPrefixOf_iff_prefix.1 hname
      rw [List.drop_left] at h
      split at h
      next r hr =>
        cases h
        refine ⟨t.takeWhile isBlank, r, fun _ => List.mem_takeWhile_imp, ?_, rfl⟩
        rw [← hr, List.takeWhile_append_dropWhile]
      · simp at h
    · simp at h
  · rintro ⟨b, r, hb, rfl, rfl⟩
    have hname : name.isPrefixOf (name ++ (b ++ '=' :: r)) = true := by simp
    rw [behindName, if_pos hname, List.drop_left, dropWhile_blanks hb rfl]
    rfl

theorem mem_assignedAt {name s v : List Char} :
    v ∈ assignedAt name s ↔ ∃ r, Assigns name s r ∧ v = r.dropWhile isBlank := by
  constructor
  · intro h
    unfold assignedAt at h
    split at h
    next rest =>
      obtain ⟨t, ht, hv⟩ := List.mem_filterMap.1 h
      obtain ⟨b, hne, hb, rfl⟩ := mem_behindBlanks.1 ht
      obtain ⟨b', r, hb', rfl, rfl⟩ := behindName_eq_some.1 hv
      exact ⟨r, .mk hne hb hb', rfl⟩
    · simp at h
  · rintro ⟨r, ⟨hne, hb, hb'⟩, rfl⟩
    refine List.mem_filterMap.2 ⟨_, mem_behindBlanks.2 ⟨_, hne, hb, rfl⟩, ?_⟩
    exact behindName_eq_some.2 ⟨_, r, hb', rfl, rfl⟩

theorem Assigns.rest_eq {name s r : List Char} (hname : ∀ c ∈ name, isWord c = true) (h : Assigns name s r) :
    (((s.drop 3).dropWhile isBlank).drop name.length).dropWhile isBlank = '=' :: r := by
  cases h with | @mk b b' r _ hb hb'
  have hdrop : ("var".toList ++ (b ++ (name ++ (b' ++ '=' :: r)))).drop 3 = b ++ (name ++ (b' ++ '=' :: r)) := rfl
  rw [hdrop, List.dropWhile_append_of_pos hb]
  cases name with
  | nil => rw [List.nil_append, dropWhile_blanks hb' rfl]; rfl
  | cons c n =>
    have hc : isBlank c = false := isBlank_of_isWord (hname c (by simp))
    have hstay : (c :: n ++ (b' ++ '=' :: r)).dropWhile isBlank = c :: n ++ (b' ++ '=' :: r) := by simp [hc]
    rw [hstay, List.drop_left, dropWhile_blanks hb' rfl]

theorem Assigns.head {name s r : List Char} (h : Assigns name s r) : ∃ t, s = 'v' :: t := by
  cases h
  exact ⟨_, rfl⟩

/-- Where the name is a word, there is one way to read the assignment to it. -/
theorem Assigns.unique {name s r r' : List Char} (hname : ∀ c ∈ name, isWord c = true) (h : Assigns name s r)
    (h' : Assigns name s r') : r = r' :=
  (List.cons.inj ((h.rest_eq hname).symm.trans (h'.rest_eq hname))).2

theorem findAssigned_of_assigns {α : Type} {accept : List Char → Option α} {a : α} {name s r : List Char}
    (hname : ∀ c ∈ name, isWord c = true) (h : Assigns name s r) (ha : accept (r.dropWhile isBlank) = some a) :
    findAssigned name accept false s = some a := by
  have hall : ∀ v ∈ assignedAt name s, accept v = some a := by
    intro v hv
    obtain ⟨r', h', rfl⟩ := mem_assignedAt.1 hv
    rwa [← h.unique hname h']
  have hfind : (assignedAt name s).findSome? accept = some a := by
    cases hvs : assignedAt name s with
    | nil => exact absurd (mem_assignedAt.2 ⟨r, h, rfl⟩) (by simp [hvs])
    | cons v vs => simp [hall v (by simp [hvs])]
  obtain ⟨t, rfl⟩ := h.head
  rw [findAssigned, if_neg Bool.false_ne_true, hfind]

/-! ## What is skipped -/

/-- A character at which no name and no blanks go on. -/
def Stops (c : Char) : Prop := isWord c = false ∧ isBlank c = false

theorem Assigns.append {name s r : List Char} (h : Assigns name s r) (t : List Char) :
    Assigns name (s ++ t) (r ++ t) := by
  cases h with | mk hne hb hb'
  simpa using @Assigns.mk name _ _ (r ++ t) hne hb hb'

theorem Stops.not_mem {name b b' : List Char} {c : Char} (hc : Stops c) (hname : ∀ c ∈ name, isWord c = true)
    (hb : ∀ c ∈ b, isBlank c = true) (hb' : ∀ c ∈ b', isBlank c = true) :
    c ∉ "var".toList ++ (b ++ (name ++ b')) := by
  have hvar : ∀ c ∈ "var".toList, isWord c = true := List.all_eq_true.1 (by rfl)
  obtain ⟨hword, hblank⟩ := hc
  simp only [List.mem_append, not_or]
  refine ⟨fun h => ?_, fun h => ?_, fun h => ?_, fun h => ?_⟩
  · simp [hvar c h] at hword
  · simp [hb c h] at hblank
  · simp [hname c h] at hword
  · simp [hb' c h] at hblank

/-- An assignment that starts before a character at which names and blanks stop has its equals sign there at the
latest. -/
theorem Assigns.before {name s t r : List Char} {c : Char} (hname : ∀ c ∈ name, isWord c = true)
    (h : Assigns name (s ++ c :: t) r) (hc : Stops c) :
    (∃ r', Assigns name s r') ∨ c = '=' ∧ Assigns name (s ++ [c]) [] := by
  generalize hs : s ++ c :: t = u at h
  cases h with | @mk b b' r hne hb hb'
  have hout := hc.not_mem hname hb hb'
  have hs' : s ++ c :: t = ("var".toList ++ (b ++ (name ++ b'))) ++ '=' :: r := by simpa using hs
  obtain ⟨a, hp, ha⟩ | ⟨a, rfl, ha⟩ := List.append_eq_append_iff.1 hs'
  · cases a with
    | nil =>
      obtain ⟨rfl, rfl⟩ := List.cons.inj ha
      rw [List.append_nil] at hp
      refine .inr ⟨rfl, ?_⟩
      rw [← hp]
      simpa using @Assigns.mk name _ _ [] hne hb hb'
    | cons d a =>
      obtain ⟨rfl, -⟩ := List.cons.inj ha
      exact absurd (hp ▸ by simp) hout
  · cases a with
    | nil =>
      obtain ⟨rfl, rfl⟩ := List.cons.inj ha
      refine .inr ⟨rfl, ?_⟩
      simpa using @Assigns.mk name _ _ [] hne hb hb'
    | cons d a =>
      obtain ⟨rfl, -⟩ := List.cons.inj ha
      exact .inl ⟨a, by simpa using @Assigns.mk name _ _ a hne hb hb'⟩

theorem Stops.ne_of_word {c d : Char} (hc : Stops c) (hd : isWord d = true) : c ≠ d := by
  rintro rfl
  simp [hc.1] at hd

/-- The text is passed over when an assignment to the name is looked for. -/
def Skips (name s : List Char) : Prop :=
  ∀ (α : Type) (accept : List Char → Option α) (t : List Char),
    findAssigned name accept false (s ++ t) = findAssigned name accept false t

theorem Skips.append {name s t : List Char} (hs : Skips name s) (ht : Skips name t) : Skips name (s ++ t) := by
  intro α accept r
  rw [List.append_assoc, hs, ht]

/-- Where no assignment to the name starts whose value is accepted, the search goes on behind the next character. -/
theorem findAssigned_cons {α : Type} {accept : List Char → Option α} {name s : List Char} {inWord : Bool}
    {c : Char} (h : inWord = false → ∀ r, Assigns name (c :: s) r → accept (r.dropWhile isBlank) = none) :
    findAssigned name accept inWord (c :: s) = findAssigned name accept (isWord c) s := by
  have hnone : (if inWord then none else (assignedAt name (c :: s)).findSome? accept) = none := by
    split
    · rfl
    next hfalse =>
      rw [List.findSome?_eq_none_iff]
      intro v hv
      obtain ⟨r, hr, rfl⟩ := mem_assignedAt.1 hv
      exact h (by simpa using hfalse) r hr
  rw [findAssigned, hnone]

theorem Skips.char {name : List Char} {c : Char} (hc : isWord c = false) : Skips name [c] := by
  intro α accept t
  rw [List.singleton_append, findAssigned_cons, hc]
  intro _ r h
  obtain ⟨u, hu⟩ := h.head
  obtain ⟨rfl, -⟩ := List.cons.inj hu
  cases hc

/-- A text that does not mention the name is passed over up to a character at which names and blanks stop. -/
theorem skips_of_not_mentions {name s : List Char} {c : Char} (hname : ∀ c ∈ name, isWord c = true) (hc : Stops c)
    (h : ¬ Mentions name false (s ++ [c])) : Skips name (s ++ [c]) := by
  intro α accept t
  rw [List.append_assoc, List.singleton_append]
  suffices ∀ inWord, ¬ Mentions name inWord (s ++ [c]) →
      findAssigned name accept inWord (s ++ c :: t) = findAssigned name accept false t from this false h
  clear h
  induction s with
  | nil =>
    intro inWord _
    rw [List.nil_append, findAssigned_cons, hc.1]
    intro _ r hr
    obtain ⟨u, hu⟩ := hr.head
    exact absurd (List.cons.inj hu).1 (hc.ne_of_word (by decide))
  | cons d s ih =>
    intro inWord h
    rw [List.cons_append, findAssigned_cons]
    · exact ih _ fun hs => h (.later hs)
    · rintro rfl r hr
      exfalso
      obtain ⟨r', hr'⟩ | ⟨rfl, hr'⟩ := Assigns.before hname (s := d :: s) hr hc
      · exact h (.here (hr'.append [c]))
      · exact h (.here hr')

section
variable {α : Type} {accept : List Char → Option α} {name s t : List Char} {inWord : Bool} {a : α} {c : Char}

/-- A text offers a value only if it mentions the name. -/
theorem Offers.mentions (hname : ∀ c ∈ name, isWord c = true) (hc : Stops c) (hne : c ≠ '=')
    (h : Offers accept name (c :: t) inWord s a) : Mentions name inWord s := by
  induction h with
  | @here d s r a h _ =>
    obtain ⟨r', hr'⟩ | ⟨rfl, -⟩ := Assigns.before (s := d :: s) hname h hc
    · exact .here hr'
    · exact absurd rfl hne
  | later _ _ ih => exact .later ih

/-- Where an assignment stands whose value is taken, that value is all that the text offers. -/
theorem offers_iff_of_assigns {r : List Char} {b : α} {d : Char} (hname : ∀ c ∈ name, isWord c = true)
    (hr : Assigns name (d :: (s ++ t)) r) (hb : accept (r.dropWhile isBlank) = some b) :
    Offers accept name t false (d :: s) a ↔ a = b := by
  constructor
  · intro h
    cases h with
    | here hr' ha =>
      rw [← hr.unique hname hr', hb] at ha
      exact (Option.some.inj ha).symm
    | later hnone _ =>
      rw [hnone rfl r hr] at hb
      cases hb
  · rintro rfl
    exact .here hr hb

/-- Where no value is taken, a text offers what its rest offers. -/
theorem offers_cons_iff {d : Char}
    (hnone : inWord = false → ∀ r, Assigns name (d :: (s ++ t)) r → accept (r.dropWhile isBlank) = none) :
    Offers accept name t inWord (d :: s) a ↔ Offers accept name t (isWord d) s a := by
  constructor
  · intro h
    cases h with
    | here hr ha =>
      rw [hnone rfl _ hr] at ha
      cases ha
    | later _ h => exact h
  · exact .later hnone

/-- What is found in a text, up to a character at which names and blanks stop, is what the text offers, and otherwise
what is found behind. -/
theorem findAssigned_append_iff (hname : ∀ c ∈ name, isWord c = true) (hc : isWord c = false) :
    findAssigned name accept inWord (s ++ c :: t) = some a ↔ Offers accept name (c :: t) inWord s a ∨
      (∀ b, ¬ Offers accept name (c :: t) inWord s b) ∧ findAssigned name accept false t = some a := by
  induction s generalizing inWord with
  | nil =>
    have hnone : ∀ b, ¬ Offers accept name (c :: t) inWord [] b := nofun
    have hskip : ∀ inWord, findAssigned name accept inWord (c :: t) = findAssigned name accept false t := by
      intro inWord
      rw [findAssigned_cons, hc]
      intro _ r hr
      obtain ⟨u, hu⟩ := hr.head
      obtain ⟨rfl, -⟩ := List.cons.inj hu
      cases hc
    rw [List.nil_append, hskip, or_iff_right (hnone a), and_iff_right hnone]
  | cons d s ih =>
    rw [List.cons_append]
    by_cases hhere : inWord = false ∧ ∃ r b, Assigns name (d :: (s ++ c :: t)) r ∧ accept (r.dropWhile isBlank) = some b
    · obtain ⟨rfl, r, b, hr, hb⟩ := hhere
      have hoffers : ∀ a, Offers accept name (c :: t) false (d :: s) a ↔ a = b :=
        fun a => offers_iff_of_assigns hname hr hb
      rw [findAssigned_of_assigns hname hr hb, hoffers, Option.some_inj]
      constructor
      · rintro rfl
        exact .inl rfl
      · rintro (rfl | ⟨hnone, -⟩)
        · rfl
        · exact absurd ((hoffers b).2 rfl) (hnone b)
    · have hnone : inWord = false → ∀ r, Assigns name (d :: (s ++ c :: t)) r → accept (r.dropWhile isBlank) = none := by
        intro hfree r hr
        by_contra hsome
        obtain ⟨b, hb⟩ := Option.ne_none_iff_exists'.1 hsome
        exact hhere ⟨hfree, r, b, hr, hb⟩
      have hoffers : ∀ a, Offers accept name (c :: t) inWord (d :: s) a ↔ Offers accept name (c :: t) (isWord d) s a :=
        fun a => offers_cons_iff hnone
      simp only [findAssigned_cons hnone, hoffers, ih]

end

theorem not_mentions_of_findAssigned {name s : List Char} {inWord : Bool}
    (h : findAssigned name some inWord s = none) : ¬ Mentions name inWord s := by
  intro hs
  induction hs with
  | @here s r hr =>
    obtain ⟨t, rfl⟩ := hr.head
    have hmem := mem_assignedAt.2 ⟨r, hr, rfl⟩
    rw [findAssigned, if_neg Bool.false_ne_true] at h
    cases hvs : assignedAt name ('v' :: t) with
    | nil => simp [hvs] at hmem
    | cons v vs => simp [hvs] at h
  | @later inWord c s _ ih =>
    rw [findAssigned] at h
    split at h
    · simp at h
    · exact ih h

/-! ## Assignments of a literal -/

def assignment (name literal : List Char) : List Char :=
  "var ".toList ++ (name ++ (" = ".toList ++ (literal ++ [';'])))

theorem assigns_assignment (name literal t : List Char) :
    Assigns name (assignment name literal ++ t) (' ' :: (literal ++ ';' :: t)) := by
  have hblank : ∀ c ∈ [' '], isBlank c = true := List.all_eq_true.1 (by rfl)
  have h := @Assigns.mk name [' '] [' '] (' ' :: (literal ++ ';' :: t)) (by simp) hblank hblank
  simpa [assignment] using h

section
variable {α : Type} {accept : List Char → Option α} {name other : List Char}
  (hname : ∀ c ∈ name, isWord c = true)
  (hother : findAssigned name some false ("var ".toList ++ (other ++ " =".toList)) = none)
include hname hother

theorem skips_front : Skips name ("var ".toList ++ (other ++ " = ".toList)) := by
  have hfront : Skips name ("var ".toList ++ (other ++ " =".toList)) := by
    have := skips_of_not_mentions (s := "var ".toList ++ (other ++ [' '])) (c := '=') hname ⟨by rfl, by rfl⟩
      (not_mentions_of_findAssigned (by simpa using hother))
    simpa using this
  have hspace : Skips name [' '] := .char (by rfl)
  simpa using hfront.append hspace

/-- An assignment to another name is passed over, unless its literal offers a value. -/
theorem findAssigned_assignment_iff (literal t : List Char) (a : α) :
    findAssigned name accept false (assignment other literal ++ ' ' :: t) = some a ↔
      Offers accept name (';' :: ' ' :: t) false literal a ∨
        (∀ b, ¬ Offers accept name (';' :: ' ' :: t) false literal b) ∧ findAssigned name accept false t = some a := by
  have hspace : findAssigned name accept false (' ' :: t) = findAssigned name accept false t :=
    Skips.char (by rfl) α accept t
  have htext : assignment other literal ++ ' ' :: t =
      ("var ".toList ++ (other ++ " = ".toList)) ++ (literal ++ ';' :: ' ' :: t) := by simp [assignment]
  rw [htext, skips_front hname hother, findAssigned_append_iff hname (by rfl), hspace]

/-- The same for a list, where what its brackets hold is what counts. -/
theorem findAssigned_list_iff (literal t : List Char) (a : α) :
    findAssigned name accept false (assignment other ('[' :: (literal ++ [']'])) ++ ' ' :: t) = some a ↔
      Offers accept name (']' :: ';' :: ' ' :: t) false literal a ∨
        (∀ b, ¬ Offers accept name (']' :: ';' :: ' ' :: t) false literal b) ∧
          findAssigned name accept false t = some a := by
  have hbracket : Skips name ['['] := .char (by rfl)
  have hbehind : Skips name [';', ' '] := (Skips.char (c := ';') (by rfl)).append (.char (by rfl))
  have htext : assignment other ('[' :: (literal ++ [']'])) ++ ' ' :: t =
      ("var ".toList ++ (other ++ " = ".toList) ++ ['[']) ++ (literal ++ ']' :: ([';', ' '] ++ t)) := by
    simp [assignment]
  rw [htext, (skips_front hname hother).append hbracket, findAssigned_append_iff hname (by rfl), hbehind]
  rfl

end

/-! ## Several texts in a row -/

section
variable {α : Type} {accept : List Char → Option α} {name s behind : List Char} {texts : List (List Char × List Char)}
  {a : α}

theorem taken_cons_iff : Taken accept name ((s, behind) :: texts) a ↔ Offers accept name behind false s a ∨
    (∀ b, ¬ Offers accept name behind false s b) ∧ Taken accept name texts a := by
  constructor
  · rintro (h | ⟨hnone, h⟩)
    · exact .inl h
    · exact .inr ⟨hnone, h⟩
  · rintro (h | ⟨hnone, h⟩)
    · exact .here h
    · exact .later hnone h

/-- What a search finds in texts in a row: what is taken from them, or else what is found behind them. -/
def FindsIn (accept : List Char → Option α) (name : List Char) (texts : List (List Char × List Char))
    (found behind : Option α) : Prop :=
  ∀ a, found = some a ↔ Taken accept name texts a ∨ (∀ b, ¬ Taken accept name texts b) ∧ behind = some a

theorem findsIn_nil (found : Option α) : FindsIn accept name [] found found := by
  have hnone : ∀ b, ¬ Taken accept name [] b := nofun
  intro a
  rw [or_iff_right (hnone a), and_iff_right hnone]

theorem FindsIn.cons {found next last : Option α} (hnext : FindsIn accept name texts next last)
    (h : ∀ a, found = some a ↔ Offers accept name behind false s a ∨
      (∀ b, ¬ Offers accept name behind false s b) ∧ next = some a) :
    FindsIn accept name ((s, behind) :: texts) found last := by
  intro a
  rw [h, hnext]
  simp only [taken_cons_iff]
  by_cases hsome : ∃ b, Offers accept name behind false s b
  · obtain ⟨b, hb⟩ := hsome
    have hnot : ¬ ∀ b, ¬ Offers accept name behind false s b := fun hnone => hnone b hb
    simp only [hnot, false_and, or_false]
  · have hnone : ∀ b, ¬ Offers accept name behind false s b := not_exists.1 hsome
    simp [hnone]

section
variable {other : List Char} {last : Option α} (hname : ∀ c ∈ name, isWord c = true)
  (hother : findAssigned name some false ("var ".toList ++ (other ++ " =".toList)) = none)
include hname hother

theorem FindsIn.behind_assignment (literal t : List Char)
    (h : FindsIn accept name texts (findAssigned name accept false t) last) :
    FindsIn accept name ((literal, ';' :: ' ' :: t) :: texts)
      (findAssigned name accept false (assignment other literal ++ ' ' :: t)) last :=
  h.cons (findAssigned_assignment_iff hname hother literal t)

theorem FindsIn.behind_list (literal t : List Char)
    (h : FindsIn accept name texts (findAssigned name accept false t) last) :
    FindsIn accept name ((literal, ']' :: ';' :: ' ' :: t) :: texts)
      (findAssigned name accept false (assignment other ('[' :: (literal ++ [']'])) ++ ' ' :: t)) last :=
  h.cons (findAssigned_list_iff hname hother literal t)

end

/-- Where the value behind the texts has a property, what is found has it exactly if all that is taken from them has. -/
theorem FindsIn.holds_iff {P : α → Prop} {found : Option α} (h : FindsIn accept name texts found (some a)) (ha : P a) :
    (∃ b, found = some b ∧ P b) ↔ ∀ b, Taken accept name texts b → P b := by
  constructor
  · rintro ⟨c, hc, hp⟩ b hb
    have hfound := (h b).2 (.inl hb)
    rw [hc] at hfound
    cases hfound
    exact hp
  · intro hall
    by_cases hsome : ∃ b, Taken accept name texts b
    · obtain ⟨b, hb⟩ := hsome
      exact ⟨b, (h b).2 (.inl hb), hall b hb⟩
    · exact ⟨a, (h a).2 (.inr ⟨not_exists.1 hsome, rfl⟩), ha⟩

theorem FindsIn.eq_iff {found : Option α} (h : FindsIn accept name texts found (some a)) :
    found = some a ↔ ∀ b, Taken accept name texts b → b = a := by
  have hiff := h.holds_iff (P := (· = a)) rfl
  simpa using hiff

/-- Nothing is taken from texts that do not mention the name. -/
theorem not_taken_of_silent (hname : ∀ c ∈ name, isWord c = true)
    (h : ∀ text ∈ texts, ¬ Mentions name false text.1 ∧ ∃ c t, text.2 = c :: t ∧ Stops c ∧ c ≠ '=') :
    ¬ Taken accept name texts a := by
  intro htaken
  induction htaken with
  | here hoffers =>
    obtain ⟨hsilent, c, t, rfl, hc, hne⟩ := h _ List.mem_cons_self
    exact hsilent (hoffers.mentions hname hc hne)
  | later _ _ ih => exact ih fun text htext => h text (List.mem_cons_of_mem _ htext)

end

end Script
end DocNav
