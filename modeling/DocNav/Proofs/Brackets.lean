import DocNav.Proofs.JsonWriting
import DocNav.Proofs.Literals
/-!
# The brackets of a literal

The scan that cuts a bracketed literal out of a text goes through it once, with a count of the open brackets. Here that
count is compared with one which knows nothing of a scan: `Script.brackets` drops each quotation as a whole and keeps the
brackets of the rest, and `Script.depth` is how many of these open less how many close. Before each character that the
scan reads the two counts agree and are positive (`Unclosed.depth_after`), so the count never falls below zero, and the
literal ends where the depth is first zero again (`balanced_eq_some_iff`).

Main result: `balanced_cuts_one_literal`.
-/

namespace DocNav.Script

/-! ## Brackets outside quotations -/

/-- What follows the mark that closes a quotation, nothing if none does. A backslash keeps the character behind it from
closing. -/
def behindQuotation (mark : Char) : List Char → List Char
  | [] => []
  | '\\' :: _ :: rest => behindQuotation mark rest
  | c :: rest => if c = mark then rest else behindQuotation mark rest

theorem length_behindQuotation (mark : Char) (s : List Char) : (behindQuotation mark s).length ≤ s.length := by
  fun_induction behindQuotation mark s with
  | case1 => apply Nat.le_refl
  | case2 _ rest ih =>
    simp only [List.length_cons]
    omega
  | case3 rest => simp
  | case4 c rest _ _ ih =>
    simp only [List.length_cons]
    omega

/-- The brackets of a text that stand outside quotations, in order. -/
def brackets : List Char → List Char
  | [] => []
  | c :: rest =>
    if c = '"' ∨ c = '\x27' then brackets (behindQuotation c rest)
    else if c ∈ ['[', '\x7b', ']', '\x7d'] then c :: brackets rest
    else brackets rest
termination_by s => s.length
decreasing_by
  · have := length_behindQuotation c rest
    simp only [List.length_cons]
    omega
  · simp
  · simp

/-- How many brackets the text opens outside quotations, less how many it closes there. -/
def depth (s : List Char) : Int :=
  (brackets s).countP (· ∈ ['[', '\x7b']) - (brackets s).countP (· ∈ [']', '\x7d'])

/-- The text starts with an opening bracket. -/
def Opens (s : List Char) : Prop := ∃ first rest, s = first :: rest ∧ (first = '[' ∨ first = '\x7b')

/-! ## The scan, character by character -/

/-- The state of a scan that has read a text. -/
def ScanState.after (s : ScanState) (t : List Char) : ScanState := t.foldl ScanState.next s

theorem after_concat (s : ScanState) (t : List Char) (c : Char) : s.after (t ++ [c]) = (s.after t).next c := by
  unfold ScanState.after
  rw [List.foldl_concat]

/-- What a character adds to the depth, by where it stands. -/
def change (q : Quoting) (c : Char) : Int :=
  if q ≠ .outside then 0
  else if c = '[' ∨ c = '\x7b' then 1
  else if c = ']' ∨ c = '\x7d' then -1
  else 0

/-- While a bracket is open, no character takes the count below zero. -/
theorem depth_next {s : ScanState} (h : 0 < s.depth) (c : Char) :
    ((s.next c).depth : Int) = s.depth + change s.quoting c := by
  obtain ⟨depth, quoting⟩ := s
  cases quoting with
  | escaped mark => simp [ScanState.next, change]
  | inside mark =>
    simp only [ScanState.next, change, ne_eq, reduceCtorEq, not_false_eq_true, if_true, add_zero]
    split
    · rfl
    · split <;> rfl
  | outside =>
    simp only at h
    simp only [ScanState.next, change, ne_eq, not_true_eq_false, if_false]
    by_cases hquote : c = '"' ∨ c = '\x27'
    · rcases hquote with rfl | rfl <;> simp
    · rw [if_neg hquote]
      split
      · simp
      · split
        · simp only
          omega
        · simp

theorem behindQuotation_singleton (mark c : Char) : behindQuotation mark [c] = [] := by
  unfold behindQuotation
  split <;> simp_all [behindQuotation]

/-- A quotation is closed within the text, or whatever comes next is still in it. -/
theorem quotation_cases {mark : Char} (hmark : mark ≠ '\\') (t : List Char) :
    (∃ v, (∀ r, behindQuotation mark (t ++ r) = v ++ r) ∧
      ∀ d, ScanState.after ⟨d, .inside mark⟩ t = ScanState.after ⟨d, .outside⟩ v) ∨
    (∀ c, behindQuotation mark (t ++ [c]) = []) ∧ behindQuotation mark t = [] ∧
      ∀ d, (ScanState.after ⟨d, .inside mark⟩ t).quoting ≠ .outside := by
  fun_induction behindQuotation mark t with
  | case1 =>
    right
    refine ⟨behindQuotation_singleton mark, rfl, fun d => ?_⟩
    simp [ScanState.after]
  | case2 c rest ih =>
    have hafter (d : Nat) : ScanState.after ⟨d, .inside mark⟩ ('\\' :: c :: rest) =
        ScanState.after ⟨d, .inside mark⟩ rest := by simp [ScanState.after, ScanState.next]
    simpa [hafter, behindQuotation] using ih
  | case3 rest =>
    left
    refine ⟨rest, fun r => ?_, fun d => ?_⟩
    · rw [List.cons_append, behindQuotation]
      · simp
      · exact fun _ _ h _ => hmark h
    · simp [ScanState.after, ScanState.next, hmark]
  | case4 c rest hescape hne ih =>
    by_cases hslash : c = '\\'
    · -- The text ends in the backslash.
      subst hslash
      cases rest with
      | nil =>
        right
        refine ⟨fun c => rfl, rfl, fun d => ?_⟩
        simp [ScanState.after, ScanState.next]
      | cons c rest => exact absurd rfl (hescape c rest rfl)
    · have hbehind (r : List Char) : behindQuotation mark (c :: (rest ++ r)) = behindQuotation mark (rest ++ r) := by
        rw [behindQuotation, if_neg hne]
        exact fun _ _ h _ => hslash h
      have hafter (d : Nat) : ScanState.after ⟨d, .inside mark⟩ (c :: rest) =
          ScanState.after ⟨d, .inside mark⟩ rest := by simp [ScanState.after, ScanState.next, hslash, hne]
      simpa [hbehind, hafter] using ih

/-- A character behind a text adds itself to the brackets if the scan of the text ends outside quotations. -/
theorem brackets_concat (s : List Char) (c : Char) (d : Nat) :
    brackets (s ++ [c]) = brackets s ++
      if (ScanState.after ⟨d, .outside⟩ s).quoting = .outside ∧ c ∈ ['[', '\x7b', ']', '\x7d'] then [c] else [] := by
  fun_induction brackets s generalizing d with
  | case1 =>
    have hstart : (ScanState.after ⟨d, .outside⟩ []).quoting = .outside := rfl
    rw [List.nil_append, List.nil_append, brackets, hstart]
    by_cases hquote : c = '"' ∨ c = '\x27'
    · rw [if_pos hquote, behindQuotation, brackets]
      rcases hquote with rfl | rfl <;> simp
    · simp [hquote, brackets]
  | case2 mark rest hquote ih =>
    have hmark : mark ≠ '\\' := by
      rintro rfl
      simp at hquote
    have hscan : ScanState.after ⟨d, .outside⟩ (mark :: rest) = ScanState.after ⟨d, .inside mark⟩ rest := by
      simp [ScanState.after, ScanState.next, hquote]
    rw [List.cons_append, brackets, if_pos hquote, hscan]
    rcases quotation_cases hmark rest with ⟨v, hbehind, hafter⟩ | ⟨hnext, hnone, hinside⟩
    · have hv : behindQuotation mark rest = v := by simpa using hbehind []
      rw [hbehind, hafter, hv]
      rw [hv] at ih
      exact ih d
    · rw [hnext, hnone, if_neg fun h => hinside d h.1, List.append_nil]
  | case3 b rest hquote hbracket ih =>
    obtain ⟨d', hscan⟩ :
        ∃ d', ScanState.after ⟨d, .outside⟩ (b :: rest) = ScanState.after ⟨d', .outside⟩ rest := by
      simp only [ScanState.after, List.foldl_cons, ScanState.next, if_neg hquote]
      split
      · exact ⟨d + 1, rfl⟩
      · split
        · exact ⟨d - 1, rfl⟩
        · exact ⟨d, rfl⟩
    rw [List.cons_append, brackets, if_neg hquote, if_pos hbracket, ih d', hscan, List.cons_append]
  | case4 b rest hquote hplain ih =>
    have hscan : ScanState.after ⟨d, .outside⟩ (b :: rest) = ScanState.after ⟨d, .outside⟩ rest := by
      simp only [List.mem_cons, List.not_mem_nil, or_false, not_or] at hplain
      simp [ScanState.after, ScanState.next, hquote, hplain]
    rw [List.cons_append, brackets, if_neg hquote, if_neg hplain, ih d, hscan]

theorem depth_concat (s : List Char) (c : Char) (d : Nat) :
    depth (s ++ [c]) = depth s + change (ScanState.after ⟨d, .outside⟩ s).quoting c := by
  unfold depth change
  rw [brackets_concat s c d]
  by_cases hout : (ScanState.after ⟨d, .outside⟩ s).quoting = .outside
  · by_cases hopen : c = '[' ∨ c = '\x7b'
    · rcases hopen with rfl | rfl <;> simp [hout] <;> omega
    · by_cases hclose : c = ']' ∨ c = '\x7d'
      · rcases hclose with rfl | rfl <;> simp [hout] <;> omega
      · rw [not_or] at hopen hclose
        simp [hout, hopen, hclose]
  · simp [hout]

/-! ## Where the scan ends -/

/-- The text opens a bracket, and no part of it from the start closes all that it has opened. -/
structure Unclosed (q : List Char) : Prop where
  opens : Opens q
  stays : ∀ u v, u ≠ [] → q = u ++ v → depth u ≠ 0

/-- The text is one bracketed literal: it closes all brackets that it opens, and no shorter part of it from the start
does. -/
structure OneLiteral (p : List Char) : Prop where
  opens : Opens p
  closes : depth p = 0
  shortest : ∀ u v, u ≠ [] → v ≠ [] → p = u ++ v → depth u ≠ 0

theorem Opens.append {q : List Char} (h : Opens q) (r : List Char) : Opens (q ++ r) := by
  obtain ⟨first, rest, rfl, hfirst⟩ := h
  exact ⟨first, rest ++ r, rfl, hfirst⟩

theorem Opens.of_append {q r : List Char} (h : Opens (q ++ r)) (hq : q ≠ []) : Opens q := by
  obtain ⟨first, rest, heq, hfirst⟩ := h
  obtain ⟨c, q, rfl⟩ := List.exists_cons_of_ne_nil hq
  obtain ⟨rfl, -⟩ := List.cons.inj heq
  exact ⟨c, q, rfl, hfirst⟩

theorem Opens.ne_nil {s : List Char} (h : Opens s) : s ≠ [] := by
  obtain ⟨first, rest, rfl, -⟩ := h
  simp

/-- A part of `q ++ [c]` from the start is all of it, or a part of `q`. -/
theorem concat_eq_append {q u v : List Char} {c : Char} (h : q ++ [c] = u ++ v) :
    u = q ++ [c] ∧ v = [] ∨ ∃ w, q = u ++ w := by
  rcases List.eq_nil_or_concat' v with rfl | ⟨w, d, rfl⟩
  · left
    simpa using h.symm
  · right
    rw [← List.append_assoc] at h
    exact ⟨w, (List.append_inj' h rfl).1⟩

theorem Unclosed.of_append {q r : List Char} (h : Unclosed (q ++ r)) (hq : q ≠ []) : Unclosed q where
  opens := h.opens.of_append hq
  stays u v hu huv := h.stays u (v ++ r) hu (by rw [huv, List.append_assoc])

theorem unclosed_singleton {first : Char} (hfirst : first = '[' ∨ first = '\x7b') : Unclosed [first] where
  opens := ⟨first, [], rfl, hfirst⟩
  stays u v hu huv := by
    obtain ⟨rfl, -⟩ | ⟨rfl, -⟩ := List.singleton_eq_append_iff.1 huv
    · exact absurd rfl hu
    · rcases hfirst with rfl | rfl <;> simp [depth, brackets]

theorem Unclosed.concat {q : List Char} {c : Char} (h : Unclosed q) (hc : depth (q ++ [c]) ≠ 0) :
    Unclosed (q ++ [c]) where
  opens := h.opens.append [c]
  stays u v hu huv := by
    rcases concat_eq_append huv with ⟨rfl, -⟩ | ⟨w, hw⟩
    · exact hc
    · exact h.stays u w hu hw

theorem Unclosed.literal {q : List Char} {c : Char} (h : Unclosed q) (hc : depth (q ++ [c]) = 0) :
    OneLiteral (q ++ [c]) where
  opens := h.opens.append [c]
  closes := hc
  shortest u v hu hv huv := by
    rcases concat_eq_append huv with ⟨-, rfl⟩ | ⟨w, hw⟩
    · exact absurd rfl hv
    · exact h.stays u w hu hw

/-- What comes before the end of a literal is unclosed. -/
theorem OneLiteral.unclosed {q v : List Char} (h : OneLiteral (q ++ v)) (hq : q ≠ []) (hv : v ≠ []) : Unclosed q where
  opens := h.opens.of_append hq
  stays u w hu huw := h.shortest u (w ++ v) hu (by simp [hv]) (by rw [huw, List.append_assoc])

/-- A literal is an unclosed text and one more character. -/
theorem OneLiteral.cut {p : List Char} (h : OneLiteral p) : ∃ q c, p = q ++ [c] ∧ Unclosed q := by
  obtain ⟨first, rest, rfl, hfirst⟩ := h.opens
  rcases List.eq_nil_or_concat' rest with rfl | ⟨rest, c, rfl⟩
  · exact absurd h.closes ((unclosed_singleton hfirst).stays [first] [] (by simp) (by simp))
  · exact ⟨first :: rest, c, rfl, OneLiteral.unclosed (v := [c]) h (by simp) (by simp)⟩

/-- A text that opens a bracket is unclosed, or it starts with a literal. -/
theorem Opens.cases {s : List Char} (h : Opens s) : Unclosed s ∨ ∃ p r, s = p ++ r ∧ OneLiteral p := by
  obtain ⟨first, rest, rfl, hfirst⟩ := h
  induction rest using List.reverseRecOn with
  | nil =>
    left
    exact unclosed_singleton hfirst
  | append_singleton rest c ih =>
    rw [← List.cons_append]
    rcases ih with hunclosed | ⟨p, r, heq, hp⟩
    · by_cases hc : depth (first :: rest ++ [c]) = 0
      · right
        exact ⟨first :: rest ++ [c], [], by simp, hunclosed.literal hc⟩
      · left
        exact hunclosed.concat hc
    · right
      exact ⟨p, r ++ [c], by rw [heq, List.append_assoc], hp⟩

/-- Where the scan is inside a literal, its count is the depth, and at least one bracket is open. -/
theorem Unclosed.depth_after {q : List Char} (h : Unclosed q) :
    ((ScanState.after {} q).depth : Int) = depth q ∧ 0 < depth q := by
  obtain ⟨first, rest, rfl, hfirst⟩ := h.opens
  induction rest using List.reverseRecOn with
  | nil => rcases hfirst with rfl | rfl <;> simp [ScanState.after, ScanState.next, depth, brackets]
  | append_singleton rest c ih =>
    rw [← List.cons_append] at h ⊢
    obtain ⟨hcount, hpos⟩ := ih (h.of_append (by simp))
    have hne : depth (first :: rest ++ [c]) ≠ 0 := h.stays _ [] (by simp) (by simp)
    have hnext := depth_next (s := ScanState.after {} (first :: rest)) (by omega) c
    have hconcat := depth_concat (first :: rest) c 0
    rw [after_concat]
    omega

/-- The scan ends with the character that closes all. -/
theorem Unclosed.ends_iff {q : List Char} (h : Unclosed q) (c : Char) :
    (ScanState.after {} q).quoting = .outside ∧ (ScanState.after {} q).depth = 1 ∧ (c = ']' ∨ c = '\x7d') ↔
      depth (q ++ [c]) = 0 := by
  obtain ⟨hcount, hpos⟩ := h.depth_after
  rw [depth_concat q c 0, change]
  constructor
  · rintro ⟨hout, hone, hclose⟩
    rcases hclose with rfl | rfl <;> simp [hout] <;> omega
  · intro hzero
    split at hzero
    · omega
    · rename_i hout
      refine ⟨not_not.1 hout, ?_⟩
      split at hzero
      · omega
      · split at hzero
        · rename_i hclose
          exact ⟨by omega, hclose⟩
        · omega

/-- Behind an unclosed text the scan goes on in the state that it has reached. -/
theorem balanced_append {q : List Char} (h : Unclosed q) (t : List Char) :
    balanced (q ++ t) = (closeFrom (ScanState.after {} q) t).map (q ++ ·) := by
  obtain ⟨first, rest, rfl, hfirst⟩ := h.opens
  induction rest using List.reverseRecOn generalizing t with
  | nil =>
    have hstate : ScanState.after {} [first] = { depth := 1 } := by
      rcases hfirst with rfl | rfl <;> rfl
    rw [hstate, List.singleton_append, balanced, if_pos hfirst]
    rfl
  | append_singleton rest c ih =>
    rw [← List.cons_append] at h ⊢
    have hbefore : Unclosed (first :: rest) := h.of_append (by simp)
    have hne : depth (first :: rest ++ [c]) ≠ 0 := h.stays _ [] (by simp) (by simp)
    have hgoes := mt (hbefore.ends_iff c).1 hne
    rw [List.append_assoc, ih _ hbefore, List.singleton_append, closeFrom, if_neg hgoes, after_concat, Option.map_map]
    congr 1
    funext p
    simp

theorem balanced_of_not_opens {s : List Char} (h : ¬ Opens s) : balanced s = none := by
  cases s with
  | nil => rfl
  | cons c rest =>
    rw [balanced, if_neg]
    intro hc
    exact h ⟨c, rest, rfl, hc⟩

theorem balanced_of_unclosed {s : List Char} (h : Unclosed s) : balanced s = none := by
  have hend := balanced_append h []
  rwa [List.append_nil] at hend

theorem balanced_of_literal {p : List Char} (h : OneLiteral p) (r : List Char) : balanced (p ++ r) = some p := by
  obtain ⟨q, c, rfl, hq⟩ := h.cut
  have hends := (hq.ends_iff c).2 h.closes
  rw [List.append_assoc, balanced_append hq, List.singleton_append, closeFrom, if_pos hends]
  rfl

/-- The scan gives the literal that the text starts with, and nothing if it starts with none. -/
theorem balanced_eq_some_iff {s p : List Char} : balanced s = some p ↔ (∃ r, s = p ++ r) ∧ OneLiteral p := by
  constructor
  · intro h
    by_cases hopens : Opens s
    · rcases hopens.cases with hunclosed | ⟨p', r, rfl, hp'⟩
      · rw [balanced_of_unclosed hunclosed] at h
        cases h
      · rw [balanced_of_literal hp'] at h
        cases h
        exact ⟨⟨r, rfl⟩, hp'⟩
    · rw [balanced_of_not_opens hopens] at h
      cases h
  · rintro ⟨⟨r, rfl⟩, hp⟩
    exact balanced_of_literal hp r

/-- A literal ends behind a character of one byte. -/
theorem OneLiteral.bytes {p : List Char} (h : OneLiteral p) :
    ∃ q c, p = q ++ [c] ∧ (String.ofList p).utf8ByteSize = (String.ofList q).utf8ByteSize + 1 := by
  obtain ⟨q, c, rfl, hq⟩ := h.cut
  refine ⟨q, c, rfl, ?_⟩
  obtain ⟨-, -, hclose⟩ := (hq.ends_iff c).2 h.closes
  rw [String.ofList_append, String.utf8ByteSize_append]
  rcases hclose with rfl | rfl <;> rfl

/-- The scan for the end of a bracketed literal cuts exactly one literal. The text of a JSON array or object is cut out of
any text that it starts. For every text, before each character that the scan reads its count of the open brackets is the
depth of what it has read and is positive, so it never falls below zero. Something is cut exactly where the text starts
with an opening bracket and a part of it from the start closes all brackets that it opens outside quotations; then it is
the shortest such part, and it ends behind a character of one byte. -/
theorem balanced_cuts_one_literal :
    (∀ (j : Json) (s r : List Char), Json.ValueText j s → ((∃ js, j = .array js) ∨ ∃ fs, j = .object fs) →
      balanced (s ++ r) = some s) ∧
    (∀ (q : List Char) (c : Char) (r : List Char), Opens q →
      (∀ p, balanced (q ++ c :: r) = some p → q.length < p.length) →
        balanced (q ++ c :: r) = (closeFrom (ScanState.after {} q) (c :: r)).map (q ++ ·) ∧
          ((ScanState.after {} q).depth : Int) = depth q ∧ 0 < depth q) ∧
    (∀ s : List Char, (balanced s).isSome = true ↔ Opens s ∧ ∃ p r, p ≠ [] ∧ s = p ++ r ∧ depth p = 0) ∧
    ∀ s p : List Char, balanced s = some p →
      (∃ r, s = p ++ r) ∧ depth p = 0 ∧ (∀ u v, u ≠ [] → v ≠ [] → p = u ++ v → depth u ≠ 0) ∧
        ∃ q c, p = q ++ [c] ∧ (String.ofList p).utf8ByteSize = (String.ofList q).utf8ByteSize + 1 := by
  refine ⟨fun j s r hs hj => balanced_of_text hs hj r, ?_, ?_, ?_⟩
  · intro q c r hopens hread
    have hunclosed : Unclosed q := by
      rcases (hopens.append (c :: r)).cases with hall | ⟨p, r', heq, hp⟩
      · exact hall.of_append hopens.ne_nil
      · have hlength := hread p (balanced_eq_some_iff.2 ⟨⟨r', heq⟩, hp⟩)
        rcases List.append_eq_append_iff.1 heq with ⟨v, rfl, -⟩ | ⟨v, rfl, -⟩
        · exact hp.unclosed hopens.ne_nil (by rintro rfl; simp at hlength)
        · simp at hlength
    exact ⟨balanced_append hunclosed (c :: r), hunclosed.depth_after⟩
  · intro s
    constructor
    · intro hsome
      obtain ⟨p, hp⟩ := Option.isSome_iff_exists.1 hsome
      obtain ⟨⟨r, rfl⟩, hliteral⟩ := balanced_eq_some_iff.1 hp
      exact ⟨hliteral.opens.append r, p, r, hliteral.opens.ne_nil, rfl, hliteral.closes⟩
    · rintro ⟨hopens, p, r, hne, rfl, hzero⟩
      rcases hopens.cases with hunclosed | ⟨p', r', heq, hp'⟩
      · exact absurd hzero (hunclosed.stays p r hne rfl)
      · rw [balanced_eq_some_iff.2 ⟨⟨r', heq⟩, hp'⟩]
        rfl
  · intro s p h
    obtain ⟨hfront, hp⟩ := balanced_eq_some_iff.1 h
    exact ⟨hfront, hp.closes, hp.shortest, hp.bytes⟩

/-- Brackets and both marks stand in the strings, and there are brackets behind the literal. The scan has read a bracket
in a string. -/
theorem cut_beside_brackets_in_strings :
    let s := Json.bracketed [Json.quoted "a]'", Json.quoted "\\\"\x7d"]
    let q := "[\"a]".toList
    balanced (s ++ " ]]".toList) = some s ∧ Opens q ∧ (ScanState.after {} q).depth = 1 ∧ 0 < depth q := by
  intro s q
  obtain ⟨htext, hcount, -, -⟩ := balanced_cuts_one_literal
  have hs : Json.ValueText (.array [.string (some "a]'"), .string (some "\\\"\x7d")]) s :=
    Json.valueText_array (.cons (.string (Json.quoted_text _)) (.cons (.string (Json.quoted_text _)) .nil))
  have hcut := htext _ s " ]]".toList hs (.inl ⟨_, rfl⟩)
  have hopens : Opens q := ⟨'[', "\"a]".toList, by decide, .inl rfl⟩
  have hsplit : s ++ " ]]".toList = q ++ '\'' :: "\",\"\\\\\\\"\x7d\"] ]]".toList := by decide +kernel
  rw [hsplit] at hcut
  have hread := (hcount q '\'' _ hopens fun p hp => by
    rw [hcut] at hp
    cases hp
    decide +kernel).2
  rw [hsplit]
  exact ⟨hcut, hopens, by decide +kernel, hread.2⟩

end DocNav.Script
