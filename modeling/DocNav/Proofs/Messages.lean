import DocNav.Proofs.Assignments
import DocNav.Proofs.Literals
/-!
# The messages of a script

A message is read up to the mark that closes it. Which mark that is, and which characters a backslash stands for, is
decided by the same rule: in a run of backslashes each second one is itself a character of the message. So the text
before the closing mark ends in an even number of them (`Escapes.not_escaping`), and where each mark stands behind an odd
number no message is read (`readQuoted_of_neverCloses`).

Main result: `messages_decode_exactly`.
-/

namespace DocNav.Script

open CharClass (isBlank isWord)

/-! ## Runs of backslashes -/

/-- What comes next is escaped: an odd number of backslashes stands there, and no further one before them. -/
def Escaping (s : List Char) : Prop :=
  ∃ front k, s = front ++ List.replicate (2 * k + 1) '\\' ∧ front.getLast? ≠ some '\\'

/-- Behind its opening mark a message is never closed: each mark of the kind is escaped. -/
def NeverCloses (mark : Char) (s : List Char) : Prop := ∀ u v, s = u ++ mark :: v → Escaping u

theorem getLast?_ne_of_cons {c d : Char} {front : List Char} (h : (d :: front).getLast? ≠ some c) :
    front.getLast? ≠ some c := by
  cases front with
  | nil => simp
  | cons e front => rwa [List.getLast?_cons_cons] at h

/-- What is read of a message takes its backslashes in pairs. -/
theorem Escapes.not_escaping {mark : Char} {m s : List Char} (h : Escapes mark m s) : ¬ Escaping s := by
  induction h with
  | nil =>
    rintro ⟨front, k, hs, -⟩
    simp at hs
  | @plain c m s _ hslash _ ih =>
    rintro ⟨front, k, hs, hlast⟩
    cases front with
    | nil =>
      rw [List.nil_append, List.replicate_succ] at hs
      exact hslash (List.cons.inj hs).1
    | cons d front => exact ih ⟨front, k, (List.cons.inj hs).2, getLast?_ne_of_cons hlast⟩
  | @escaped c m s _ _ ih =>
    rintro ⟨front, k, hs, hlast⟩
    match front with
    | [] =>
      cases k with
      | zero => simp at hs
      | succ k =>
        -- The first two of the run go, and an odd number is left.
        rw [List.nil_append, show 2 * (k + 1) + 1 = 2 * k + 1 + 1 + 1 by omega, List.replicate_succ,
          List.replicate_succ] at hs
        exact ih ⟨[], k, (List.cons.inj (List.cons.inj hs).2).2, by simp⟩
    | [d] =>
      obtain ⟨rfl, -⟩ := List.cons.inj hs
      exact hlast rfl
    | d :: e :: front =>
      exact ih ⟨front, k, (List.cons.inj (List.cons.inj hs).2).2, getLast?_ne_of_cons (getLast?_ne_of_cons hlast)⟩

theorem escapes_of_readQuoted {mark : Char} {m s : List Char} (h : readQuoted mark s = some m) :
    ∃ t r, s = t ++ mark :: r ∧ Escapes mark m t := by
  fun_induction readQuoted mark s generalizing m with
  | case1 => cases h
  | case2 => cases h
  | case3 c rest hc ih =>
    obtain ⟨m', hm', rfl⟩ := Option.map_eq_some_iff.1 h
    obtain ⟨t, r, rfl, ht⟩ := ih hm'
    exact ⟨'\\' :: c :: t, r, rfl, .escaped hc ht⟩
  | case4 rest =>
    cases h
    exact ⟨[], rest, rfl, .nil⟩
  | case5 => cases h
  | case6 c rest _ hmark hslash ih =>
    obtain ⟨m', hm', rfl⟩ := Option.map_eq_some_iff.1 h
    obtain ⟨t, r, rfl, ht⟩ := ih hm'
    exact ⟨c :: t, r, rfl, .plain hmark hslash ht⟩

/-- A message that is never closed is not read. -/
theorem readQuoted_of_neverCloses {mark : Char} {s : List Char} (h : NeverCloses mark s) : readQuoted mark s = none := by
  cases hread : readQuoted mark s with
  | none => rfl
  | some m =>
    obtain ⟨t, r, rfl, ht⟩ := escapes_of_readQuoted hread
    exact absurd (h t r rfl) ht.not_escaping

/-! ## The assignment that is found -/

/-- Whether `var` may stand behind the text: it does not continue a word. The flag stands for what precedes the text. -/
def Free (inWord : Bool) (s : List Char) : Prop := (s.getLast?.map isWord).getD inWord = false

/-- The script `before ++ rest` assigns to the name behind `before` and nowhere else. -/
def AssignsOnce (name before rest : List Char) : Prop :=
  ∀ u v r, before ++ rest = u ++ v → Free false u → Assigns name v r → u = before

theorem free_cons {inWord : Bool} {c : Char} {s : List Char} : Free inWord (c :: s) ↔ Free (isWord c) s := by
  unfold Free
  rw [List.getLast?_cons]
  cases s.getLast? <;> simp

/-- Nothing is found where no value that is assigned to the name is accepted. -/
theorem findAssigned_eq_none {α : Type} {accept : List Char → Option α} {name s : List Char} {inWord : Bool}
    (h : ∀ u v r, s = u ++ v → Free inWord u → Assigns name v r → accept (r.dropWhile isBlank) = none) :
    findAssigned name accept inWord s = none := by
  induction s generalizing inWord with
  | nil => rfl
  | cons c s ih =>
    have hhere : (if inWord then none else (assignedAt name (c :: s)).findSome? accept) = none := by
      cases inWord with
      | true => rfl
      | false =>
        rw [if_neg Bool.false_ne_true, List.findSome?_eq_none_iff]
        intro v hv
        obtain ⟨r, hr, rfl⟩ := mem_assignedAt.1 hv
        exact h [] (c :: s) r rfl rfl hr
    rw [findAssigned, hhere]
    apply ih
    intro u v r hs hfree hr
    exact h (c :: u) v r (by rw [hs, List.cons_append]) (free_cons.2 hfree) hr

theorem Assigns.var_prefix {name s r : List Char} (h : Assigns name s r) : "var".toList <+: s := by
  cases h
  exact List.prefix_append _ _

/-- What ends with a line feed and nowhere contains `var` is passed over. -/
theorem skips_lines {name t : List Char} (h : ¬ "var".toList <:+: t ++ ['\n']) : Skips name (t ++ ['\n']) := by
  intro α accept a
  rw [List.append_assoc, List.singleton_append]
  suffices ∀ inWord, findAssigned name accept inWord (t ++ '\n' :: a) = findAssigned name accept false a from this false
  induction t with
  | nil =>
    intro inWord
    rw [List.nil_append, findAssigned_cons]
    · rfl
    · intro _ r hr
      exact absurd hr.var_prefix (by simp)
  | cons c t ih =>
    intro inWord
    rw [List.cons_append, findAssigned_cons]
    · exact ih (fun hvar => h (hvar.trans (List.suffix_cons c _).isInfix)) (isWord c)
    · intro _ r hr
      -- The `var` of an assignment that starts here would lie before the line feed, or the line feed in it.
      have hline : c :: t ++ ['\n'] <+: c :: (t ++ '\n' :: a) := ⟨a, by simp⟩
      rcases List.prefix_or_prefix_of_prefix hr.var_prefix hline with hvar | hvar
      · exact absurd hvar.isInfix h
      · have hmem : '\n' ∈ "var".toList := hvar.subset (by simp)
        simp at hmem

/-! ## Messages -/

/-- A message is read back from its literals, and none is read from a literal that is never closed. -/
theorem messages_decode_exactly {name : List Char} (hname : ∀ c ∈ name, c.isAlphanum = true ∨ c = '_') :
    (∀ (mark : Char) (m s before rest b after : List Char), mark ∈ ['"', '\x27'] → Escapes mark m s →
      (before = [] ∨ (∃ t, before = t ++ ['\n']) ∧ ¬ "var".toList <:+: before) → (∀ c ∈ b, isBlank c = true) →
      Assigns name rest (b ++ mark :: (s ++ mark :: after)) → message? name (before ++ rest) = some m) ∧
    ∀ (mark : Char) (before rest b body : List Char), mark ∈ ['"', '\x27'] → (∀ c ∈ b, isBlank c = true) →
      Assigns name rest (b ++ mark :: body) → NeverCloses mark body → AssignsOnce name before rest →
      message? name (before ++ rest) = none := by
  have hword : ∀ c ∈ name, isWord c = true := fun c hc => CharClass.isWord_of_ascii (hname c hc)
  have hblank {mark : Char} (hmark : mark ∈ ['"', '\x27']) : isBlank mark = false := by
    simp only [List.mem_cons, List.not_mem_nil, or_false] at hmark
    rcases hmark with rfl | rfl <;> rfl
  constructor
  · intro mark m s before rest b after hmark hs hbefore hb hassigns
    have hskips : Skips name before := by
      rcases hbefore with rfl | ⟨⟨t, rfl⟩, hvar⟩
      · exact fun _ _ _ => rfl
      · exact skips_lines hvar
    have hquoted := quoted?_of_message (.mk hmark hs) after
    unfold message?
    rw [hskips]
    apply findAssigned_of_assigns hword hassigns
    rw [dropWhile_blanks hb (hblank hmark)]
    simpa using hquoted
  · intro mark before rest b body hmark hb hassigns hbody honce
    apply findAssigned_eq_none
    intro u v r hsplit hfree hr
    obtain rfl := honce u v r hsplit hfree hr
    obtain rfl := List.append_cancel_left hsplit
    obtain rfl := hr.unique hword hassigns
    rw [dropWhile_blanks hb (hblank hmark)]
    simp only [List.mem_cons, List.not_mem_nil, or_false] at hmark
    rcases hmark with rfl | rfl
    · exact readQuoted_of_neverCloses hbody
    · exact readQuoted_of_neverCloses hbody

/-- A message that holds its mark, a line feed and a backslash, with a backslash before `o` too, stands behind a line with
a mark. In another script three backslashes keep the only mark from closing. -/
theorem message_behind_a_line :
    (∀ c ∈ "ON_1".toList, c.isAlphanum = true ∨ c = '_') ∧
    message? "ON_1".toList "// '\nvar ON_1\t= '\\o\\'\n\\\\';'".toList = some ['o', '\x27', '\n', '\\'] ∧
    message? "ON_1".toList "var ON_1 = '\\\\\\';".toList = none := by
  have hname : ∀ c ∈ "ON_1".toList, c.isAlphanum = true ∨ c = '_' := by
    rw [show "ON_1".toList = ['O', 'N', '_', '1'] by rfl]
    simp
  have hblank {b : List Char} (hb : b.all isBlank = true) : ∀ c ∈ b, isBlank c = true := List.all_eq_true.1 hb
  have hspace : ∀ c ∈ [' '], isBlank c = true := hblank (by rfl)
  obtain ⟨hread, hunread⟩ := messages_decode_exactly hname
  refine ⟨hname, ?_, ?_⟩
  · have hs : Escapes '\x27' ['o', '\x27', '\n', '\\'] "\\o\\'\n\\\\".toList :=
      .escaped (by decide) (.escaped (by decide) (.plain (by decide) (by decide) (.escaped (by decide) .nil)))
    exact hread '\x27' _ _ "// '\n".toList _ [' '] ";'".toList (by decide) hs
      (.inr ⟨⟨"// '".toList, by decide⟩, by decide⟩) hspace
      (@Assigns.mk _ [' '] ['\t'] _ (by decide) hspace (hblank (by rfl)))
  · have hclosed : NeverCloses '\x27' "\\\\\\';".toList := by
      intro u v huv
      have hu : u = List.replicate 3 '\\' := by
        simp [List.cons_eq_append_iff] at huv
        obtain ⟨rfl, -⟩ := huv
        rfl
      exact ⟨[], 1, hu, by simp⟩
    have honce : AssignsOnce "ON_1".toList [] "var ON_1 = '\\\\\\';".toList := by
      intro u v r huv _ hr
      have hfirst : ∀ v ∈ "var ON_1 = '\\\\\\';".toList.tails, "var".toList <+: v → v = "var ON_1 = '\\\\\\';".toList := by
        decide +kernel
      have hv := hfirst v ((List.mem_tails _ _).2 ⟨u, huv.symm⟩) hr.var_prefix
      rw [hv] at huv
      exact (List.append_cancel_right huv).symm
    exact hunread '\x27' [] _ [' '] _ (by decide) hspace (@Assigns.mk _ [' '] [' '] _ (by decide) hspace hspace)
      hclosed honce

end DocNav.Script
