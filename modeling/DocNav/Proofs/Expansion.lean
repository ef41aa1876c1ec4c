import DocNav.Config
import Mathlib
/-!
# What is replaced in a setting

As documented, only a name in braces stands for a variable, and every other character of a setting is kept. What is
done is to look for `$` and a brace anywhere in the setting and then to replace every variable in it, in braces or not.

Main result: `expand_eq_documented_iff`. The two differ exactly on the settings in which `$` and a brace occur and in
which, outside the braces, a `$` has a letter, a number, `_` or another `$` behind it.
-/

namespace DocNav.Expand

/-! ## The parts as documented -/

/-- The parts of a setting, from left to right, where only a name in braces stands for a variable. -/
def bracedPieces : List Char → List Piece
  | [] => []
  | '$' :: '\x7b' :: rest =>
    match h : untilBrace rest with
    | some (inside, behind) =>
      have := length_of_untilBrace h
      braced inside :: bracedPieces behind
    | none => .plain ['$', '\x7b'] :: bracedPieces rest
  | c :: rest => .plain [c] :: bracedPieces rest
termination_by s => s.length
decreasing_by all_goals (simp only [List.length_cons]; omega)

/-- The setting with its variables replaced as documented, or the first variable that is not set. -/
def documented (env : String → Option String) (s : String) : Except String String :=
  (values env (bracedPieces s.toList)).map String.ofList

/-- Whether a `$` outside braces has a letter, a number, `_` or another `$` behind it. -/
def bareDollar : List Char → Bool
  | [] => false
  | '$' :: '\x7b' :: rest =>
    match h : untilBrace rest with
    | some (_, behind) =>
      have := length_of_untilBrace h
      bareDollar behind
    | none => bareDollar rest
  | '$' :: rest => rest.head?.any (fun c => c = '$' || isNameChar c) || bareDollar rest
  | _ :: rest => bareDollar rest
termination_by s => s.length
decreasing_by all_goals (simp only [List.length_cons]; omega)

/-- How a part stands in a setting. -/
def Piece.written : Piece → List Char
  | .plain text => text
  | .reference name default? => '$' :: '\x7b' :: name ++ (default?.elim [] fun d => ':' :: '-' :: d) ++ ['\x7d']

theorem untilBrace_eq_some {s inside behind : List Char} (h : untilBrace s = some (inside, behind)) :
    s = inside ++ '\x7d' :: behind := by
  unfold untilBrace at h
  split at h
  · cases h
  · rename_i c rest hd
    have hc : c = '\x7d' := by
      have hhead := List.head?_dropWhile_not (fun c => decide (c ≠ '\x7d')) s
      rw [hd] at hhead
      simpa using hhead
    rw [hc] at hd
    cases h
    rw [← hd, List.takeWhile_append_dropWhile]

theorem splitDefault_eq_some {s name d : List Char} (h : splitDefault s = some (name, d)) :
    s = name ++ ':' :: '-' :: d := by
  fun_induction splitDefault s generalizing name with
  | case1 => cases h
  | case2 rest =>
    cases h
    rfl
  | case3 c rest _ ih =>
    obtain ⟨⟨name', d'⟩, h', heq⟩ := Option.map_eq_some_iff.1 h
    cases heq
    rw [ih h', List.cons_append]

theorem written_braced (inside : List Char) :
    (braced inside).written = '$' :: '\x7b' :: inside ++ ['\x7d'] := by
  unfold braced
  split
  next c name d h =>
    rw [splitDefault_eq_some h]
    simp [Piece.written]
  next => simp [Piece.written]

/-- The parts, as they stand in the setting, are the setting. -/
theorem written_bracedPieces (s : List Char) : (bracedPieces s).flatMap Piece.written = s := by
  fun_induction bracedPieces s with
  | case1 => rfl
  | case2 rest inside behind h _ ih =>
    rw [List.flatMap_cons, written_braced, ih, untilBrace_eq_some h]
    simp
  | case3 rest h ih =>
    rw [List.flatMap_cons, ih]
    rfl
  | case4 c rest _ ih =>
    rw [List.flatMap_cons, ih]
    rfl

/-! ## Where the two agree -/

section
variable {c : Char} {rest inside behind s : List Char}

theorem bracedPieces_reference (h : untilBrace rest = some (inside, behind)) :
    bracedPieces ('$' :: '\x7b' :: rest) = braced inside :: bracedPieces behind := by
  rw [bracedPieces]
  split <;> simp_all

theorem bracedPieces_unclosed (h : untilBrace rest = none) :
    bracedPieces ('$' :: '\x7b' :: rest) = .plain ['$', '\x7b'] :: bracedPieces rest := by
  rw [bracedPieces]
  split <;> simp_all

theorem bracedPieces_cons (h : c = '$' → ∀ r, rest ≠ '\x7b' :: r) :
    bracedPieces (c :: rest) = .plain [c] :: bracedPieces rest := by
  rw [bracedPieces]
  exact fun r hc => h hc r

theorem bareDollar_reference (h : untilBrace rest = some (inside, behind)) :
    bareDollar ('$' :: '\x7b' :: rest) = bareDollar behind := by
  rw [bareDollar]
  split <;> simp_all

theorem bareDollar_unclosed (h : untilBrace rest = none) :
    bareDollar ('$' :: '\x7b' :: rest) = bareDollar rest := by
  rw [bareDollar]
  split <;> simp_all

theorem bareDollar_dollar (h : ∀ r, rest ≠ '\x7b' :: r) :
    bareDollar ('$' :: rest) = (rest.head?.any (fun c => c = '$' || isNameChar c) || bareDollar rest) := by
  rw [bareDollar]
  exact h

theorem bareDollar_cons (hc : c ≠ '$') : bareDollar (c :: rest) = bareDollar rest := by
  rw [bareDollar]
  · exact fun r h => absurd h hc
  · exact hc

/-- A `$` that nothing stands behind to be taken with is kept. -/
theorem bareDollar_alone (hbrace : ∀ r, rest ≠ '\x7b' :: r) (hdollar : ∀ r, rest ≠ '$' :: r)
    (hname : rest.takeWhile isNameChar = []) : bareDollar ('$' :: rest) = bareDollar rest := by
  rw [bareDollar_dollar hbrace]
  cases rest with
  | nil => rfl
  | cons c r =>
    have hc : c ≠ '$' := fun h => hdollar r (h ▸ rfl)
    have hn : isNameChar c = false := by simpa [List.takeWhile_cons] using hname
    simp [hc, hn]

/-- Where no `$` stands bare, the parts are those that are documented. -/
theorem pieces_eq_bracedPieces (h : bareDollar s = false) : pieces s = bracedPieces s := by
  fun_induction pieces s with
  | case1 => rw [bracedPieces]
  | case2 rest inside behind hu _ ih =>
    rw [bareDollar_reference hu] at h
    rw [bracedPieces_reference hu, ih h]
  | case3 rest hu ih =>
    rw [bareDollar_unclosed hu] at h
    rw [bracedPieces_unclosed hu, ih h]
  | case4 rest ih =>
    rw [bareDollar_dollar (by simp)] at h
    simp at h
  | case5 rest hbrace hdollar hname ih =>
    rw [bareDollar_alone hbrace hdollar hname] at h
    rw [bracedPieces_cons fun _ => hbrace, ih h]
  | case6 rest hbrace _ _ hname _ =>
    -- A name stands behind the `$`.
    rw [bareDollar_dollar hbrace] at h
    cases rest with
    | nil => exact absurd rfl hname
    | cons c r =>
      cases hn : isNameChar c with
      | true => simp [hn] at h
      | false => simp [hn] at hname
  | case7 c rest _ _ hc ih =>
    rw [bareDollar_cons hc] at h
    rw [bracedPieces_cons fun h => absurd h hc, ih h]

/-! ## Where they differ -/

/-- The parts with a mark in the place of each reference. -/
def marked (ps : List Piece) : List Char :=
  ps.flatMap fun
    | .plain text => text
    | .reference _ _ => ['#']

@[simp]
theorem marked_nil : marked [] = [] := rfl

@[simp]
theorem marked_plain (text : List Char) (ps : List Piece) : marked (.plain text :: ps) = text ++ marked ps := rfl

@[simp]
theorem marked_reference (name : List Char) (d : Option (List Char)) (ps : List Piece) :
    marked (.reference name d :: ps) = '#' :: marked ps := rfl

@[simp]
theorem marked_braced (inside : List Char) (ps : List Piece) : marked (braced inside :: ps) = '#' :: marked ps := by
  unfold braced
  split <;> rfl

theorem values_marked (ps : List Piece) : values (fun _ => some "#") ps = .ok (marked ps) := by
  induction ps with
  | nil => rfl
  | cons p ps ih =>
    rw [values, ih]
    cases p <;> rfl

theorem ne_of_kept (kept : Nat) {c d : Char} {t u : List Char} (hc : c ≠ '$') (hd : c ≠ d) :
    c :: t ≠ List.replicate kept '$' ++ d :: u := by
  cases kept with
  | zero => simp [hd]
  | succ kept => simp [List.replicate_succ, hc]

theorem kept_cons (kept : Nat) (u : List Char) :
    List.replicate kept '$' ++ '$' :: u = '$' :: (List.replicate kept '$' ++ u) := by
  rw [← List.cons_append, ← List.replicate_succ, List.replicate_succ', List.append_assoc, List.singleton_append]

/-- A `$` that is dropped is missed, however many are kept before it. -/
theorem marked_ne_of_dropped (kept : Nat) (s : List Char) :
    marked (pieces s) ≠ List.replicate kept '$' ++ marked (bracedPieces ('$' :: s)) := by
  have hdollars : ∀ r, marked (bracedPieces ('$' :: '$' :: r)) = '$' :: marked (bracedPieces ('$' :: r)) := by
    intro r
    rw [bracedPieces_cons (by simp)]
    rfl
  fun_induction pieces s generalizing kept with
  | case1 =>
    rw [bracedPieces_cons (by simp)]
    simp
  | case2 rest inside behind hu _ _ =>
    rw [marked_braced, hdollars]
    exact ne_of_kept kept (by decide) (by decide)
  | case3 rest hu _ =>
    rw [hdollars, bracedPieces_unclosed hu, kept_cons]
    exact fun h => ne_of_kept kept (by decide) (by decide) (List.cons.inj h).2
  | case4 rest ih =>
    -- One more is kept as documented than here.
    rw [hdollars, hdollars, kept_cons, kept_cons, ← List.cons_append, ← List.replicate_succ]
    exact fun h => ih (kept + 1) (List.cons.inj h).2
  | case5 rest _ _ _ ih =>
    rw [hdollars, kept_cons]
    exact fun h => ih kept (List.cons.inj h).2
  | case6 rest _ _ _ _ _ =>
    rw [marked_reference, hdollars]
    exact ne_of_kept kept (by decide) (by decide)
  | case7 c rest _ _ hc _ =>
    by_cases hbrace : c = '\x7b'
    · subst hbrace
      cases hu : untilBrace rest with
      | some parts =>
        obtain ⟨inside, behind⟩ := parts
        rw [bracedPieces_reference hu, marked_braced]
        exact ne_of_kept kept (by decide) (by decide)
      | none =>
        rw [bracedPieces_unclosed hu]
        exact ne_of_kept kept (by decide) (by decide)
    · rw [bracedPieces_cons (by simp [hbrace])]
      exact ne_of_kept kept hc hc

/-- Where a `$` stands bare, it is missed. -/
theorem marked_ne_of_bareDollar (h : bareDollar s = true) : marked (pieces s) ≠ marked (bracedPieces s) := by
  fun_induction pieces s with
  | case1 =>
    rw [bareDollar] at h
    cases h
  | case2 rest inside behind hu _ ih =>
    rw [bareDollar_reference hu] at h
    rw [bracedPieces_reference hu, marked_braced, marked_braced]
    exact fun heq => ih h (List.cons.inj heq).2
  | case3 rest hu ih =>
    rw [bareDollar_unclosed hu] at h
    rw [bracedPieces_unclosed hu, marked_plain, marked_plain]
    exact fun heq => ih h (List.append_cancel_left heq)
  | case4 rest _ =>
    rw [bracedPieces_cons (by simp)]
    exact fun heq => marked_ne_of_dropped 0 rest (List.cons.inj heq).2
  | case5 rest hbrace hdollar hname ih =>
    rw [bareDollar_alone hbrace hdollar hname] at h
    rw [bracedPieces_cons fun _ => hbrace, marked_plain, marked_plain]
    exact fun heq => ih h (List.cons.inj heq).2
  | case6 rest hbrace _ _ _ _ =>
    rw [bracedPieces_cons fun _ => hbrace, marked_reference]
    exact ne_of_kept 0 (by decide) (by decide)
  | case7 c rest _ _ hc ih =>
    rw [bareDollar_cons hc] at h
    rw [bracedPieces_cons fun h => absurd h hc, marked_plain, marked_plain]
    exact fun heq => ih h (List.cons.inj heq).2

/-- A setting in which no `$` has a brace behind it holds no reference. -/
theorem values_of_not_namesVariable (env : String → Option String) (h : namesVariable s = false) :
    values env (bracedPieces s) = .ok s := by
  fun_induction bracedPieces s with
  | case1 => rfl
  | case2 | case3 => simp [namesVariable] at h
  | case4 c rest hbrace ih =>
    have hrest : namesVariable rest = false := by
      rw [namesVariable] at h
      · exact h
      · exact hbrace
    rw [values, ih hrest]
    rfl

end

/-! ## What is documented -/

/-- What stands for a part: the value of its variable if that is set, or else its default. -/
def Piece.text (env : String → Option String) : Piece → List Char
  | .plain text => text
  | .reference name default? => (((env (String.ofList name)).map String.toList).or default?).getD []

section
variable {env : String → Option String} {ps : List Piece}

theorem values_of_set (h : ∀ name, .reference name none ∈ ps → env (String.ofList name) ≠ none) :
    values env ps = .ok (ps.flatMap (Piece.text env)) := by
  induction ps with
  | nil => rfl
  | cons p ps ih =>
    have hvalue : value env p = .ok (p.text env) := by
      cases p with
      | plain text => rfl
      | reference name d =>
        cases hv : env (String.ofList name) with
        | some v => simp [value, Piece.text, hv]
        | none =>
          cases d with
          | some d => simp [value, Piece.text, hv]
          | none => exact absurd hv (h name List.mem_cons_self)
    rw [values, hvalue, ih fun name hname => h name (List.mem_cons_of_mem p hname)]
    rfl

theorem values_of_unset {name : List Char} (hmem : .reference name none ∈ ps)
    (hname : env (String.ofList name) = none) : ∃ unset, values env ps = .error unset := by
  induction ps with
  | nil => cases hmem
  | cons p ps ih =>
    cases hp : value env p with
    | error unset => exact ⟨unset, by rw [values, hp]⟩
    | ok v =>
      rcases List.mem_cons.1 hmem with rfl | hmem
      · simp [value, hname] at hp
      · obtain ⟨unset, hunset⟩ := ih hmem
        exact ⟨unset, by rw [values, hp, hunset]⟩

end

theorem documented_error_iff {env : String → Option String} {s : String} :
    (∃ unset, documented env s = .error unset) ↔
      ∃ name, .reference name none ∈ bracedPieces s.toList ∧ env (String.ofList name) = none := by
  constructor
  · rintro ⟨unset, h⟩
    by_contra hset
    push Not at hset
    rw [documented, values_of_set hset] at h
    cases h
  · rintro ⟨name, hmem, hname⟩
    obtain ⟨unset, hunset⟩ := values_of_unset hmem hname
    exact ⟨unset, by rw [documented, hunset]; rfl⟩

/-- A setting is expanded as documented, whatever the environment, exactly if no `$` in it has a brace behind it or none
outside braces has a letter, a number, `_` or another `$` behind it. The parts that are documented make up the setting.
To replace each reference among them by the value of its variable, or else by its default, fails exactly if there is
one without a default whose variable is not set. -/
theorem expand_eq_documented_iff (s : String) :
    ((∀ env, expand env s = documented env s) ↔
      (namesVariable s.toList = false ∨ bareDollar s.toList = false)) ∧
    (bracedPieces s.toList).flatMap Piece.written = s.toList ∧
    (∀ env, (∃ unset, documented env s = .error unset) ↔
      ∃ name, .reference name none ∈ bracedPieces s.toList ∧ env (String.ofList name) = none) ∧
    ∀ env, (∀ name, .reference name none ∈ bracedPieces s.toList → env (String.ofList name) ≠ none) →
      documented env s = .ok (String.ofList ((bracedPieces s.toList).flatMap (Piece.text env))) := by
  refine ⟨⟨?_, ?_⟩, written_bracedPieces s.toList, fun env => documented_error_iff, fun env hset => ?_⟩
  · intro hsame
    by_contra hboth
    obtain ⟨hnames, hbare⟩ : namesVariable s.toList = true ∧ bareDollar s.toList = true := by simpa using hboth
    have h := hsame fun _ => some "#"
    rw [expand, if_pos hnames, documented, values_marked, values_marked] at h
    simp only [Except.map, Except.ok.injEq, String.ofList_inj] at h
    exact marked_ne_of_bareDollar hbare h
  · intro hcondition env
    cases hnames : namesVariable s.toList with
    | false =>
      rw [expand, if_neg (by simp [hnames]), documented, values_of_not_namesVariable env hnames, Except.map,
        String.ofList_toList]
    | true =>
      have hbare : bareDollar s.toList = false := by simpa [hnames] using hcondition
      rw [expand, if_pos hnames, documented, pieces_eq_bracedPieces hbare]
  · rw [documented, values_of_set hset]
    rfl

set_option maxRecDepth 4000 in
/-- References in braces beside a `$` that stands alone. -/
theorem expand_beside_lone_dollar :
    let env : String → Option String := fun name => if name = "B" then some "v" else none
    let setting := "$\x7bA:-on\x7d $ $\x7bB\x7d"
    bareDollar setting.toList = false ∧
      (∀ name, .reference name none ∈ bracedPieces setting.toList → env (String.ofList name) ≠ none) ∧
      expand env setting = .ok "on $ v" := by
  intro env setting
  have hps : bracedPieces setting.toList =
      [.reference ['A'] (some ['o', 'n']), .plain [' '], .plain ['$'], .plain [' '], .reference ['B'] none] := by cbv
  have hbare : bareDollar setting.toList = false := by cbv
  have hset : ∀ name, .reference name none ∈ bracedPieces setting.toList → env (String.ofList name) ≠ none := by
    intro name hname
    obtain rfl : name = ['B'] := by simpa [hps] using hname
    decide
  obtain ⟨hsame, -, -, hvalue⟩ := expand_eq_documented_iff setting
  refine ⟨hbare, hset, ?_⟩
  rw [hsame.2 (.inr hbare) env, hvalue env hset, hps]
  rfl

set_option maxRecDepth 4000 in
/-- Behind a reference in braces, a bare name is replaced, too. -/
theorem expand_beside_bare_name :
    let env : String → Option String := fun name => if name = "B" then some "v" else none
    let setting := "$\x7bA:-on\x7d $B"
    documented env setting = .ok "on $B" ∧ expand env setting = .ok "on v" ∧ expand env "on $B" = .ok "on $B" := by
  intro env setting
  exact ⟨by cbv, by cbv, by cbv⟩

end DocNav.Expand
