import DocNav.Proofs.Writes
/-!
# The view fits the tree

The view keeps paths, and the tree changes under them. `View.Fits` says that the selection is a node of the tree and
that only nodes that show their children are expanded. Every operation of the view keeps it, given what the tree has
at the path that the operation is for, and so does a tree that unfolds further.

Main result: `shows_what_there_is`. The view fits the tree after any events.
-/

namespace DocNav

/-! ## Expanded paths -/

theorem mem_insertPath {p q : TreePath} {ps : List TreePath} : q ∈ insertPath p ps ↔ q = p ∨ q ∈ ps := by
  induction ps with
  | nil => simp [insertPath]
  | cons r rs ih =>
    simp only [insertPath]
    split
    · rename_i h
      simp [h]
    · split
      · simp
      · simp only [List.mem_cons, ih]
        exact or_left_comm

theorem mem_foldl_insertPath {q : TreePath} {ps qs : List TreePath} :
    q ∈ ps.foldl (fun e p => insertPath p e) qs ↔ q ∈ ps ∨ q ∈ qs := by
  induction ps generalizing qs with
  | nil => simp
  | cons p ps ih =>
    simp only [List.foldl_cons, ih, mem_insertPath, List.mem_cons]
    rw [← or_assoc, or_comm (a := q ∈ ps)]

/-! ## What a view may keep -/

/-- The tree has a node where the selection is, and children wherever a node is expanded. -/
structure View.Fits (T : Node) (v : View) : Prop where
  selection : ∀ p, v.selection = some p → ∃ n, T.at? p = some n
  expanded : ∀ p ∈ v.expanded, ∃ l k cs, T.at? p = some (.inline l k cs)

namespace View

variable {K : Fragments} {T T' : Node} {v : View} {p : TreePath}

/-- A path that a view keeps is still good when the tree has unfolded further. -/
theorem Fits.grow (h : v.Fits T) (hT : Unfolds K T T') : v.Fits T' where
  selection p hp := by
    obtain ⟨n, hn⟩ := h.selection p hp
    obtain ⟨n', hn', -⟩ := hT.at? hn
    exact ⟨n', hn'⟩
  expanded p hp := by
    obtain ⟨l, k, cs, hn⟩ := h.expanded p hp
    obtain ⟨n', hn', hinline⟩ := hT.at? hn
    cases hinline with
    | inline _ _ _ => exact ⟨l, k, _, hn'⟩

/-- Only the selection and the expanded paths count. -/
theorem Fits.of_eq (h : v.Fits T) {w : View} (hs : w.selection = v.selection) (he : w.expanded = v.expanded) :
    w.Fits T where
  selection p hp := h.selection p (hs ▸ hp)
  expanded p hp := h.expanded p (he ▸ hp)

/-- What is above a node that the tree has shows its children. -/
theorem Fits.reveal (h : v.Fits T) {n : Node} (hn : T.at? p = some n) : (v.reveal p).1.Fits T where
  selection := by
    rintro _ ⟨⟩
    exact ⟨n, hn⟩
  expanded q hq := by
    rcases mem_foldl_insertPath.1 hq with hq | hq
    · exact Node.inline_above hn hq
    · exact h.expanded q hq

theorem Fits.expand (h : v.Fits T) {l : String} {k : Option PageRef} {cs : List Node}
    (hn : T.at? p = some (.inline l k cs)) : (v.expand p).1.Fits T where
  selection := h.selection
  expanded q hq := by
    rcases mem_insertPath.1 hq with rfl | hq
    · exact ⟨l, k, cs, hn⟩
    · exact h.expanded q hq

theorem Fits.select (h : v.Fits T) {n : Node} (hn : T.at? p = some n) (link : Option PageRef) :
    (v.select p link).1.Fits T where
  selection := by
    rintro _ ⟨⟩
    exact ⟨n, hn⟩
  expanded := h.expanded

theorem Fits.collapse (h : v.Fits T) (p : TreePath) : (v.collapse p).2.Fits T where
  selection := h.selection
  expanded q hq := h.expanded q (List.mem_of_mem_filter hq)

end View

/-! ## What a turn leaves in the view -/

namespace Engine

variable {may : Handle → Answer → Prop} {R : Node} {e : Engine} {r : Request} {path : TreePath}

theorem land_view (e : Engine) (purpose : Purpose) (p : TreePath) :
    (e.land purpose p).engine.view = e.view ∨ (e.land purpose p).engine.view = (e.view.reveal p).1 := by
  cases ht : purpose.ticket? with
  | none =>
    cases purpose with
    | locate => exact .inl rfl
    | deepLink _ _ | inbound _ => cases ht
  | some ticket =>
    rcases land_cases e ht p with ⟨-, -, hv⟩ | ⟨-, -, -, hv, -⟩ | ⟨-, -, hv, -⟩
    · exact .inr hv
    · exact .inl hv
    · exact .inl hv

/-- A node is expanded in the view only if the tree has it and it is no leaf. -/
theorem openNode_cases (e : Engine) (path : TreePath) :
    (e.openNode path).engine.view = e.view ∨
    ∃ n, e.tree.at? path = some n ∧ n.isLeaf = false ∧ (e.openNode path).ending? = some (.ok .expanded) ∧
      (e.openNode path).engine.view = (e.view.expand path).1 := by
  simp only [openNode, Node.find]
  cases hn : e.tree.at? path with
  | none => exact .inl rfl
  | some n =>
    cases hl : n.isLeaf with
    | true => exact .inl (by simp [hl])
    | false => exact .inr ⟨n, rfl, hl, by simp [hl, Turn.ending?], by simp [hl]⟩

/-- The view that a request enters is the same but for the ticket. -/
theorem entered_fits (hv : e.view.Fits e.tree) (r : Request) :
    (e.entered r).tree = e.tree ∧ (e.entered r).view.Fits e.tree := by
  unfold entered
  split
  · exact ⟨rfl, hv.of_eq rfl rfl⟩
  · exact ⟨rfl, hv⟩

/-- A turn keeps the view in step with the tree: what a plan has found is in the tree by the time it is revealed,
and a node that is expanded has been opened. -/
theorem Turns.fits (hs : e.Sound R) {purpose? : Option Purpose} {turn : Turn}
    {found? : Option (Except ResolveError TreePath)} {staged : List (TreePath × List Node)}
    (h : Turns may R e r purpose? turn found?)
    (hw : Writes e.tree (some r) turn.engine turn.ending? found? staged) (hv : e.view.Fits e.tree) :
    turn.engine.view.Fits turn.engine.tree := by
  have hfits : e.view.Fits turn.engine.tree := hv.grow (h.grows hs).tree
  cases h with
  | waits _ hview _ _ | fails _ hview _ | refuses _ hview _ _ =>
    exact hfits.of_eq (congrArg View.selection hview) (congrArg View.expanded hview)
  | @lands e' purpose p _ hview _ _ =>
    rw [← hview] at hfits
    rcases land_view e' purpose p with hl | hl
    · rwa [hl]
    · obtain ⟨n, hn⟩ := hw.arrived
      rw [hl]
      exact hfits.reveal hn
  | @opens e' path _ hview hr _ =>
    rw [← hview] at hfits
    rcases openNode_cases e' path with hl | ⟨n, hn, hleaf, hend, hl⟩
    · rwa [hl]
    · subst hr
      rw [hend] at hw
      obtain ⟨c, hc, hopen⟩ := hw.expanded
      have htree : (e'.openNode path).engine.tree = e'.tree := by rw [openNode_engine]
      rw [htree] at hc hfits
      obtain rfl := Option.some.inj (hn.symm.trans hc)
      obtain ⟨l, k, cs, rfl⟩ := Node.inline_of_open hleaf hopen
      rw [hl, htree]
      exact hfits.expand hn

end Engine

/-! ## Runs -/

namespace Desk

variable {R : Node} {d : Desk}

theorem step_fits (hd : d.Sound R) (ha : d.Above) (hv : d.engine.view.Fits d.engine.tree) (ev : Event) :
    (d.step ev).1.engine.view.Fits (d.step ev).1.engine.tree := by
  have hw := step_writes hd ha ev
  cases ev with
  | begin r =>
    rcases Engine.begin_turns hd.engine (Event.begin r).answers r with ⟨ht, -⟩ | ⟨-, -, -, ht⟩
    · obtain ⟨htree, hentered⟩ := Engine.entered_fits hv r
      have hg : d.engine.Grows Loader.silent (d.engine.entered r) := (entered_sound hd.engine r).1
      rw [← htree] at hw hentered
      exact ht.fits (hg.sound hd.engine) hw hentered
    · simp only [step, take, ht]
      exact hv
  | run number now =>
    simp only [step] at hw ⊢
    cases hp : d.pending.find? (·.number = number) with
    | none => exact hv
    | some p =>
      simp only [hp] at hw
      exact (hd.run_turns (List.mem_of_find?_eq_some hp) number now).fits hd.engine hw hv
  | select path =>
    simp only [step, Engine.select, Node.find]
    cases hn : d.engine.tree.at? path with
    | none => exact hv
    | some n => exact hv.select hn n.link
  | collapse path => exact hv.collapse path
  | toggle | close => exact hv.of_eq rfl rfl

/-- After any events, the tree has a node at the path that is selected, if one is, and each path that is expanded is
that of a node that shows its children: no leaf, not still deferred and not missing. -/
theorem shows_what_there_is (data : NavData) (settings : Settings) (remembered : Option Bool) (events : List Event) :
    let e := ((start data settings remembered).after events).engine
    (∀ p, e.view.selection = some p → ∃ n, e.tree.at? p = some n) ∧
      ∀ p ∈ e.view.expanded, ∃ l k cs, e.tree.at? p = some (.inline l k cs) := by
  have hstep : ∀ d ev, Sound data.root d → d.Above ∧ d.engine.view.Fits d.engine.tree →
      (d.step ev).1.Above ∧ (d.step ev).1.engine.view.Fits (d.step ev).1.engine.tree :=
    fun _ ev hd ⟨ha, hv⟩ => ⟨step_above hd ha ev, step_fits hd ha hv ev⟩
  have hstart : (start data settings remembered).engine.view.Fits data.root := ⟨nofun, nofun⟩
  obtain ⟨-, hv⟩ := after_inv hstep (start_sound data settings remembered)
    ⟨start_above data settings remembered, hstart⟩ events
  exact ⟨hv.selection, hv.expanded⟩

end Desk
end DocNav
