import DocNav.Proofs.Resolution
import DocNav.Proofs.Writes
/-!
# When the tree changes

The tree changes only when a plan has arrived or a node is expanded, and then all at once: the nodes above the
plan's path are opened, or the node that is expanded is, and everything else stays. Whatever fails leaves the tree
as it was.

Main results: `opens_what_is_passed` says what becomes of the tree at every event, and `takes_what_is_staged` that
a fragment never meets a tree that cannot take it, so that no request fails for want of a node, but one to expand
a node that there is not.
-/

namespace DocNav

/-- A request that ends well has a plan that has arrived, unless it expands a node or is ignored at once. -/
theorem Report.Told.arrived_of_ok {R : Node} {e : Engine} {linked : Bool} {report : Report}
    (h : report.Told R e linked) {r : Request} {a : Answered} (hr : report.request = some r)
    (ha : report.ending = some (.ok a)) :
    (∃ p, report.planned = some (.ok p)) ∨ (∃ path, r = .expand path) ∨
      (∃ page, r = .follow page) ∧ linked = false ∧ a = .landed .ignored := by
  cases hp : report.planned with
  | none =>
    rcases h.unplanned r _ hr ha hp with hr | ⟨hr, hl, ha⟩
    · exact .inr (.inl hr)
    · exact .inr (.inr ⟨hr, hl, Except.ok.inj ha⟩)
  | some x =>
    cases x with
    | ok p => exact .inl ⟨p, rfl⟩
    | error err =>
      obtain ⟨r', ending, -, -, hending, htells⟩ := h.planned _ hp
      obtain rfl : .ok a = ending := Option.some.inj (ha.symm.trans hending)
      have herror : (.ok a : Ending) = .error err := by cases r' <;> exact htells
      cases herror

namespace Desk

/-- At every event, whatever happened before: apart from an expansion and a page that is not followed, a request ends
well only if its plan has arrived. The tree changes only if a plan has arrived or a node has been expanded. When a
plan has arrived at a path, the nodes above the path that were still deferred hold their handles' fragments, so that
all of them are inline, and every other node is as it was or as its fragment holds it. When a node has been expanded,
it alone is opened, if it was deferred. A request that fails and one that waits on leave the tree as it was. -/
theorem opens_what_is_passed (data : NavData) (settings : Settings) (remembered : Option Bool) (events : List Event)
    (ev : Event) :
    let d := (start data settings remembered).after events
    let e := (d.step ev).1.engine
    let report := (d.step ev).2
    let before := d.engine.tree
    let known := e.loader.fragment?
    (∀ h fragment, known h = some fragment → answeredIn (events ++ [ev]) h (.ok fragment)) ∧
    (∀ r a, report.request = some r → report.ending = some (.ok a) → (∃ p, report.planned = some (.ok p)) ∨
      (∃ path, r = .expand path) ∨
        (∃ page, r = .follow page) ∧ d.engine.view.mode.isLinked = false ∧ a = .landed .ignored) ∧
    (e.tree ≠ before → (∃ p, report.planned = some (.ok p)) ∨
      ∃ path, report.request = some (.expand path) ∧ report.ending = some (.ok .expanded)) ∧
    (∀ p, report.planned = some (.ok p) →
      (∃ r ending, report.request = some r ∧ report.ending = some ending ∧ r.Tells (.ok p) ending) ∧
      e.tree = before.openAbove known p ∧ (∃ n, e.tree.at? p = some n) ∧
      (∀ q ∈ p.above, ∃ l k cs, e.tree.at? q = some (.inline l k cs)) ∧
      ∀ q n, q ∉ p.above → (before.at? q = some n → e.tree.at? q = some n) ∧
        (e.tree.at? q = some n → before.atIn? known q = some n)) ∧
    (∀ path, report.request = some (.expand path) → report.ending = some (.ok .expanded) →
      e.tree = before.openAt known path ∧ ∃ n, before.at? path = some n ∧
        e.tree.at? path = some (n.opened known) ∧ (n.opened known).isDeferred = false ∧
        (n.isDeferred = false → e.tree = before)) ∧
    (∀ err, report.ending = some (.error err) → e.tree = before) ∧
    (report.ending = none → e.tree = before) := by
  intro d e report before known
  obtain ⟨hd, ha⟩ := after_start data settings remembered events
  have hwrites : Writes before report.request e report.ending report.planned (d.staged ev) := step_writes hd ha ev
  have hbrought : ∀ h fragment, known h = some fragment → answeredIn (events ++ [ev]) h (.ok fragment) := by
    obtain ⟨hg, -⟩ := after_sound (start_sound data settings remembered) (events ++ [ev])
    rw [after_append] at hg
    exact fun h fragment => (hg.moves.attested (Loader.attested_empty _)).of_fragment
  have htold : ∀ p, report.planned = some (.ok p) → ∃ r ending, report.request = some r ∧
      report.ending = some ending ∧ r.Tells (.ok p) ending := by
    intro p hp
    obtain ⟨r, ending, hr, -, hending, htells⟩ := (step_told hd ev).planned _ hp
    exact ⟨r, ending, hr, hending, htells⟩
  refine ⟨hbrought, fun r a => (step_told hd ev).arrived_of_ok, ?_⟩
  -- What the request has told and how it has ended are those of one of the cases.
  generalize report.planned = planned at *
  generalize report.ending = ending at *
  generalize d.staged ev = staged at hwrites
  cases hwrites with
  | keeps ht hidle hp =>
    refine ⟨fun h => absurd ht h, fun p h => absurd h (hp p), fun path _ h => ?_, fun _ _ => ht, fun _ => ht⟩
    rcases hidle _ h with h | ⟨_, h, -⟩ <;> cases h
  | @arrives p a c _ _ ht hat =>
    refine ⟨fun _ => .inl ⟨p, rfl⟩, ?_, fun path hr _ => ?_, nofun, nofun⟩
    · rintro _ ⟨⟩
      refine ⟨htold p rfl, ht, ⟨c, hat⟩, fun q => Node.inline_above hat, fun q n hq => ?_⟩
      rw [ht]
      exact ⟨Node.at?_openAbove hq, Node.at?_openAbove_back hq⟩
    · -- An expansion makes no plan.
      obtain ⟨r, ending, hr', -, htells⟩ := htold p rfl
      rw [Option.some.inj (hr'.symm.trans hr)] at htells
      exact htells.elim
  | @expands path c _ hr _ ht hat hopen =>
    refine ⟨fun _ => .inr ⟨path, hr, rfl⟩, nofun, fun path' hr' _ => ?_, nofun, nofun⟩
    cases hr.symm.trans hr'
    refine ⟨ht, c, hat, ?_, hopen, fun hc => ht.trans (Node.openAt_of_not_deferred hat hc)⟩
    rw [ht]
    exact Node.at?_openAt hat
  | misses _ _ ht => exact ⟨fun h => absurd ht h, nofun, nofun, fun _ _ => ht, fun _ => ht⟩

/-- Only a request that begins to expand a node finds none. -/
theorem begins_of_missing {R : Node} {d : Desk} (hd : d.Sound R) {ev : Event} {path : TreePath}
    (hr : (d.step ev).2.request = some (.expand path)) (hnone : d.engine.tree.at? path = none) :
    ev = .begin (.expand path) := by
  cases ev with
  | begin r =>
    cases hr
    rfl
  | run number now =>
    simp only [step] at hr
    cases hp : d.pending.find? (·.number = number) with
    | none => simp [hp] at hr
    | some p =>
      simp only [hp, take, Option.some.injEq] at hr
      have hwaits := (hd.pending p (List.mem_of_find?_eq_some hp)).waits
      rw [hr] at hwaits
      -- A task of an expansion waits at a node of the tree.
      generalize p.task = t at hwaits
      cases hwaits with
      | planning hsought _ => cases hsought
      | expanding _ _ _ hat =>
        rw [hnone] at hat
        cases hat
  | select path' =>
    simp only [step] at hr
    cases hs : d.engine.select path' <;> simp [hs] at hr
  | collapse _ | toggle | close => cases hr

/-- At every event, whatever happened before: each fragment that is put into the tree finds its node there, also
where it is to go into a fragment put there just before, and the node takes it if it is still deferred. So no
request fails for want of a node of the tree, but one to expand a node, and only where there was none when it
began. -/
theorem takes_what_is_staged (data : NavData) (settings : Settings) (remembered : Option Bool) (events : List Event)
    (ev : Event) :
    let d := (start data settings remembered).after events
    let e := (d.step ev).1.engine
    let report := (d.step ev).2
    (∀ before p fragment behind, d.staged ev = before ++ (p, fragment) :: behind →
      ∃ T n, Plan.commit d.engine.tree before = .ok T ∧ T.at? p = some n ∧
        (n.isDeferred = true → ∃ T', T.materialize p fragment = .ok T')) ∧
    Plan.commit d.engine.tree (d.staged ev) = .ok e.tree ∧
    (∀ err, report.planned ≠ some (.error (.tree err))) ∧
    ∀ r err, report.request = some r → report.ending = some (.error (.tree err)) →
      ∃ path, r = .expand path ∧ err = .missing path ∧ ev = .begin r ∧ d.engine.tree.at? path = none := by
  intro d e report
  obtain ⟨hd, ha⟩ := after_start data settings remembered events
  have hwrites : Writes d.engine.tree report.request e report.ending report.planned (d.staged ev) :=
    step_writes hd ha ev
  have hcommit := hwrites.commit
  have hmissing : ∀ r err, report.request = some r → report.ending = some (.error (.tree err)) →
      ∃ path, r = .expand path ∧ err = .missing path ∧ ev = .begin r ∧ d.engine.tree.at? path = none := by
    intro r err hr hending
    generalize report.planned = planned at hwrites
    generalize report.ending = ending at *
    generalize d.staged ev = staged at hwrites
    cases hwrites with
    | keeps _ hidle _ =>
      rcases hidle _ hending with h | ⟨_, h, hne⟩ <;> cases h
      exact absurd rfl (hne err)
    | arrives _ _ _ | expands _ _ _ _ _ => cases hending
    | @misses path hpath hnone _ =>
      cases hending
      cases hpath.symm.trans hr
      exact ⟨path, rfl, rfl, begins_of_missing hd hpath hnone, hnone⟩
  refine ⟨fun before p fragment behind h => ?_, hcommit, fun err h => ?_, hmissing⟩
  · rw [h] at hcommit
    exact Plan.commit_step hcommit
  · -- A plan that fails ends its request, which is none that expands a node.
    obtain ⟨r, ending, hr, hf, hending, htells⟩ := (step_told hd ev).planned _ h
    cases hf with
    | walked _ hfinds => exact absurd rfl (hfinds.not_tree err)

end Desk
end DocNav
