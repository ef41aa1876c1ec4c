import DocNav.Proofs.Resolution
import DocNav.Proofs.Rounds
/-!
# Plans carried out to their end

A plan that is carried out at once, from a source that answers each handle in one way, ends with what the anchor resolves
to, whatever the engine has loaded, put into the tree or failed to load before (`perform_plan`). And where it has found
a path, the tree has the node there, so the labels that lead to it can be told (`labels_of_at?`).

The source may be one that is asked in the course of a larger computation, as long as asking changes nothing
(`perform_asks`).
-/

namespace DocNav

/-! ## Labels -/

theorem Node.labelsBelow_of_at? {n c : Node} (above : TreePath) {p : TreePath} (h : n.at? p = some c) :
    ∃ labels, n.labelsBelow above p = .ok labels := by
  induction p generalizing n above with
  | nil => exact ⟨[], rfl⟩
  | cons i p ih =>
    rw [at?_cons] at h
    obtain ⟨d, hd, hp⟩ := Option.bind_eq_some_iff.1 h
    obtain ⟨labels, hlabels⟩ := ih (above ++ [i]) hp
    exact ⟨d.label :: labels, by simp [labelsBelow, hd, hlabels, Except.map]⟩

/-- Where the tree has a node, the labels that lead to it can be told. -/
theorem Node.labels_of_at? {n c : Node} {p : TreePath} (h : n.at? p = some c) : ∃ labels, n.labels p = .ok labels := by
  obtain ⟨below, hbelow⟩ := labelsBelow_of_at? [] h
  exact ⟨n.label :: below, by simp [labels, hbelow, Except.map]⟩

namespace Engine

variable {data : NavData} {source : Handle → Answer} {e : Engine} {anchor : PageRef}

/-! ## One turn -/

/-- The engine was started on the data, and what it has loaded are answers of the source. -/
structure Serves (data : NavData) (source : Handle → Answer) (e : Engine) : Prop where
  sound : e.Sound data.root
  attested : e.loader.Attested fun h a => a = source h
  index : e.index = .build data.root data.anchors data.bootstrap

theorem serves_start (data : NavData) (settings : Settings) (remembered : Option Bool) (source : Handle → Answer) :
    (start data settings remembered).Serves data source where
  sound := (Desk.start_sound data settings remembered).engine
  attested := Loader.attested_empty _
  index := rfl

/-- The plan of the anchor has ended as the anchor resolves; if it has found a path, the tree has the node there. -/
structure Located (data : NavData) (source : Handle → Answer) (anchor : PageRef) (e : Engine) (ending : Ending) :
    Prop where
  serves : e.Serves data source
  resolved : ∃ x, (Request.plan anchor).resolved? data source = some x ∧ ending = x.map .located ∧
    ∀ p, x = .ok p → ∃ n, e.tree.at? p = some n

theorem Turns.located {turn : Turn} {x : Option (Except ResolveError TreePath)}
    {staged : List (TreePath × List Node)} (he : e.Serves data source)
    (h : Turns (fun h a => a = source h) data.root e (.plan anchor) (some .locate) turn x)
    (hw : Writes e.tree (some (.plan anchor)) turn.engine turn.ending? x staged) :
    turn.engine.Serves data source ∧
      ∀ ending, turn.progress = .ended ending → Located data source anchor turn.engine ending := by
  have hg := h.grows he.sound
  have hserves : turn.engine.Serves data source :=
    ⟨hg.sound he.sound, hg.moves.attested he.attested, hg.index.trans he.index⟩
  refine ⟨hserves, fun ending hend => ⟨hserves, ?_⟩⟩
  cases x with
  | none =>
    obtain ⟨path, hpath⟩ := h.untold hend
    cases hpath
  | some x =>
    -- No ticket is taken for a plan.
    have hpurpose : (Request.plan anchor).purpose? 0 = some .locate := rfl
    rw [← hpurpose] at h
    obtain ⟨hfound, ending', hend', htells⟩ := h.told
    obtain rfl : ending' = ending := by simpa [hend] using hend'.symm
    refine ⟨x, hfound.resolved hserves.attested hserves.index, ?_, ?_⟩
    · cases x with
      | error err => exact htells
      | ok p => exact htells
    · rintro p rfl
      exact hw.arrived

/-! ## All turns -/

theorem settle_plan (he : e.Serves data source) {t : Task} (hw : e.Waits data.root (.plan anchor) t) (ha : t.Above)
    (hp : t.purpose? = some .locate) :
    ∃ e' ending, settle (m := Id) source e t = (e', ending) ∧ Located data source anchor e' ending := by
  -- By how much of the task remains: every answer brings it closer to its end.
  induction hn : t.remaining using Nat.strong_induction_on generalizing e t with
  | _ n ih =>
    subst hn
    have hmay : ∀ a, some (source t.handle) = some a → a = source t.handle := fun a h => (Option.some.inj h).symm
    have hturn : Turns (fun h a => a = source h) data.root e (.plan anchor) t.purpose?
        (e.run t (some (source t.handle))) (e.plannedAgain? t (some (source t.handle))) :=
      run_turns he.sound hw _ hmay
    have hwrites := @run_writes _ _ _ (fun h a => a = source h) he.sound t hw ha (some (source t.handle)) hmay
    rw [hp] at hturn
    obtain ⟨hserves, hlocated⟩ := hturn.located he hwrites
    rw [settle_eq]
    simp only [bind, pure]
    cases hend : (e.run t (some (source t.handle))).progress with
    | ended ending => exact ⟨_, ending, rfl, hlocated ending hend⟩
    | waiting t' =>
      obtain ⟨hw', hp'⟩ := hturn.waiting hend
      exact ih _ (remaining_of_run hend) hserves hw' (run_above ha hend hw hw') hp' rfl

/-- A plan that is carried out ends as its anchor resolves. -/
theorem perform_plan (he : e.Serves data source) (anchor : PageRef) :
    ∃ e' ending, e.perform (m := Id) source (.plan anchor) = (e', ending) ∧
      Located data source anchor e' ending := by
  have hturn : Turns (fun h a => a = source h) data.root e (.plan anchor) (some .locate) (e.begin (.plan anchor))
      (e.planned? (.plan anchor)) := beginPlan_turns he.sound rfl e.view
  obtain ⟨hserves, hlocated⟩ := hturn.located he (begin_writes he.sound (.plan anchor))
  rw [perform]
  simp only [pure]
  cases hend : (e.begin (.plan anchor)).progress with
  | ended ending => exact ⟨_, ending, rfl, hlocated ending hend⟩
  | waiting t =>
    obtain ⟨hw, hp⟩ := hturn.waiting hend
    exact settle_plan hserves hw (begin_above he.sound hend) hp

/-! ## A source that is asked -/

section
variable {σ : Type} {fetch : Handle → StateM σ Answer} {s : σ}

theorem settle_asks (h : ∀ k, fetch k s = (source k, s)) (e : Engine) (t : Task) :
    settle fetch e t s = (settle (m := Id) source e t, s) := by
  induction hn : t.remaining using Nat.strong_induction_on generalizing e t with
  | _ n ih =>
    subst hn
    rw [settle_eq, settle_eq]
    simp only [bind, StateT.bind, pure, h]
    cases hend : (e.run t (some (source t.handle))).progress with
    | ended ending => rfl
    | waiting t' => exact ih _ (remaining_of_run hend) _ t' rfl

/-- Where asking changes nothing, a request is carried out as if all answers were at hand. -/
theorem perform_asks (h : ∀ k, fetch k s = (source k, s)) (e : Engine) (r : Request) :
    e.perform fetch r s = (e.perform (m := Id) source r, s) := by
  rw [perform, perform]
  cases (e.begin r).progress with
  | ended ending => rfl
  | waiting t => exact settle_asks h _ t

end

end Engine
end DocNav
