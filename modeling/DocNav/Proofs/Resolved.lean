import DocNav.Proofs.Resolution
import DocNav.Proofs.Writes
/-!
# What was found stays found

A plan that has found a node has opened the way to it, and nothing closes it again. So another plan of the same
anchor walks through inline nodes only: it ends in its first turn, begins no fetch and has nothing to put in place.

The invariant is `Engine.Resolved`, which every growth of the engine keeps (`Resolved.grow`) and from which the walk
is settled (`Plan.walk_of_at?`). Main result: `stays_resolved`.
-/

namespace DocNav

/-! ## Walking through a tree that has the node -/

/-- Where the tree has the node to which the links lead, the walk goes there and stages nothing. -/
theorem Plan.walk_of_at? {K : Fragments} {n m : Node} {links : Chain} {p : TreePath} (h : Follows K n links p m)
    {T c d : Node} {s : Spot} (hn : Unfolds K n c) (hs : T.at? s.path = some c) (hapart : s.detached = none)
    (hp : c.at? p = some d) (anchor : PageRef) (l : Loader) :
    walk T anchor links s l = (.arrived (s.path ++ p) s.staged, l) := by
  induction h generalizing c s with
  | here n => simp [walk]
  | @down n child m link links i p hi hchild _ ih =>
    -- The node that is reached has a child in the tree, so its children are those of the hierarchy.
    rw [Node.at?_cons] at hp
    obtain ⟨x, hx, hp⟩ := Option.bind_eq_some_iff.1 hp
    obtain ⟨lb, k, cs, rfl⟩ := Node.inline_of_child hx
    have hcs : UnfoldsAll K (n.childrenIn K) cs := hn.children rfl
    obtain ⟨y, hy, hyx⟩ := hcs.getElem? hchild
    obtain rfl : y = x := Option.some.inj (hy.symm.trans hx)
    have hindex : childIndex? cs link = some i := by
      rw [childIndex?_of_links (hcs.map_eq Unfolds.link_eq) link, hi]
    have hnext : T.at? (s.path ++ [i]) = some y := by
      rw [Node.at?_append, hs, Option.bind_some, Node.at?_cons, hx]
      rfl
    have hdescend : s.descend anchor link cs s.detached.isSome = .ok { s with path := s.path ++ [i] } := by
      simp [Spot.descend, hindex, hapart]
    have hnode : s.node T = .ok (.inline lb k cs) := by
      simp [Spot.node, hapart, Node.find, hs]
    simp only [walk, hnode, Node.handle?, Node.children, Node.inlineChildren?, Option.getD_some, hdescend]
    have hrest := ih hyx (s := { s with path := s.path ++ [i] }) hnext hapart hp
    rw [hrest, List.append_assoc, List.singleton_append]

namespace Engine

variable {may : Handle → Answer → Prop} {R : Node} {e e' : Engine} {anchor : PageRef} {p : TreePath}

/-! ## An anchor whose way is open -/

/-- The chain of the anchor leads to the path, and the tree has the node there. -/
inductive Resolved (R : Node) (e : Engine) (anchor : PageRef) (p : TreePath) : Prop
  | leads {chain : Chain} {n d : Node} : e.index.resolve anchor = .ok chain →
      Follows e.loader.fragment? R (chainBelow R chain) p n → e.tree.at? p = some d → Resolved R e anchor p

theorem Resolved.grow (hs : e.Sound R) (hg : e.Grows may e') (h : e.Resolved R anchor p) :
    e'.Resolved R anchor p := by
  cases h with
  | leads hchain hf hat =>
    obtain ⟨d', hat', -⟩ := hg.tree.at? hat
    exact .leads (hg.index ▸ hchain) (hf.of_sub (hg.sub hs)) hat'

/-- What a plan of the anchor has found where the tree has a node is such a path. -/
theorem Found.resolved_of_at? {r : Request} (hr : r = .plan anchor ∨ r = .navigate anchor) (h : e.Found R r (.ok p))
    {d : Node} (hd : e.tree.at? p = some d) : e.Resolved R anchor p := by
  have hsought : r.sought? e.index = some (anchor, e.index.resolve anchor) := by
    rcases hr with rfl | rfl <;> rfl
  cases h with
  | walked hsought' hf =>
    obtain ⟨rfl, hchain⟩ := Prod.mk.inj (Option.some.inj (hsought.symm.trans hsought'))
    cases hf with
    | node hfollows => exact .leads hchain hfollows hd

/-- A plan of the anchor lands at once, and all that it can change is the view. -/
theorem Resolved.beginPlan (hs : e.Sound R) (h : e.Resolved R anchor p) (purpose : Purpose) (v : View) :
    { e with view := v }.beginPlan purpose anchor (e.index.resolve anchor) = { e with view := v }.land purpose p := by
  cases h with
  | leads hchain hf hat =>
    have hwalk := Plan.walk_of_at? hf hs.tree (s := {}) rfl rfl hat anchor e.loader
    rw [hchain]
    simp only [Engine.beginPlan, hs.tree.chainBelow_eq, hwalk]
    rfl

theorem Resolved.plan (hs : e.Sound R) (h : e.Resolved R anchor p) :
    e.begin (.plan anchor) = { engine := e, progress := .ended (.ok (.located p)) } :=
  h.beginPlan hs .locate e.view

/-- The newest navigation is the one that begins, so its node is revealed. -/
theorem Resolved.navigate (hs : e.Sound R) (h : e.Resolved R anchor p) :
    (e.begin (.navigate anchor)).engine = { e with view := (e.begin (.navigate anchor)).engine.view } ∧
      (e.begin (.navigate anchor)).progress = .ended (.ok (.landed (.revealed p))) := by
  have hland := h.beginPlan hs (.deepLink anchor e.view.begin.1) e.view.begin.2
  have hbegin : e.begin (.navigate anchor) =
      { e with view := e.view.begin.2 }.land (.deepLink anchor e.view.begin.1) p := hland
  rw [hbegin]
  refine ⟨land_engine _ _ p, ?_⟩
  simp [land, View.completeDeepLink, View.isCurrent, View.begin]

end Engine

/-! ## Runs -/

namespace Desk

/-- Once a plan of an anchor has found a path, be it on its own or for a deep link, the path is found at once ever
after, whatever happens meanwhile and whatever the source says: a plan of the anchor waits for nothing, begins no
fetch and leaves the tree as it is. And the node at the path keeps its label and its link. -/
theorem stays_resolved (data : NavData) (settings : Settings) (remembered : Option Bool) (events : List Event)
    (ev : Event) (later : List Event) {anchor : PageRef} {p : TreePath}
    (hr : (((start data settings remembered).after events).step ev).2.request = some (.plan anchor) ∨
      (((start data settings remembered).after events).step ev).2.request = some (.navigate anchor))
    (hp : (((start data settings remembered).after events).step ev).2.planned = some (.ok p)) :
    let d := (((start data settings remembered).after events).step ev).1
    let e := (d.after later).engine
    e.begin (.plan anchor) = { engine := e, progress := .ended (.ok (.located p)) } ∧
    ((e.begin (.navigate anchor)).engine = { e with view := (e.begin (.navigate anchor)).engine.view } ∧
      (e.begin (.navigate anchor)).progress = .ended (.ok (.landed (.revealed p)))) ∧
    ∃ n m, d.engine.tree.find p = .ok n ∧ e.tree.find p = .ok m ∧ m.label = n.label ∧ m.link = n.link := by
  intro d e
  obtain ⟨hsound, habove⟩ := after_start data settings remembered events
  have hd : d.Sound data.root := (step_sound hsound ev).2
  -- The plan has arrived, so the tree has its node from then on.
  have hwrites := step_writes hsound habove ev
  rw [hp] at hwrites
  obtain ⟨n, hn⟩ := hwrites.arrived
  obtain ⟨r, -, hrequest, hfound, -⟩ := (step_told hsound ev).planned _ hp
  have hplan : r = .plan anchor ∨ r = .navigate anchor := by
    simpa only [hrequest, Option.some.injEq] using hr
  have hresolved : d.engine.Resolved data.root anchor p := hfound.resolved_of_at? hplan hn
  obtain ⟨hg, he⟩ := after_sound hd later
  have hlater : e.Resolved data.root anchor p := hresolved.grow hd.engine hg
  obtain ⟨m, hm, hnm⟩ := hg.tree.at? hn
  refine ⟨hlater.plan he.engine, hlater.navigate he.engine, n, m, ?_, ?_, hnm.label_eq, hnm.link_eq⟩
  · simp [Node.find, hn, d]
  · simp [Node.find, hm, e]

/-- A deep link leads to a deferred node, which then cannot be expanded since its fragment cannot be loaded. -/
theorem stays_resolved_beside_a_failure :
    let anchor : PageRef := ⟨"a.html"⟩
    let data : NavData :=
      { root := .inline "Main" none [.deferred "Files" ⟨"files.html"⟩ ⟨"files"⟩]
        anchors := ⟨[(anchor, [⟨"files.html"⟩, anchor])]⟩ }
    let now : Handle → Option Answer := fun _ => some (.ok [.leaf "b" none, .deferred "a" anchor ⟨"a"⟩])
    let fails : Handle → Option Answer := fun _ => some (.error { kind := .other })
    let found := ((start data {} none).after [.begin (.navigate anchor)]).step (.run 0 now)
    let e := (found.1.after [.begin (.expand [0, 1]), .run 2 fails]).engine
    found.2.request = some (.navigate anchor) ∧ found.2.planned = some (.ok [0, 1]) ∧
      e.begin (.plan anchor) = { engine := e, progress := .ended (.ok (.located [0, 1])) } := by
  intro anchor data now fails found e
  have hr : found.2.request = some (.navigate anchor) := by rfl
  have hp : found.2.planned = some (.ok [0, 1]) := by rfl
  exact ⟨hr, hp, (stays_resolved data {} none _ (.run 0 now) _ (.inr hr) hp).1⟩

end Desk
end DocNav
