import DocNav.Engine
/-!
# What requests leave alone

Whatever is asked of an engine and whatever its source answers, three things in its view stay: the mode, the labels
of the toggle and whether anyone listens. This holds of every engine and every task, not only of those that a run
can reach, so it needs no invariant. Main results: `begin_leaves` and `run_leaves`.
-/

namespace DocNav

/-- The second view has the mode, the labels and the listener of the first. -/
structure View.Leaves (v w : View) : Prop where
  mode : w.mode = v.mode
  labels : w.labels = v.labels
  listening : w.listening = v.listening

namespace View

variable {v w x : View}

theorem Leaves.refl (v : View) : v.Leaves v := ⟨rfl, rfl, rfl⟩

theorem Leaves.trans (h : v.Leaves w) (h' : w.Leaves x) : v.Leaves x :=
  ⟨h'.mode.trans h.mode, h'.labels.trans h.labels, h'.listening.trans h.listening⟩

/-- What reaches the panes depends on the listener alone. -/
theorem Leaves.send (h : v.Leaves w) (c : Command) : w.send c = v.send c := by
  simp [View.send, h.listening]

theorem begin_leaves (v : View) : v.Leaves v.begin.2 := ⟨rfl, rfl, rfl⟩

theorem reveal_leaves (v : View) (p : TreePath) : v.Leaves (v.reveal p).1 := ⟨rfl, rfl, rfl⟩

theorem expand_leaves (v : View) (p : TreePath) : v.Leaves (v.expand p).1 := ⟨rfl, rfl, rfl⟩

theorem select_leaves (v : View) (p : TreePath) (link : Option PageRef) : v.Leaves (v.select p link).1 :=
  ⟨rfl, rfl, rfl⟩

theorem collapse_leaves (v : View) (p : TreePath) : v.Leaves (v.collapse p).2 := ⟨rfl, rfl, rfl⟩

theorem completeInbound_leaves (v : View) (t : Ticket) (p : TreePath) : v.Leaves (v.completeInbound t p).2.1 := by
  unfold completeInbound
  split
  · exact .refl v
  · split
    · exact .refl v
    · exact v.reveal_leaves p

theorem completeDeepLink_leaves (v : View) (t : Ticket) (anchor : PageRef) (p : TreePath) :
    v.Leaves (v.completeDeepLink t anchor p).2.1 := by
  unfold completeDeepLink
  split
  · exact .refl v
  · exact v.reveal_leaves p

end View

namespace Engine

/-! ## The parts of a turn -/

theorem land_leaves (e : Engine) (purpose : Purpose) (p : TreePath) :
    e.view.Leaves (e.land purpose p).engine.view := by
  cases purpose with
  | locate => exact .refl _
  | deepLink anchor ticket => exact e.view.completeDeepLink_leaves ticket anchor p
  | inbound ticket => exact e.view.completeInbound_leaves ticket p

theorem advance_leaves (e : Engine) (purpose : Purpose) (x : Plan.Progress × Loader) :
    e.view.Leaves (e.advance purpose x).engine.view := by
  obtain ⟨p, loader⟩ := x
  cases p with
  | waiting w => exact .refl _
  | failed err => exact .refl _
  | arrived path staged =>
    simp only [advance]
    split
    · exact .refl _
    · rename_i tree _
      exact land_leaves { e with tree, loader } purpose path

theorem beginPlan_leaves (e : Engine) (purpose : Purpose) (anchor : PageRef) (found : Except UnknownAnchor Chain) :
    e.view.Leaves (e.beginPlan purpose anchor found).engine.view := by
  cases found with
  | error err => exact .refl _
  | ok chain => exact advance_leaves e purpose _

theorem openNode_leaves (e : Engine) (path : TreePath) : e.view.Leaves (e.openNode path).engine.view := by
  unfold openNode
  split
  · exact .refl _
  · split
    · exact .refl _
    · exact e.view.expand_leaves path

theorem finishExpand_leaves (e : Engine) (path : TreePath) (o : Outcome) :
    e.view.Leaves (e.finishExpand path o).engine.view := by
  cases o with
  | error err => exact .refl _
  | ok fragment =>
    simp only [finishExpand]
    split
    · exact .refl _
    · rename_i tree _
      exact openNode_leaves { e with tree } path

theorem beginExpand_leaves (e : Engine) (path : TreePath) : e.view.Leaves (e.beginExpand path).engine.view := by
  unfold beginExpand
  split
  · exact .refl _
  · split
    · exact openNode_leaves e path
    · simp only
      split
      · exact .refl _
      · rename_i o loader _
        exact finishExpand_leaves { e with loader } path o

/-! ## Turns -/

theorem begin_leaves (e : Engine) (r : Request) : e.view.Leaves (e.begin r).engine.view := by
  cases r with
  | plan anchor => exact beginPlan_leaves e _ _ _
  | planPage anchor => exact beginPlan_leaves e _ _ _
  | navigate anchor => exact e.view.begin_leaves.trans (beginPlan_leaves { e with view := e.view.begin.2 } _ _ _)
  | follow page =>
    simp only [begin]
    split
    · exact e.view.begin_leaves.trans (beginPlan_leaves { e with view := e.view.begin.2 } _ _ _)
    · exact .refl _
  | expand path => exact beginExpand_leaves e path

theorem run_leaves (e : Engine) (t : Task) (answer : Option Answer) :
    e.view.Leaves (e.run t answer).engine.view := by
  unfold run
  split
  · exact .refl _
  · rename_i o loader _
    cases t with
    | planning purpose w => exact advance_leaves { e with loader } purpose _
    | expanding path handle fetch => exact finishExpand_leaves { e with loader } path o

end Engine
end DocNav
