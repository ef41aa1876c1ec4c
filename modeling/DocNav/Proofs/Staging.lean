import DocNav.Proofs.Opening
import DocNav.Proofs.Walks
/-!
# What a plan stages

A plan that goes into a fragment stages it for the node that it passes, and then stands below that node. So
whatever it has staged belongs above the spot that it has reached (`walk_above`, `resume_above`), and putting it
into the tree opens the nodes above the plan's path, no matter which of them others have opened meanwhile
(`Stages.openAbove`).
-/

namespace DocNav
namespace Plan

/-- Every fragment is staged for a node above the path. -/
def StagedAbove (staged : List (TreePath × List Node)) (p : TreePath) : Prop :=
  ∀ s ∈ staged, s.1 ∈ TreePath.above p

/-- What a plan that has come this far puts into the tree. -/
def Progress.staged : Progress → List (TreePath × List Node)
  | .arrived _ staged => staged
  | .failed _ | .waiting _ => []

/-- However far a plan has come, it has staged only above. -/
def Progress.Above : Progress → Prop
  | .arrived p staged => StagedAbove staged p
  | .waiting w => StagedAbove w.spot.staged w.spot.path
  | .failed _ => True

/-! ## A turn of a plan stages above -/

section
variable {s s' : Spot} {anchor link : PageRef}

theorem stagedAbove_start : StagedAbove ({} : Spot).staged ({} : Spot).path := nofun

theorem StagedAbove.snoc {staged : List (TreePath × List Node)} {p : TreePath} (h : StagedAbove staged p) (i : Nat) :
    StagedAbove staged (p ++ [i]) := fun x hx => (TreePath.mem_above_snoc i).2 (.inl (h x hx))

theorem descend_above {children : List Node} {apart : Bool} (hs : StagedAbove s.staged s.path)
    (h : s.descend anchor link children apart = .ok s') : StagedAbove s'.staged s'.path := by
  unfold Spot.descend at h
  split at h
  · cases h
  · rename_i i _
    cases h
    exact hs.snoc i

theorem enter_above {fragment : List Node} (hs : StagedAbove s.staged s.path)
    (h : s.enter anchor link fragment = .ok s') : StagedAbove s'.staged s'.path := by
  unfold Spot.enter Spot.descend at h
  split at h
  · cases h
  · rename_i i _
    cases h
    intro x hx
    rcases List.mem_append.1 hx with hx | hx
    · exact hs.snoc i x hx
    · rw [List.mem_singleton.1 hx]
      exact (TreePath.mem_above_snoc i).2 (.inr rfl)

theorem walk_above {root : Node} {rest : Chain} {l : Loader} (hs : StagedAbove s.staged s.path) :
    (walk root anchor rest s l).1.Above := by
  induction rest generalizing s l with
  | nil => exact hs
  | cons link rest ih =>
    simp only [walk]
    split
    · trivial
    · split
      · split
        · trivial
        · rename_i hd
          exact ih (descend_above hs hd)
      · split
        · exact hs
        · trivial
        · split
          · trivial
          · rename_i he
            exact ih (enter_above hs he)

theorem resume_above {root : Node} {w : Waiting} {o : Outcome} {l : Loader}
    (hs : StagedAbove w.spot.staged w.spot.path) : (resume root w o l).1.Above := by
  unfold resume
  split
  · trivial
  · split
    · trivial
    · rename_i he
      exact walk_above (enter_above hs he)

end

/-! ## Putting it into the tree -/

section
variable {K : Fragments} {R T T' : Node} {staged : List (TreePath × List Node)} {p : TreePath}

/-- Where a staged fragment fits, putting it in place opens the node. -/
theorem fill_eq_openAt (hT : Unfolds K R T) {s : TreePath × List Node} (hs : Fits K R s) {c : Node}
    (hc : T.at? s.1 = some c) : T.modifyAt (Node.fill s.2) s.1 = T.openAt K s.1 := by
  refine Node.modifyAt_congr hc ?_
  cases hd : c.isDeferred with
  | false => rw [Node.fill_of_not_deferred hd, Node.opened_of_not_deferred hd]
  | true =>
    -- The node is deferred as in the hierarchy, so the fragment is that of its handle.
    obtain ⟨n, h, hn, hh, hK⟩ := hs
    obtain ⟨n', hn', hnc⟩ := hT.atIn? hc
    obtain rfl := hnc.eq_of_deferred hd
    obtain rfl : c = n := Option.some.inj (hn'.symm.trans hn)
    cases c with
    | deferred l k h' =>
      cases hh
      simp [Node.fill, Node.opened, hK]
    | _ => cases hh

/-- Putting fragments into the tree that are staged above a path leaves the same to open there. -/
theorem commit_openAbove (hT : Unfolds K R T) (hfits : ∀ s ∈ staged, Fits K R s) (habove : StagedAbove staged p)
    (h : commit T staged = .ok T') : T'.openAbove K p = T.openAbove K p := by
  induction staged generalizing T with
  | nil =>
    cases h
    rfl
  | cons s staged ih =>
    obtain ⟨c, hc, hr⟩ := commit_cons_ok h
    have hs := hfits s List.mem_cons_self
    have hfill := (fill_unfolds hT (.refl K T) hs hc).1
    rw [ih (hT.trans hfill) (fun x hx => hfits x (List.mem_cons_of_mem s hx))
      (fun x hx => habove x (List.mem_cons_of_mem s hx)) hr, fill_eq_openAt hT hs hc,
      Node.openAbove_openAt (habove s List.mem_cons_self)]

/-- With its staged fragments a plan that has arrived opens the nodes above its path. -/
theorem Stages.openAbove (h : Stages K R T staged p) (hT : Unfolds K R T) (habove : StagedAbove staged p) :
    Plan.commit T staged = .ok (T.openAbove K p) ∧ ∃ c, (T.openAbove K p).at? p = some c := by
  obtain ⟨T', c, hT', -, hc⟩ := h.commit hT
  obtain rfl : T' = T.openAbove K p := by
    rw [← commit_openAbove hT h.fits habove hT', Node.openAbove_of_at? hc]
  exact ⟨hT', c, hc⟩

/-- Whichever fragment it has come to, putting fragments into the tree finds its node there, and a node that is
still deferred takes it. -/
theorem commit_step {before behind : List (TreePath × List Node)} {s : TreePath × List Node}
    (h : commit T (before ++ s :: behind) = .ok T') :
    ∃ U c, commit T before = .ok U ∧ U.at? s.1 = some c ∧
      (c.isDeferred = true → ∃ U', U.materialize s.1 s.2 = .ok U') := by
  induction before generalizing T with
  | nil =>
    obtain ⟨c, hc, -⟩ := commit_cons_ok h
    exact ⟨T, c, rfl, hc, fun hd => by simp [Node.materialize, hc, hd]⟩
  | cons b before ih =>
    obtain ⟨d, hd, hr⟩ := commit_cons_ok h
    obtain ⟨U, c, hU, hc⟩ := ih hr
    exact ⟨U, c, by rw [commit_cons hd, hU], hc⟩

end

end Plan
end DocNav
