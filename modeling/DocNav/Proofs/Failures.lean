import DocNav.Proofs.Loads
/-!
# Failed fetches

A fetch that fails leaves the cache in the very step in which it fails, so whoever asks for its handle from then on
starts anew. Loads that joined it get its error whenever they are run again, and they find nothing to evict then:
what is cached for the handle by that time is another fetch.

Main result: `failures_are_shared_and_evicted_once`.
-/

namespace DocNav

namespace Loader

variable {may : Handle → Answer → Prop} {l l' : Loader} {h : Handle} {id : FetchId}

/-! ## What is cached -/

theorem Sound.isCached_iff (hl : l.Sound) (h : Handle) :
    l.isCached h = true ↔ ∃ f ∈ l.fetches, f.handle = h ∧ (f.inFlight = true ∨ f.fragment?.isSome) := by
  -- A fetch that has not failed is in flight or has brought a fragment.
  have hstate : ∀ f : Fetch, f.hasFailed = false ↔ f.inFlight = true ∨ f.fragment?.isSome := by
    rintro ⟨_, _ | _ | _⟩ <;> simp [Fetch.hasFailed, Fetch.inFlight, Fetch.fragment?]
  rw [isCached, Option.isSome_iff_exists]
  constructor
  · rintro ⟨id, hid⟩
    obtain ⟨f, hf, hh, hn⟩ := (hl h id).1 hid
    exact ⟨f, List.mem_of_getElem? hf, hh, (hstate f).1 hn⟩
  · rintro ⟨f, hf, hh, hn⟩
    obtain ⟨id, hid⟩ := List.getElem?_of_mem hf
    exact ⟨id, (hl h id).2 ⟨f, hid, hh, (hstate f).2 hn⟩⟩

/-! ## The newest fetch of a handle -/

/-- Of the fetches of a handle, all but the newest have failed. -/
def Retries (l : Loader) : Prop :=
  ∀ (i j : Nat) (f g : Fetch), i < j → l.fetches[i]? = some f → l.fetches[j]? = some g → f.handle = g.handle →
    f.hasFailed = true

/-- Fetch `id` is the newest of the handle. -/
def Newest (l : Loader) (h : Handle) (id : FetchId) : Prop := l.Holds h id ∧ ∀ j, l.Holds h j → j ≤ id

theorem retries_empty : ({} : Loader).Retries := by
  intro i j f g _ hf
  simp at hf

theorem retries_started (hl : l.Sound) (hr : l.Retries) (hc : l.cache.lookup h = none) : (l.started h).Retries := by
  intro i j f g hij hf hg hfg
  rw [getElem?_started] at hf hg
  have hi : i ≠ l.fetches.length := by
    rintro rfl
    rw [if_neg (by omega), List.getElem?_eq_none (by omega)] at hg
    cases hg
  rw [if_neg hi] at hf
  split at hg
  · -- The fetch was started as none of the handle that has not failed was there.
    cases hg
    by_contra hn
    have hcached := (hl h i).2 ⟨f, hf, hfg, by simpa using hn⟩
    rw [hc] at hcached
    cases hcached
  · exact hr i j f g hij hf hg hfg

theorem retries_answered {a : Answer} (hr : l.Retries) (hid : l.fetches[id]? = some { handle := h }) :
    (l.answered h id a).Retries := by
  intro i j f g hij hf hg hfg
  rw [fetches_answered hid] at hf hg
  -- The answered fetch has kept its handle, so it is the newest as before.
  obtain ⟨g', hg', hgg⟩ : ∃ g', l.fetches[j]? = some g' ∧ g'.handle = g.handle := by
    rw [List.getElem?_set] at hg
    grind
  by_cases hi : id = i
  · subst hi
    have hfailed := hr id j _ g' hij hid hg' (by grind)
    simp [Fetch.hasFailed] at hfailed
  · rw [List.getElem?_set_ne hi] at hf
    exact hr i j f g' hij hf hg' (hfg.trans hgg.symm)

theorem Moves.retries (hl : l.Sound) (hr : l.Retries) (hm : Moves may l l') : l'.Retries := by
  induction hm with
  | refl => exact hr
  | @tail b c hab hbc ih =>
    have hb : b.Sound := Moves.sound hl hab
    cases hbc with
    | start hc => exact retries_started hb ih hc
    | answer hf _ => exact retries_answered ih hf

/-- Where the newest fetch has failed, nothing is cached. -/
theorem Newest.uncached (hl : l.Sound) (hr : l.Retries) (hn : l.Newest h id) {e : LoadError}
    (ho : l.outcome? id = some (.error e)) : l.cache.lookup h = none := by
  obtain ⟨hh, hnewest⟩ := hn
  have hid := fetch_of_holds hh
  cases hc : l.cache.lookup h with
  | none => rfl
  | some i =>
    obtain ⟨f, hf, hfh, hok⟩ := (hl h i).1 hc
    have hi : i ≤ id := hnewest i (by simp [Holds, hf, hfh])
    have hfailed : f.hasFailed = true := by
      rcases Nat.lt_or_eq_of_le hi with hlt | rfl
      · exact hr i id f _ hlt hf hid hfh
      · rw [hid, ho] at hf
        cases hf
        rfl
    rw [hok] at hfailed
    cases hfailed

end Loader

namespace Waiters

/-! ## The loads that were called -/

/-- The load that a call for the handle makes: it joins the fetch that is cached, or the one that it starts. -/
def called (w : Waiters) (h : Handle) : Load := ⟨h, (w.loader.cache.lookup h).getD w.loader.fetches.length⟩

/-- The loads called at events, each with the fetch that was cached for its handle at that moment. -/
def calledIn (w : Waiters) : List LoadEvent → List Load
  | [] => []
  | .load h :: events => w.called h :: (w.step (.load h)).calledIn events
  | .resume n now :: events => (w.step (.resume n now)).calledIn events

/-- All loads, those that wait and those that have returned. -/
def loads (w : Waiters) : List Load := w.waiting ++ w.returned.map Prod.fst

theorem join_fst (w : Waiters) (h : Handle) : (w.loader.join h).1 = (w.called h).fetch := by
  unfold Loader.join called
  cases w.loader.cache.lookup h <;> rfl

theorem loads_load (w : Waiters) (h : Handle) : (w.step (.load h)).loads.Perm (w.called h :: w.loads) := by
  have hid := join_fst w h
  simp only [step]
  generalize w.loader.join h = j at *
  obtain ⟨id, l⟩ := j
  have hcalled : (⟨h, id⟩ : Load) = w.called h := by rw [show id = _ from hid]; rfl
  split
  · rw [loads, hcalled, loads, List.append_assoc]
    exact List.perm_middle
  · rw [loads, List.map_append, ← List.append_assoc, loads, List.map_singleton, hcalled]
    exact List.perm_append_comm

theorem loads_resume (w : Waiters) (n : Nat) (now : Option Answer) : (w.step (.resume n now)).loads.Perm w.loads := by
  simp only [step]
  split
  · exact .refl _
  · rename_i x hx
    split
    · exact .refl _
    · -- The load goes from those that wait to those that have returned.
      obtain ⟨hn, rfl⟩ := List.getElem?_eq_some_iff.1 hx
      have hwait : (w.waiting[n] :: w.waiting.eraseIdx n).Perm w.waiting := List.getElem_cons_eraseIdx_perm hn
      rw [loads, List.map_append, ← List.append_assoc, List.map_singleton]
      exact List.perm_append_comm.trans (hwait.append_right _)

theorem loads_after (w : Waiters) (events : List LoadEvent) :
    (w.after events).loads.Perm (w.loads ++ w.calledIn events) := by
  induction events generalizing w with
  | nil => simp [after, calledIn]
  | cons ev events ih =>
    have hrest := ih (w.step ev)
    cases ev with
    | load h =>
      refine hrest.trans (((loads_load w h).append_right _).trans ?_)
      exact List.perm_middle.symm
    | resume n now => exact hrest.trans ((loads_resume w n now).append_right _)

/-! ## Runs -/

/-- A waiter of a fetch that has ended gets its outcome, whatever the source says by then. -/
theorem resume_ended {w : Waiters} (hw : w.Sound) {n : Nat} {x : Load} (hx : w.waiting[n]? = some x) {o : Outcome}
    (ho : w.loader.outcome? x.fetch = some o) (now : Option Answer) :
    w.step (.resume n now) =
      { w with waiting := w.waiting.eraseIdx n, returned := w.returned ++ [(x, o)] } := by
  simp only [step, hx, Loader.poll_ended hw.loader x.handle now ho]

theorem load_uncached {w : Waiters} {h : Handle} (hc : w.loader.cache.lookup h = none) :
    w.step (.load h) =
      { w with loader := w.loader.started h, waiting := w.waiting ++ [w.called h], asked := w.asked ++ [h] } := by
  have hjoin : w.loader.join h = (w.loader.fetches.length, w.loader.started h) := by
    simp [Loader.join, hc, Loader.started]
  have hout : (w.loader.started h).outcome? w.loader.fetches.length = none := by
    simp [Loader.outcome?, Loader.started]
  simp only [step, hjoin, Loader.poll_unanswered h hout, Loader.isCached, hc, called]
  rfl

/-- In every run of loads, for every handle:

* The loads that wait or have returned are those that were called, each with the fetch that was cached for its handle
  when it was called, or which it started. A load that has returned, returned the outcome of its fetch, which is what
  the source's first answer to the fetch conveys. So the loads of one fetch return the same.
* A load called when the newest fetch of the handle has failed starts a new one.
* A load that waits for a fetch that has failed gets its error when it is run again, whatever the source says by
  then, and leaves the fetches and what is cached alone, a newer fetch of the handle included.
* The handle is cached exactly if it has a fetch that is in flight or has brought its fragment, that is one to which
  the source has not answered or has answered with nodes. -/
theorem failures_are_shared_and_evicted_once (events : List LoadEvent) (h : Handle) :
    let w := ({} : Waiters).after events
    let said := ({} : Waiters).answersIn events
    (w.waiting ++ w.returned.map Prod.fst).Perm (({} : Waiters).calledIn events) ∧
    (∀ x o, (x, o) ∈ w.returned → w.loader.fetches[x.fetch]? = some { handle := x.handle, outcome? := some o } ∧
      ∃ a, said.lookup x.fetch = some a ∧ Conveys x.handle a o) ∧
    (∀ x y o o', (x, o) ∈ w.returned → (y, o') ∈ w.returned → x.fetch = y.fetch → o = o') ∧
    (∀ id e, w.loader.Newest h id → w.loader.outcome? id = some (.error e) →
      (w.step (.load h)).loader.fetches = w.loader.fetches ++ [{ handle := h }] ∧
        (w.step (.load h)).asked = w.asked ++ [h] ∧
        (w.step (.load h)).waiting = w.waiting ++ [⟨h, w.loader.fetches.length⟩]) ∧
    (∀ n x e now, w.waiting[n]? = some x → w.loader.outcome? x.fetch = some (.error e) →
      (w.step (.resume n now)).returned = w.returned ++ [(x, .error e)] ∧
        (w.step (.resume n now)).loader = w.loader) ∧
    (w.loader.isCached h = true ↔
      ∃ f ∈ w.loader.fetches, f.handle = h ∧ (f.inFlight = true ∨ f.fragment?.isSome)) ∧
    ∀ id, w.loader.Ended id (said.lookup id) := by
  intro w said
  obtain ⟨hw, hm⟩ : w.Sound ∧ Loader.Moves anything {} w.loader := after_sound sound_start events
  have hr : w.loader.Retries := hm.retries Loader.sound_empty Loader.retries_empty
  have hended : ∀ id, w.loader.Ended id (said.lookup id) := start_ended events
  refine ⟨?_, ?_, ?_, ?_, ?_, hw.loader.isCached_iff h, hended⟩
  · exact loads_after {} events
  · intro x o hx
    exact ⟨hw.returned _ hx, hw.returned_conveys hx (hended x.fetch)⟩
  · intro x y o o' hx hy hxy
    have hfx := hw.returned _ hx
    have hfy := hw.returned _ hy
    rw [← hxy] at hfy
    have hfetch := Option.some.inj (hfx.symm.trans hfy)
    exact Option.some.inj (congrArg Fetch.outcome? hfetch)
  · intro id e hn ho
    have hc := hn.uncached hw.loader hr ho
    rw [load_uncached hc]
    exact ⟨rfl, rfl, by simp [called, hc]⟩
  · intro n x e now hx ho
    rw [resume_ended hw hx ho now]
    exact ⟨rfl, rfl⟩

/-- Two loads wait for a fetch that fails. The handle is asked for again before the second of them goes on, and so is
another one, whose nodes come. -/
theorem late_waiter_leaves_the_retry :
    let h : Handle := ⟨"files"⟩
    let k : Handle := ⟨"annotated"⟩
    let nodes : List Node := [.leaf "a" (some ⟨"a.html"⟩)]
    let e : LoadError := ⟨h, .other, .permanent, "Error"⟩
    let events : List LoadEvent :=
      [.load h, .load h, .resume 0 (some (.error { kind := .other })), .load h, .load k, .resume 2 (some (.ok nodes))]
    let w := ({} : Waiters).after events
    w.waiting = [⟨h, 0⟩, ⟨h, 1⟩] ∧ w.returned = [(⟨h, 0⟩, .error e), (⟨k, 2⟩, .ok nodes)] ∧
      (w.step (.resume 0 none)).returned = w.returned ++ [(⟨h, 0⟩, .error e)] ∧
      (w.step (.resume 0 none)).loader = w.loader ∧ w.loader.isCached h = true ∧ w.loader.isCached k = true ∧
      ∃ a, (({} : Waiters).answersIn events).lookup 2 = some a ∧ Conveys k a (.ok nodes) := by
  intro h k nodes e events w
  have hwait : w.waiting = [⟨h, 0⟩, ⟨h, 1⟩] := by decide +kernel
  have hreturned : w.returned = [(⟨h, 0⟩, .error e), (⟨k, 2⟩, .ok nodes)] := by decide +kernel
  have hfailed : w.loader.outcome? 0 = some (.error e) := by decide +kernel
  have hcached : w.loader.isCached h = true := by decide +kernel
  have hfirst : w.waiting[0]? = some ⟨h, 0⟩ := by rw [hwait]; rfl
  have hlast : (⟨k, 2⟩, .ok nodes) ∈ w.returned := by rw [hreturned]; exact .tail _ (.head _)
  obtain ⟨-, hall, -, -, hlate, -, -⟩ := failures_are_shared_and_evicted_once events h
  obtain ⟨-, -, -, -, -, hcached', -⟩ := failures_are_shared_and_evicted_once events k
  obtain ⟨hfetch, hanswer⟩ := hall ⟨k, 2⟩ (.ok nodes) hlast
  obtain ⟨hagain, hloader⟩ := hlate 0 ⟨h, 0⟩ e none hfirst hfailed
  have hcached' : w.loader.isCached k = true := by
    refine hcached'.2 ⟨_, List.mem_of_getElem? hfetch, rfl, ?_⟩
    exact .inr rfl
  exact ⟨hwait, hreturned, hagain, hloader, hcached, hcached', hanswer⟩

end Waiters
end DocNav
