import DocNav.Proofs.Growth
import DocNav.Proofs.Writes
/-!
# Rounds of loading

What a round of loading does to the tree, where the source answers each handle in one way: every deferred node that
the outline opens is opened, or its fragment cannot be loaded and it is left as it is.
-/

namespace DocNav

/-- The fragments that a source has. -/
def Fragments.ofSource (source : Handle → Answer) : Fragments := fun h => (source h).toOption

namespace Loader

variable {source : Handle → Answer} {l : Loader}

/-- What the loader has got are answers of the source. -/
structure Serves (source : Handle → Answer) (l : Loader) : Prop where
  sound : l.Sound
  attested : l.Attested fun h a => a = source h

theorem serves_empty (source : Handle → Answer) : ({} : Loader).Serves source :=
  ⟨sound_empty, attested_empty _⟩

theorem Serves.moves {l' : Loader} (hl : l.Serves source) (hm : Moves (fun h a => a = source h) l l') :
    l'.Serves source :=
  ⟨hm.sound hl.sound, hm.attested hl.attested⟩

/-- A load gets what the source answers, be it at once or when it is run again. -/
theorem Serves.load (hl : l.Serves source) (h : Handle) : ∃ id l', l.join h = (id, l') ∧ l'.Serves source ∧
    (l'.poll h id none = (some (.ofAnswer h (source h)), l') ∨
      l'.poll h id none = (none, l') ∧
        ∃ l'', l''.Serves source ∧ l'.poll h id (some (source h)) = (some (.ofAnswer h (source h)), l'')) := by
  have hm := join_moves l h
  have hh := holds_join hl.sound h
  have hl' := hl.moves hm.of_silent
  refine ⟨(l.join h).1, (l.join h).2, rfl, hl', ?_⟩
  rcases poll_cases hl'.sound hh none with ⟨o, ho, hp⟩ | ⟨hf, -, hp⟩ | ⟨_, -, hb, -⟩
  · obtain ⟨_, rfl, heq⟩ := hl'.attested _ _ ho o rfl
    exact .inl (heq ▸ hp)
  · exact .inr ⟨hp, _, hl'.moves (.single (.answer hf rfl)), poll_answered _ hf⟩
  · cases hb

end Loader

/-- Why the children of the node cannot be loaded, if they are deferred and the source has none. -/
def Node.loadError? (source : Handle → Answer) (n : Node) : Option LoadError :=
  n.handle?.bind fun h =>
    match source h with
    | .ok _ => none
    | .error e => some { handle := h, kind := e.kind, advice := e.advice, words := e.message }

namespace Engine

variable {source : Handle → Answer} {e : Engine} {p : TreePath} {n : Node}

/-- The engine and the ending after a node was expanded. -/
structure Expanded (source : Handle → Answer) (e : Engine) (p : TreePath) (n : Node) (e' : Engine) (x : Ending) :
    Prop where
  serves : e'.loader.Serves source
  tree : e'.tree = e.tree.openAt (.ofSource source) p
  ending : x = match n.loadError? source with
    | some err => .error (.load err)
    | none => .ok .expanded

theorem openNode_expands (e : Engine) (hn : e.tree.at? p = some n) :
    (e.openNode p).progress = .ended (.ok .expanded) ∧ (e.openNode p).engine.tree = e.tree ∧
      (e.openNode p).engine.loader = e.loader := by
  rw [openNode_engine]
  refine ⟨?_, rfl, rfl⟩
  simp only [openNode, Node.find, hn]
  split <;> rfl

/-- Where the children of the node are known not to be deferred, nothing has to be loaded. -/
theorem openNode_expanded_of_open (hl : e.loader.Serves source) (hn : e.tree.at? p = some n)
    (hd : n.handle? = none) :
    ∃ x, (e.openNode p).progress = .ended x ∧ Expanded source e p n (e.openNode p).engine x := by
  obtain ⟨hprogress, htree, hloader⟩ := openNode_expands e hn
  refine ⟨_, hprogress, hloader ▸ hl, ?_, by simp [Node.loadError?, hd]⟩
  rw [htree, Node.openAt_of_not_deferred hn (Node.isDeferred_eq_false.2 hd)]

theorem finishExpand_expanded (hl : e.loader.Serves source) (hn : e.tree.at? p = some n) {h : Handle}
    (hh : n.handle? = some h) :
    ∃ x, (e.finishExpand p (.ofAnswer h (source h))).progress = .ended x ∧
      Expanded source e p n (e.finishExpand p (.ofAnswer h (source h))).engine x := by
  obtain ⟨l, k, rfl⟩ : ∃ l k, n = .deferred l k h := by
    cases n with
    | deferred l k h' =>
      cases hh
      exact ⟨l, k, rfl⟩
    | _ => cases hh
  cases hs : source h with
  | error err =>
    have hK : Fragments.ofSource source h = none := by simp [Fragments.ofSource, hs, Except.toOption]
    refine ⟨_, rfl, hl, ?_, ?_⟩
    · exact (Node.modifyAt_of_eq hn (by simp [Node.opened, hK])).symm
    · simp [Node.loadError?, Node.handle?, hs]
  | ok fragment =>
    have hK : Fragments.ofSource source h = some fragment := by simp [Fragments.ofSource, hs, Except.toOption]
    have hcommit : Plan.commit e.tree [(p, fragment)] = .ok (e.tree.openAt (.ofSource source) p) := by
      rw [Plan.commit_cons hn, Node.openAt, Node.modifyAt_congr hn (g := Node.opened (.ofSource source))
        (by simp [Node.fill, Node.opened, hK])]
      rfl
    have hat := Node.at?_openAt (K := .ofSource source) hn
    obtain ⟨hprogress, htree, hloader⟩ :=
      openNode_expands { e with tree := e.tree.openAt (.ofSource source) p } hat
    simp only [finishExpand, Outcome.ofAnswer, hcommit]
    refine ⟨_, hprogress, ?_, htree, by simp [Node.loadError?, Node.handle?, hs]⟩
    rw [hloader]
    exact hl

theorem settle_eq {m : Type → Type} [Monad m] (fetch : Handle → m Answer) (e : Engine) (t : Task) :
    settle fetch e t = fetch t.handle >>= fun a =>
      match (e.run t (some a)).progress with
      | .ended ending => pure ((e.run t (some a)).engine, ending)
      | .waiting t' => settle fetch (e.run t (some a)).engine t' := by
  rw [settle]
  congr
  funext a
  split
  next ending h => simp only [h]
  next t' h => simp only [h]

theorem settle_ended {t : Task} {x : Ending} (h : (e.run t (some (source t.handle))).progress = .ended x) :
    settle (m := Id) source e t = ((e.run t (some (source t.handle))).engine, x) := by
  rw [settle_eq]
  simp only [bind, pure, h]

/-- A task that waits for a node's fragment ends with it when the source answers. -/
theorem settle_expanding {l l' : Loader} {h : Handle} {id : FetchId} {x : Ending}
    (hp : l.poll h id (some (source h)) = (some (.ofAnswer h (source h)), l'))
    (hx : ({ e with loader := l' }.finishExpand p (.ofAnswer h (source h))).progress = .ended x) :
    settle (m := Id) source { e with loader := l } (.expanding p h id) =
      (({ e with loader := l' }.finishExpand p (.ofAnswer h (source h))).engine, x) := by
  have hrun : { e with loader := l }.run (.expanding p h id) (some (source h)) =
      { e with loader := l' }.finishExpand p (.ofAnswer h (source h)) := by
    simp only [run, Task.handle, Task.fetch, hp]
  rw [settle_ended (t := .expanding p h id) (by rw [Task.handle, hrun]; exact hx), Task.handle, hrun]

/-- Expanding a node opens it, or ends with the reason why its fragment cannot be loaded. -/
theorem perform_expand (hl : e.loader.Serves source) (hn : e.tree.at? p = some n) :
    ∃ e' x, e.perform (m := Id) source (.expand p) = (e', x) ∧ Expanded source e p n e' x := by
  cases hh : n.handle? with
  | none =>
    obtain ⟨x, hx, hexpanded⟩ := openNode_expanded_of_open hl hn hh
    refine ⟨_, x, ?_, hexpanded⟩
    have hbegin : e.begin (.expand p) = e.openNode p := by simp only [begin, beginExpand, Node.find, hn, hh]
    rw [perform, hbegin, hx]
    rfl
  | some h =>
    obtain ⟨id, l, hj, hserves, hp | ⟨hp, l', hserves', hp'⟩⟩ := hl.load h
    · obtain ⟨x, hx, hexpanded⟩ := finishExpand_expanded (e := { e with loader := l }) hserves hn hh
      refine ⟨_, x, ?_, ⟨hexpanded.serves, hexpanded.tree, hexpanded.ending⟩⟩
      have hbegin : e.begin (.expand p) = { e with loader := l }.finishExpand p (.ofAnswer h (source h)) := by
        simp only [begin, beginExpand, Node.find, hn, hh, hj, hp]
      rw [perform, hbegin, hx]
      rfl
    · obtain ⟨x, hx, hexpanded⟩ := finishExpand_expanded (e := { e with loader := l' }) hserves' hn hh
      refine ⟨_, x, ?_, ⟨hexpanded.serves, hexpanded.tree, hexpanded.ending⟩⟩
      have hbegin : e.begin (.expand p) =
          { engine := { e with loader := l }, progress := .waiting (.expanding p h id) } := by
        simp only [begin, beginExpand, Node.find, hn, hh, hj, hp]
      rw [perform, hbegin]
      exact settle_expanding hp' hx

end Engine

/-- A node and one unfolded from it fail to load for the same reason, if any. -/
theorem Unfolds.loadError?_eq {source : Handle → Answer} {n d : Node} (h : Unfolds (.ofSource source) n d) :
    d.loadError? source = n.loadError? source := by
  cases h with
  | @filled l k h fragment ds hK _ =>
    cases hs : source h with
    | error err => simp [Fragments.ofSource, hs, Except.toOption] at hK
    | ok fragment => simp [Node.loadError?, Node.handle?, hs]
  | _ => rfl

/-- A tree unfolded from another has a node at each path of it. -/
theorem Unfolds.isSome_at? {K : Fragments} {T U : Node} (h : Unfolds K T U) {p : TreePath}
    (hp : (T.at? p).isSome = true) : (U.at? p).isSome = true := by
  obtain ⟨n, hn⟩ := Option.isSome_iff_exists.1 hp
  obtain ⟨d, hd, -⟩ := h.at? hn
  exact Option.isSome_iff_exists.2 ⟨d, hd⟩

/-- A node fails to load where it is deferred and the source has no fragment for it. -/
theorem Node.loadError?_isSome {source : Handle → Answer} {n : Node} :
    (n.loadError? source).isSome = true ↔ ∃ h, n.handle? = some h ∧ Fragments.ofSource source h = none := by
  cases n with
  | deferred l k h =>
    cases hs : source h <;>
      simp [loadError?, handle?, Fragments.ofSource, hs, Except.toOption]
  | _ => simp [loadError?, handle?]

namespace Outline

/-- The warning that loading the node at the path ends with, if it fails. -/
def failure? (source : Handle → Answer) (T : Node) (p : TreePath) : Option (TreePath × ResolveError) :=
  ((T.at? p).bind fun n => n.loadError? source).map fun e => (p, .load e)

variable {source : Handle → Answer} {T U : Node} {p : TreePath} {ps : List TreePath}

theorem failure?_eq (hTU : Unfolds (.ofSource source) T U) (hp : (T.at? p).isSome = true) :
    failure? source U p = failure? source T p := by
  obtain ⟨n, hn⟩ := Option.isSome_iff_exists.1 hp
  obtain ⟨d, hd, hnd⟩ := hTU.at? hn
  simp only [failure?, hn, hd, Option.bind_some, hnd.loadError?_eq]

theorem failure?_isSome : (failure? source T p).isSome = true ↔
    ∃ n h, T.at? p = some n ∧ n.handle? = some h ∧ Fragments.ofSource source h = none := by
  rw [failure?, Option.isSome_map]
  cases hn : T.at? p with
  | none => simp
  | some n => simp [Node.loadError?_isSome]

/-- Opening a node that fails to load changes nothing. -/
theorem openAt_of_failure (h : (failure? source T p).isSome = true) : T.openAt (.ofSource source) p = T := by
  obtain ⟨n, k, hn, hk, hK⟩ := failure?_isSome.1 h
  refine Node.modifyAt_of_eq hn ?_
  cases n with
  | deferred l j h =>
    cases hk
    simp [Node.opened, hK]
  | _ => cases hk

/-- It can be left out. -/
theorem openAll_filter (keep : TreePath → Bool) (hps : ∀ p ∈ ps, (T.at? p).isSome = true)
    (hkeep : ∀ p ∈ ps, keep p = false → (failure? source T p).isSome = true) :
    T.openAll (.ofSource source) (ps.filter keep) = T.openAll (.ofSource source) ps := by
  induction ps generalizing T with
  | nil => rfl
  | cons p ps ih =>
    have hp := hps p List.mem_cons_self
    obtain ⟨n, hn⟩ := Option.isSome_iff_exists.1 hp
    have hunfolds : Unfolds (.ofSource source) T (T.openAt (.ofSource source) p) := .openAt hn
    have htail := ih (T := T.openAt (.ofSource source) p)
      (fun q hq => hunfolds.isSome_at? (hps q (List.mem_cons_of_mem p hq)))
      (fun q hq hk => by
        rw [failure?_eq hunfolds (hps q (List.mem_cons_of_mem p hq))]
        exact hkeep q (List.mem_cons_of_mem p hq) hk)
    cases hk : keep p with
    | true =>
      rw [List.filter_cons_of_pos hk]
      exact htail
    | false =>
      rw [List.filter_cons_of_neg (by simp [hk])]
      rw [openAt_of_failure (hkeep p List.mem_cons_self hk)] at htail
      rw [htail, Node.openAll, Node.openAll, List.foldl_cons,
        openAt_of_failure (hkeep p List.mem_cons_self hk)]

/-! ## Trying the nodes of a round -/

namespace Loaded

variable {x : Loaded}

/-- What came of trying the nodes at the paths, each of which is in the tree. -/
structure Tried (source : Handle → Answer) (x : Loaded) (ps : List TreePath) (y : Loaded) : Prop where
  serves : y.engine.loader.Serves source
  tree : y.engine.tree = x.engine.tree.openAll (.ofSource source) ps
  failed : y.failed = x.failed ++ ps.filterMap (failure? source x.engine.tree)

theorem tryAll_cons (source : Handle → Answer) (x : Loaded) (p : TreePath) (ps : List TreePath) :
    x.tryAll (m := Id) source (p :: ps) =
      match x.engine.perform (m := Id) source (.expand p) with
      | (engine, .ok _) => { x with engine }.tryAll (m := Id) source ps
      | (engine, .error e) => Loaded.tryAll (m := Id) source { engine, failed := x.failed ++ [(p, e)] } ps :=
  rfl

theorem tryAll_tried (hl : x.engine.loader.Serves source)
    (hps : ∀ p ∈ ps, (x.engine.tree.at? p).isSome = true) : Tried source x ps (x.tryAll (m := Id) source ps) := by
  induction ps generalizing x with
  | nil => exact ⟨hl, rfl, (List.append_nil x.failed).symm⟩
  | cons p ps ih =>
    obtain ⟨n, hn⟩ := Option.isSome_iff_exists.1 (hps p List.mem_cons_self)
    obtain ⟨e, ending, hperform, hserves, htree, hending⟩ := Engine.perform_expand hl hn
    have hunfolds : Unfolds (.ofSource source) x.engine.tree e.tree := by
      rw [htree]
      exact .openAt hn
    have hthere : ∀ q ∈ ps, (e.tree.at? q).isSome = true :=
      fun q hq => hunfolds.isSome_at? (hps q (List.mem_cons_of_mem p hq))
    -- The rest fails as it would have failed before.
    have hrest : ps.filterMap (failure? source e.tree) = ps.filterMap (failure? source x.engine.tree) :=
      List.filterMap_congr fun q hq => failure?_eq hunfolds (hps q (List.mem_cons_of_mem p hq))
    have hfirst : failure? source x.engine.tree p = (n.loadError? source).map fun err => (p, .load err) := by
      rw [failure?, hn]
      rfl
    rw [tryAll_cons, hperform]
    simp only [hending]
    cases herr : n.loadError? source with
    | none =>
      obtain ⟨hserves', htree', hfailed'⟩ := ih (x := { x with engine := e }) hserves hthere
      refine ⟨hserves', htree'.trans ?_, hfailed'.trans ?_⟩
      · rw [htree]
        rfl
      · rw [hrest, List.filterMap_cons, hfirst, herr]
        rfl
    | some err =>
      obtain ⟨hserves', htree', hfailed'⟩ :=
        ih (x := { engine := e, failed := x.failed ++ [(p, .load err)] }) hserves hthere
      refine ⟨hserves', htree'.trans ?_, hfailed'.trans ?_⟩
      · rw [htree]
        rfl
      · rw [hrest, List.filterMap_cons, hfirst, herr]
        exact List.append_assoc _ _ _

/-! ## Round after round -/

/-- One round of loading. -/
def round (source : Handle → Answer) (depth : Option Nat) (x : Loaded) : Loaded :=
  x.tryAll (m := Id) source (x.pending depth)

theorem load_succ (source : Handle → Answer) (depth : Option Nat) (rounds : Nat) (x : Loaded) :
    load (m := Id) source depth (rounds + 1) x =
      match x.pending depth with
      | [] => x
      | ps => load (m := Id) source depth rounds (x.tryAll (m := Id) source ps) :=
  rfl

theorem load_eq_iterate (source : Handle → Answer) (depth : Option Nat) (rounds : Nat) (x : Loaded) :
    load (m := Id) source depth rounds x = (round source depth)^[rounds] x := by
  induction rounds generalizing x with
  | zero => rfl
  | succ rounds ih =>
    rw [Function.iterate_succ_apply, ← ih, load_succ]
    split
    next hnone =>
      have hround : x.round source depth = x := by
        rw [round, hnone]
        rfl
      rw [hround]
      cases rounds with
      | zero => rfl
      | succ rounds => rw [load_succ, hnone]
    next => rfl

/-- What was warned of is still so. -/
structure Kept (source : Handle → Answer) (x : Loaded) : Prop where
  serves : x.engine.loader.Serves source
  failed : ∀ f ∈ x.failed, failure? source x.engine.tree f.1 = some f

theorem kept_start (source : Handle → Answer) {e : Engine} (he : e.loader = {}) : Kept source { engine := e } where
  serves := by
    rw [he]
    exact Loader.serves_empty source
  failed f hf := by cases hf

theorem mem_pending {depth : Option Nat} : p ∈ x.pending depth ↔
    p ∈ deferredPaths depth [] x.engine.tree ∧ ∀ f ∈ x.failed, f.1 ≠ p := by
  simp [pending]

theorem isSome_of_mem_deferredPaths {depth : Option Nat} (hp : p ∈ deferredPaths depth [] T) :
    (T.at? p).isSome = true := by
  obtain ⟨-, q, m, rfl, hm, -⟩ := (mem_deferredPaths T).1 hp
  exact Option.isSome_iff_exists.2 ⟨m, hm⟩

/-- A round makes the tree grow by one pass over it, and adds the warnings for the nodes that it tries. -/
theorem round_kept (hx : Kept source x) (depth : Option Nat) :
    Kept source (x.round source depth) ∧
      (x.round source depth).engine.tree = grown (.ofSource source) depth 0 x.engine.tree ∧
      (x.round source depth).failed =
        x.failed ++ (x.pending depth).filterMap (failure? source x.engine.tree) := by
  have hthere : ∀ p ∈ x.pending depth, (x.engine.tree.at? p).isSome = true :=
    fun p hp => isSome_of_mem_deferredPaths (mem_pending.1 hp).1
  obtain ⟨hserves, htree, hfailed⟩ := tryAll_tried hx.serves hthere
  -- The nodes that failed before are not tried, but opening them would change nothing.
  have hgrown : x.engine.tree.openAll (.ofSource source) (x.pending depth) =
      grown (.ofSource source) depth 0 x.engine.tree := by
    rw [← openAll_deferredPaths, pending]
    refine openAll_filter _ (fun p hp => isSome_of_mem_deferredPaths hp) fun p _ hkeep => ?_
    obtain ⟨f, hf, rfl⟩ : ∃ f ∈ x.failed, f.1 = p := by simpa using hkeep
    rw [hx.failed f hf]
    rfl
  rw [hgrown] at htree
  refine ⟨⟨hserves, ?_⟩, htree, hfailed⟩
  intro f hf
  have hsome : failure? source x.engine.tree f.1 = some f := by
    rw [round, hfailed] at hf
    rcases List.mem_append.1 hf with hf | hf
    · exact hx.failed f hf
    · obtain ⟨p, -, hp⟩ := List.mem_filterMap.1 hf
      obtain ⟨err, -, rfl⟩ := Option.map_eq_some_iff.1 hp
      exact hp
  have hunfolds : Unfolds (.ofSource source) x.engine.tree (x.round source depth).engine.tree := by
    rw [round, htree]
    exact unfolds_grown _ depth 0 _
  obtain ⟨n, _, hn, -⟩ := failure?_isSome.1 (Option.isSome_iff_exists.2 ⟨f, hsome⟩)
  rw [failure?_eq hunfolds (by rw [hn]; rfl), hsome]

theorem rounds_kept (hx : Kept source x) (depth : Option Nat) (rounds : Nat) :
    Kept source ((round source depth)^[rounds] x) := by
  induction rounds with
  | zero => exact hx
  | succ rounds ih =>
    rw [Function.iterate_succ_apply']
    exact (round_kept ih depth).1

/-- What rounds do to the tree does not depend on what was tried. -/
theorem rounds_tree (hx : Kept source x) (depth : Option Nat) (rounds : Nat) :
    ((round source depth)^[rounds] x).engine.tree = (grown (.ofSource source) depth 0)^[rounds] x.engine.tree := by
  induction rounds with
  | zero => rfl
  | succ rounds ih =>
    rw [Function.iterate_succ_apply', Function.iterate_succ_apply', ← ih]
    exact (round_kept (rounds_kept hx depth rounds) depth).2.1

/-- Once nothing is left to try, further rounds change nothing. -/
theorem load_of_le {depth : Option Nat} {rounds more : Nat} (hle : rounds ≤ more)
    (hnone : (load (m := Id) source depth rounds x).pending depth = []) :
    load (m := Id) source depth more x = load (m := Id) source depth rounds x := by
  obtain ⟨further, rfl⟩ := Nat.exists_eq_add_of_le' hle
  rw [load_eq_iterate] at hnone ⊢
  rw [load_eq_iterate, Function.iterate_add_apply]
  refine Function.iterate_fixed ?_ further
  rw [round, hnone]
  rfl

end Loaded
end Outline
end DocNav
