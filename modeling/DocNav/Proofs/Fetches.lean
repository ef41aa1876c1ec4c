import DocNav.Loader.Batch
import DocNav.Proofs.Lookups
/-!
# The fetches of a loader

What a loader does comes down to two moves: it starts a fetch of a handle that is not cached, and it ends a
fetch in flight with what the source answers. Every property of its fetches is proved for these moves and
holds after any number of them. The one invariant is `Loader.Sound`: the cache holds, for each handle, exactly
its fetch that has not failed.
-/

namespace DocNav

namespace Fetch

def inFlight (f : Fetch) : Bool := f.outcome?.isNone

def hasFailed (f : Fetch) : Bool :=
  match f.outcome? with
  | some (.error _) => true
  | some (.ok _) | none => false

/-- The fragment that a fetch has brought. -/
def fragment? (f : Fetch) : Option (List Node) :=
  match f.outcome? with
  | some (.ok fragment) => some fragment
  | some (.error _) | none => none

theorem fragment?_eq_some {f : Fetch} {fragment : List Node} :
    f.fragment? = some fragment ↔ f.outcome? = some (.ok fragment) := by
  unfold fragment?
  split <;> simp_all

theorem hasFailed_of_fragment {f : Fetch} {fragment : List Node} (h : f.fragment? = some fragment) :
    f.hasFailed = false := by
  simp [hasFailed, fragment?_eq_some.1 h]

theorem hasFailed_of_inFlight {f : Fetch} (h : f.inFlight = true) : f.hasFailed = false := by
  simp only [inFlight, Option.isNone_iff_eq_none] at h
  simp [hasFailed, h]

end Fetch

namespace Loader

/-- Fetch `id` is a fetch of the handle. -/
def Holds (l : Loader) (h : Handle) (id : FetchId) : Prop := l.fetches[id]?.map Fetch.handle = some h

/-- The cache holds, for each handle, exactly its fetch that has not failed. -/
def Sound (l : Loader) : Prop :=
  ∀ h id, l.cache.lookup h = some id ↔ ∃ f, l.fetches[id]? = some f ∧ f.handle = h ∧ f.hasFailed = false

theorem sound_empty : ({} : Loader).Sound := by
  intro h id
  simp

/-- Of the fetches of one handle at most one has not failed. -/
theorem Sound.unique {l : Loader} (hl : l.Sound) {i j : FetchId} {f g : Fetch} (hi : l.fetches[i]? = some f)
    (hj : l.fetches[j]? = some g) (hfg : f.handle = g.handle) (hf : f.hasFailed = false)
    (hg : g.hasFailed = false) : i = j := by
  have h1 := (hl f.handle i).2 ⟨f, hi, rfl, hf⟩
  have h2 := (hl f.handle j).2 ⟨g, hj, hfg.symm, hg⟩
  exact Option.some.inj (h1.symm.trans h2)

theorem Holds.unique {l : Loader} {h h' : Handle} {id : FetchId} (hh : l.Holds h id) (hh' : l.Holds h' id) : h = h' :=
  Option.some.inj (hh.symm.trans hh')

/-! ## The moves of a loader -/

/-- The loader with a new fetch of a handle, in flight and cached. -/
def started (l : Loader) (h : Handle) : Loader :=
  { fetches := l.fetches ++ [{ handle := h }], cache := (h, l.fetches.length) :: l.cache }

/-- The loader with a fetch in flight ended by an answer. -/
def answered (l : Loader) (h : Handle) (id : FetchId) (a : Answer) : Loader := (l.poll h id (some a)).2

/-- One move of a loader, where `may` says what the source may answer to a fetch of a handle. -/
inductive Move (may : Handle → Answer → Prop) (l : Loader) : Loader → Prop
  | start {h : Handle} : l.cache.lookup h = none → Move may l (l.started h)
  | answer {h : Handle} {id : FetchId} {a : Answer} :
      l.fetches[id]? = some { handle := h } → may h a → Move may l (l.answered h id a)

/-- Any number of moves. -/
abbrev Moves (may : Handle → Answer → Prop) : Loader → Loader → Prop := Relation.ReflTransGen (Move may)

/-- What a source may say that has not answered yet. -/
def silent (_ : Handle) (_ : Answer) : Prop := False

theorem Moves.mono {may may' : Handle → Answer → Prop} (hm : ∀ h a, may h a → may' h a) {l l' : Loader}
    (h : Moves may l l') : Moves may' l l' := by
  refine Relation.ReflTransGen.mono ?_ _ _ h
  intro a b hab
  cases hab with
  | start hc => exact .start hc
  | answer hf ha => exact .answer hf (hm _ _ ha)

theorem Moves.of_silent {may : Handle → Answer → Prop} {l l' : Loader} (h : Moves silent l l') :
    Moves may l l' := h.mono fun _ _ => False.elim

/-! ## What a move does to the fetches -/

theorem lookup_started (l : Loader) (h k : Handle) :
    (l.started h).cache.lookup k = if k = h then some l.fetches.length else l.cache.lookup k := by
  by_cases hk : k = h
  · simp [started, hk]
  · simp [started, List.lookup_cons, hk, beq_false_of_ne hk]

theorem getElem?_started (l : Loader) (h : Handle) (id : Nat) :
    (l.started h).fetches[id]? = if id = l.fetches.length then some { handle := h } else l.fetches[id]? := by
  by_cases hid : id = l.fetches.length
  · simp [started, hid]
  · simp only [started, List.getElem?_append, hid, if_false]
    split
    · rfl
    · rw [List.getElem?_eq_none (by simp; omega), List.getElem?_eq_none (by omega)]

theorem fetches_evict (l : Loader) (h : Handle) (id : FetchId) : (l.evict h id).fetches = l.fetches := by
  unfold evict
  split <;> rfl

theorem fetches_deliver (l : Loader) (h : Handle) (id : FetchId) (o : Outcome) :
    (l.deliver h id o).2.fetches = l.fetches := by
  cases o with
  | ok fragment => rfl
  | error e => exact fetches_evict l h id

theorem outcome?_of_fetch {l : Loader} {id : FetchId} {f : Fetch} (hf : l.fetches[id]? = some f) :
    l.outcome? id = f.outcome? := by simp [outcome?, hf]

theorem answered_eq {l : Loader} {h : Handle} {id : FetchId} {a : Answer}
    (hf : l.fetches[id]? = some { handle := h }) :
    l.answered h id a = ((l.finish id (.ofAnswer h a)).deliver h id (.ofAnswer h a)).2 := by
  simp [answered, poll, outcome?_of_fetch hf]

theorem fetches_answered {l : Loader} {h : Handle} {id : FetchId} {a : Answer}
    (hf : l.fetches[id]? = some { handle := h }) :
    (l.answered h id a).fetches = l.fetches.set id { handle := h, outcome? := some (.ofAnswer h a) } := by
  rw [answered_eq hf, fetches_deliver]
  simp [finish, List.modify_eq_set_getElem?, hf]

/-- An answer leaves the cache alone, unless it is a failure of the cached fetch. -/
theorem lookup_answered {l : Loader} {h : Handle} {id : FetchId} {a : Answer}
    (hf : l.fetches[id]? = some { handle := h }) (hc : l.cache.lookup h = some id) (k : Handle) :
    (l.answered h id a).cache.lookup k =
      if k = h ∧ a.toOption = none then none else l.cache.lookup k := by
  rw [answered_eq hf]
  cases a with
  | ok fragment => simp [Outcome.ofAnswer, deliver, finish, Except.toOption]
  | error e =>
    simp only [Outcome.ofAnswer, deliver, finish, evict, hc, if_true, Except.toOption, and_true]
    exact lookup_filter_ne l.cache h k

/-! ## The invariant -/

theorem sound_started {l : Loader} {h : Handle} (hl : l.Sound) (hc : l.cache.lookup h = none) :
    (l.started h).Sound := by
  -- As nothing is cached for the handle, all its fetches so far have failed.
  have hnone : ∀ (id : FetchId) (f : Fetch), l.fetches[id]? = some f → f.handle = h → f.hasFailed = true := by
    intro id f hf hh
    by_contra hn
    have := (hl h id).2 ⟨f, hf, hh, by simpa using hn⟩
    rw [hc] at this
    cases this
  intro k id
  rw [lookup_started, getElem?_started]
  by_cases hk : k = h
  · subst hk
    constructor
    · intro hid
      simp only [if_true, Option.some.injEq] at hid
      exact ⟨{ handle := k }, by simp [hid], rfl, rfl⟩
    · rintro ⟨f, hf, hh, hn⟩
      split at hf
      · simp [*]
      · rw [hnone id f hf hh] at hn
        cases hn
  · rw [if_neg hk, hl k id]
    split
    · -- The new fetch is of another handle.
      rename_i hid
      rw [hid, List.getElem?_eq_none (le_refl _)]
      simp [Ne.symm hk]
    · rfl

theorem sound_answered {l : Loader} {h : Handle} {id : FetchId} {a : Answer} (hl : l.Sound)
    (hf : l.fetches[id]? = some { handle := h }) : (l.answered h id a).Sound := by
  have hc : l.cache.lookup h = some id := (hl h id).2 ⟨_, hf, rfl, rfl⟩
  intro k i
  have hk := hl k i
  -- Only the answered fetch changes, and it leaves the cache exactly if it has failed.
  rw [lookup_answered hf hc, fetches_answered hf]
  cases a <;> grind [Fetch.hasFailed, Outcome.ofAnswer, Except.toOption]

theorem Move.sound {may : Handle → Answer → Prop} {l l' : Loader} (hl : l.Sound) (hm : Move may l l') :
    l'.Sound := by
  cases hm with
  | start hc => exact sound_started hl hc
  | answer hf _ => exact sound_answered hl hf

theorem Moves.sound {may : Handle → Answer → Prop} {l l' : Loader} (hl : l.Sound) (hm : Moves may l l') :
    l'.Sound := by
  induction hm with
  | refl => exact hl
  | tail _ h ih => exact h.sound ih

/-! ## Joining and polling -/

theorem join_moves (l : Loader) (h : Handle) : Moves silent l (l.join h).2 := by
  unfold join
  split
  · exact .refl
  · rename_i hc
    exact .single (.start hc)

theorem holds_join {l : Loader} (hl : l.Sound) (h : Handle) : (l.join h).2.Holds h (l.join h).1 := by
  unfold join
  split
  · rename_i id hc
    obtain ⟨f, hf, rfl, -⟩ := (hl h id).1 hc
    simp [Holds, hf]
  · simp [Holds]

/-- A waiter that comes late to a failed fetch finds nothing to evict. -/
theorem evict_of_failed {l : Loader} (hl : l.Sound) {h : Handle} {id : FetchId} {e : LoadError}
    (ho : l.outcome? id = some (.error e)) : l.evict h id = l := by
  unfold evict
  rw [if_neg]
  intro hc
  obtain ⟨f, hf, -, hn⟩ := (hl h id).1 hc
  rw [outcome?_of_fetch hf] at ho
  simp [Fetch.hasFailed, ho] at hn

theorem poll_ended {l : Loader} (hl : l.Sound) (h : Handle) {id : FetchId} (a : Option Answer) {o : Outcome}
    (ho : l.outcome? id = some o) : l.poll h id a = (some o, l) := by
  simp only [poll, ho]
  cases o with
  | ok fragment => rfl
  | error e => simp [deliver, evict_of_failed hl ho]

theorem poll_unanswered {l : Loader} (h : Handle) {id : FetchId} (ho : l.outcome? id = none) :
    l.poll h id none = (none, l) := by
  simp [poll, ho]

theorem poll_answered {l : Loader} {h : Handle} {id : FetchId} (a : Answer)
    (hf : l.fetches[id]? = some { handle := h }) :
    l.poll h id (some a) = (some (.ofAnswer h a), l.answered h id a) := by
  rw [answered_eq hf]
  simp only [poll, outcome?_of_fetch hf]
  cases a <;> rfl

theorem fetch_of_holds {l : Loader} {h : Handle} {id : FetchId} (hh : l.Holds h id) :
    l.fetches[id]? = some { handle := h, outcome? := l.outcome? id } := by
  obtain ⟨f, hf, rfl⟩ := Option.map_eq_some_iff.1 hh
  rw [hf, outcome?_of_fetch hf]

/-- What a waiter gets from its fetch when it is run, and what that does to the loader. -/
theorem poll_cases {l : Loader} (hl : l.Sound) {h : Handle} {id : FetchId} (hh : l.Holds h id)
    (a : Option Answer) :
    (∃ o, l.fetches[id]? = some { handle := h, outcome? := some o } ∧ l.poll h id a = (some o, l)) ∨
    (l.fetches[id]? = some { handle := h } ∧ a = none ∧ l.poll h id a = (none, l)) ∨
    (∃ b, l.fetches[id]? = some { handle := h } ∧ a = some b ∧
      l.poll h id a = (some (.ofAnswer h b), l.answered h id b)) := by
  have hf := fetch_of_holds hh
  cases ho : l.outcome? id with
  | some o =>
    rw [ho] at hf
    exact .inl ⟨o, hf, poll_ended hl h a ho⟩
  | none =>
    rw [ho] at hf
    cases a with
    | none => exact .inr (.inl ⟨hf, rfl, poll_unanswered h ho⟩)
    | some b => exact .inr (.inr ⟨b, hf, rfl, poll_answered b hf⟩)

/-! ## What stays through any moves -/

/-- A fetch keeps its handle, and once it has ended it stays as it is. -/
theorem Move.fetch {may : Handle → Answer → Prop} {l l' : Loader} (hm : Move may l l') {id : FetchId}
    {f : Fetch} (hf : l.fetches[id]? = some f) :
    ∃ f', l'.fetches[id]? = some f' ∧ f'.handle = f.handle ∧ (f.inFlight = false → f' = f) := by
  have hid : id < l.fetches.length := (List.getElem?_eq_some_iff.1 hf).1
  cases hm with
  | start hc => exact ⟨f, by rw [getElem?_started, if_neg (Nat.ne_of_lt hid), hf], rfl, fun _ => rfl⟩
  | @answer h i a hi _ =>
    rw [fetches_answered hi]
    by_cases hii : i = id
    · subst hii
      rw [hi] at hf
      cases hf
      exact ⟨_, List.getElem?_set_self hid, rfl, nofun⟩
    · exact ⟨f, by rw [List.getElem?_set_ne hii, hf], rfl, fun _ => rfl⟩

theorem Moves.fetch {may : Handle → Answer → Prop} {l l' : Loader} (hm : Moves may l l') {id : FetchId}
    {f : Fetch} (hf : l.fetches[id]? = some f) :
    ∃ f', l'.fetches[id]? = some f' ∧ f'.handle = f.handle ∧ (f.inFlight = false → f' = f) := by
  induction hm with
  | refl => exact ⟨f, hf, rfl, fun _ => rfl⟩
  | tail _ h ih =>
    obtain ⟨f', hf', hh, hs⟩ := ih
    obtain ⟨f'', hf'', hh', hs'⟩ := h.fetch hf'
    refine ⟨f'', hf'', hh'.trans hh, fun hn => ?_⟩
    obtain rfl := hs hn
    exact hs' hn

/-- A fetch in flight stays so, unless there may be an answer to its handle. -/
theorem Moves.inFlight {may : Handle → Answer → Prop} {l l' : Loader} (hm : Moves may l l') {h : Handle} {id : FetchId}
    (hf : l.fetches[id]? = some { handle := h }) (hno : ∀ a, ¬ may h a) :
    l'.fetches[id]? = some { handle := h } := by
  induction hm with
  | refl => exact hf
  | @tail c d _ hcd ih =>
    have hid : id < c.fetches.length := (List.getElem?_eq_some_iff.1 ih).1
    cases hcd with
    | start _ =>
      rw [getElem?_started, if_neg hid.ne]
      exact ih
    | @answer k i a hi hmay =>
      have hne : i ≠ id := by
        rintro rfl
        rw [ih] at hi
        cases hi
        exact hno a hmay
      rw [fetches_answered hi, List.getElem?_set_ne hne]
      exact ih

theorem Moves.holds {may : Handle → Answer → Prop} {l l' : Loader} (hm : Moves may l l') {h : Handle}
    {id : FetchId} (hh : l.Holds h id) : l'.Holds h id := by
  obtain ⟨f, hf, rfl⟩ := Option.map_eq_some_iff.1 hh
  obtain ⟨f', hf', hh', -⟩ := hm.fetch hf
  simp [Holds, hf', hh']

/-- Every outcome is one that the source may give. -/
def Attested (may : Handle → Answer → Prop) (l : Loader) : Prop :=
  ∀ (id : FetchId) (f : Fetch), l.fetches[id]? = some f →
    ∀ o, f.outcome? = some o → ∃ a, may f.handle a ∧ o = .ofAnswer f.handle a

theorem attested_empty (may : Handle → Answer → Prop) : ({} : Loader).Attested may := by
  intro id f hf
  simp at hf

theorem Move.attested {may : Handle → Answer → Prop} {l l' : Loader} (hl : l.Attested may)
    (hm : Move may l l') : l'.Attested may := by
  intro id f hf o ho
  cases hm with
  | start hc =>
    rw [getElem?_started] at hf
    split at hf
    · cases hf
      cases ho
    · exact hl id f hf o ho
  | @answer h i a hi ha =>
    rw [fetches_answered hi, List.getElem?_set] at hf
    split at hf
    · split at hf
      · cases hf
        cases ho
        exact ⟨a, ha, rfl⟩
      · cases hf
    · exact hl id f hf o ho

theorem Moves.attested {may : Handle → Answer → Prop} {l l' : Loader} (hl : l.Attested may)
    (hm : Moves may l l') : l'.Attested may := by
  induction hm with
  | refl => exact hl
  | tail _ h ih => exact h.attested ih

/-! ## The fragment of a handle -/

/-- The fragment that a fetch of the handle has brought. -/
def fragment? (l : Loader) (h : Handle) : Option (List Node) :=
  l.fetches.findSome? fun f => if f.handle = h then f.fragment? else none

theorem fetch_of_fragment {l : Loader} {h : Handle} {fragment : List Node} (hk : l.fragment? h = some fragment) :
    ∃ id : FetchId, l.fetches[id]? = some { handle := h, outcome? := some (.ok fragment) } := by
  obtain ⟨f, hf, hb⟩ := List.exists_of_findSome?_eq_some hk
  obtain ⟨id, hid⟩ := List.getElem?_of_mem hf
  split at hb
  · rename_i hh
    refine ⟨id, ?_⟩
    rw [hid, ← hh, ← Fetch.fragment?_eq_some.1 hb]
  · cases hb

/-- All fetches of a handle that bring a fragment bring the same, as there is only one. -/
theorem fragment?_of_fetch {l : Loader} (hl : l.Sound) {h : Handle} {id : FetchId} {fragment : List Node}
    (hf : l.fetches[id]? = some { handle := h, outcome? := some (.ok fragment) }) :
    l.fragment? h = some fragment := by
  obtain ⟨b, hb⟩ : ∃ b, l.fragment? h = some b := by
    rw [← Option.isSome_iff_exists, fragment?, List.findSome?_isSome_iff]
    exact ⟨_, List.mem_of_getElem? hf, by simp [Fetch.fragment?]⟩
  obtain ⟨j, hj⟩ := fetch_of_fragment hb
  obtain rfl := hl.unique hf hj rfl rfl rfl
  rw [hf] at hj
  cases hj
  exact hb

theorem Attested.of_fragment {may : Handle → Answer → Prop} {l : Loader} (hl : l.Attested may) {h : Handle}
    {fragment : List Node} (hk : l.fragment? h = some fragment) : may h (.ok fragment) := by
  obtain ⟨id, hf⟩ := fetch_of_fragment hk
  obtain ⟨a, ha, ho⟩ := hl id _ hf _ rfl
  cases a with
  | ok b =>
    cases ho
    exact ha
  | error e => cases ho

theorem Moves.fragment {may : Handle → Answer → Prop} {l l' : Loader} (hl : l.Sound) (hm : Moves may l l')
    {h : Handle} {fragment : List Node} (hk : l.fragment? h = some fragment) :
    l'.fragment? h = some fragment := by
  obtain ⟨id, hf⟩ := fetch_of_fragment hk
  obtain ⟨f', hf', -, hs⟩ := hm.fetch hf
  obtain rfl := hs rfl
  exact fragment?_of_fetch (hm.sound hl) hf'

/-- Nothing is loaded while the source is silent. -/
theorem Moves.fragment_silent {l l' : Loader} (hm : Moves silent l l') : l'.fragment? = l.fragment? := by
  induction hm with
  | refl => rfl
  | tail _ h ih =>
    rw [← ih]
    cases h with
    | start hc =>
      funext k
      simp [fragment?, started, Fetch.fragment?]
    | answer _ ha => exact ha.elim

/-- Replacing an element that a filter drops by another such leaves the filtered list as it is. -/
theorem filter_set_of_not {α : Type} (p : α → Bool) {xs : List α} {i : Nat} {x y : α} (hi : xs[i]? = some x)
    (hx : p x = false) (hy : p y = false) : (xs.set i y).filter p = xs.filter p := by
  induction xs generalizing i with
  | nil => rfl
  | cons z xs ih =>
    cases i with
    | zero =>
      obtain rfl : z = x := by simpa using hi
      simp [hx, hy]
    | succ i =>
      simp only [List.set_cons_succ, List.filter_cons]
      rw [ih (by simpa using hi)]

/-- Once a fetch of a handle has brought a fragment, the fetches of the handle stay as they are. -/
theorem Moves.fetches_of_loaded {may : Handle → Answer → Prop} {l l' : Loader} (hl : l.Sound)
    (hm : Moves may l l') {h : Handle} (hk : (l.fragment? h).isSome) :
    l'.fetches.filter (·.handle = h) = l.fetches.filter (·.handle = h) := by
  induction hm with
  | refl => rfl
  | @tail b c hab h' ih =>
    rw [← ih]
    obtain ⟨fragment, hk⟩ := Option.isSome_iff_exists.1 hk
    have hb : b.Sound := Moves.sound hl hab
    obtain ⟨i, hi⟩ := fetch_of_fragment (Moves.fragment hl hab hk)
    -- The fetch that brought the fragment is the only one that has not failed, so the move is of another handle.
    cases h' with
    | @start k hc =>
      have hne : k ≠ h := by
        rintro rfl
        rw [(hb k i).2 ⟨_, hi, rfl, rfl⟩] at hc
        cases hc
      simp [started, hne]
    | @answer k j a hj _ =>
      have hne : k ≠ h := by
        rintro rfl
        obtain rfl := hb.unique hi hj rfl rfl rfl
        rw [hi] at hj
        cases hj
      rw [fetches_answered hj]
      exact filter_set_of_not _ hj (by simpa using hne) (by simpa using hne)

end Loader

/-! ## Counting what is cached -/

namespace Loader

/-- No handle is cached twice, and every fetch is cached or has failed. -/
structure Counted (l : Loader) : Prop where
  once : (l.cache.map Prod.fst).Nodup
  count : l.cachedCount + l.fetches.countP Fetch.hasFailed = l.fetchCount

/-- A fetch that starts is cached. -/
theorem Counted.started {l : Loader} (hcount : l.Counted) {h : Handle} (hc : l.cache.lookup h = none) :
    (l.started h).Counted := by
  obtain ⟨honce, hcount⟩ := hcount
  refine ⟨List.nodup_cons.2 ⟨fun hmem => ?_, honce⟩, ?_⟩
  · obtain ⟨x, hx, hxh⟩ := List.mem_map.1 hmem
    have hsome := List.lookup_isSome_iff.2 ⟨x, hx, by simpa using hxh.symm⟩
    rw [hc] at hsome
    cases hsome
  · have hfailed : (l.started h).fetches.countP Fetch.hasFailed = l.fetches.countP Fetch.hasFailed :=
      List.countP_append
    rw [hfailed]
    unfold cachedCount fetchCount at hcount ⊢
    simp only [Loader.started, List.length_cons, List.length_append, List.length_nil]
    omega

/-- An answer to a fetch in flight is one more failure exactly if it is an error. -/
theorem countP_answered {l : Loader} {h : Handle} {id : Nat} (a : Answer)
    (hf : l.fetches[id]? = some { handle := h }) :
    (l.answered h id a).fetches.countP Fetch.hasFailed = l.fetches.countP Fetch.hasFailed +
      if ({ handle := h, outcome? := some (.ofAnswer h a) } : Fetch).hasFailed then 1 else 0 := by
  obtain ⟨hid, hget⟩ := List.getElem?_eq_some_iff.1 hf
  have hflight : l.fetches[id].hasFailed = false := by
    rw [hget]
    rfl
  rw [fetches_answered hf, List.countP_set hid, hflight]
  rfl

/-- A fetch that ends stays cached, or it has failed. -/
theorem Counted.answered {l : Loader} (hcount : l.Counted) {h : Handle} {id : Nat} (a : Answer)
    (hc : l.cache.lookup h = some id) (hf : l.fetches[id]? = some { handle := h }) : (l.answered h id a).Counted := by
  obtain ⟨honce, hcount⟩ := hcount
  have hlength : (l.answered h id a).fetches.length = l.fetches.length := by
    rw [fetches_answered hf, List.length_set]
  have hcountP := countP_answered a hf
  cases a with
  | ok fragment =>
    have hcache : (l.answered h id (.ok fragment)).cache = l.cache := by
      rw [answered_eq hf]
      rfl
    refine ⟨by rwa [hcache], ?_⟩
    unfold cachedCount fetchCount at hcount ⊢
    rw [hcountP, hcache, hlength]
    exact hcount
  | error e =>
    -- The fetch that has failed leaves the cache.
    have hcache : (l.answered h id (.error e)).cache = l.cache.filter fun x => x.1 ≠ h := by
      rw [answered_eq hf]
      simp [Outcome.ofAnswer, deliver, finish, evict, hc]
    have hless := length_filter_ne honce (a := h) (by rw [hc]; rfl)
    refine ⟨?_, ?_⟩
    · rw [hcache]
      exact honce.sublist (List.filter_sublist.map _)
    · have hfailed : ({ handle := h, outcome? := some (.ofAnswer h (.error e)) } : Fetch).hasFailed = true := rfl
      unfold cachedCount fetchCount at hcount ⊢
      rw [hcountP, hcache, hlength, hfailed, if_pos rfl]
      omega

theorem Move.counted {may : Handle → Answer → Prop} {l l' : Loader} (hl : l.Sound) (hcount : l.Counted)
    (hm : Move may l l') : l'.Counted := by
  cases hm with
  | start hc => exact hcount.started hc
  | @answer h id a hf _ => exact hcount.answered a ((hl h id).2 ⟨_, hf, rfl, rfl⟩) hf

theorem Moves.counted {may : Handle → Answer → Prop} {l l' : Loader} (hl : l.Sound) (hcount : l.Counted)
    (hm : Moves may l l') : l'.Counted := by
  induction hm with
  | refl => exact hcount
  | tail hm h ih => exact h.counted (Moves.sound hl hm) ih

theorem counted_empty : ({} : Loader).Counted := ⟨.nil, rfl⟩

end Loader
end DocNav
