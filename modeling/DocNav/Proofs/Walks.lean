import DocNav.Proofs.Fetches
import DocNav.Proofs.Unfolding
/-!
# What a plan comes to

A plan walks partly through the tree and partly through fragments that it has staged, while the tree may
change between its turns. All of it is one walk through the hierarchy that the root and the loaded fragments
make: `Follows` says where links lead there, and `Reached` what a plan has come to, wherever it stands. A turn
of a plan keeps `Reached` (`walk_reached`, `resume_reached`), and so does everything that may happen between
its turns (`Reached.grow`). When a plan arrives, its staged fragments can be put into the tree, and then the
tree has a node at the plan's path (`Stages`).
-/

namespace DocNav

/-! ## Following links in the hierarchy -/

/-- The links lead, one after another, from a node along a path to a node of the hierarchy. -/
inductive Follows (K : Fragments) : Node → Chain → TreePath → Node → Prop
  | here (n : Node) : Follows K n [] [] n
  | down {n c m : Node} {link : PageRef} {links : Chain} {i : Nat} {p : TreePath} :
      childIndex? (n.childrenIn K) link = some i → (n.childrenIn K)[i]? = some c → Follows K c links p m →
      Follows K n (link :: links) (i :: p) m

theorem chainBelow_eq_ite (root : Node) (chain : Chain) :
    chainBelow root chain = if chain.head? = root.link then chain.tail else chain := by
  cases chain with
  | nil => exact (ite_self []).symm
  | cons first rest => exact if_congr eq_comm rfl rfl

/-- The links to follow are the same in every tree that unfolds from the root. -/
theorem Unfolds.chainBelow_eq {K : Fragments} {n m : Node} (h : Unfolds K n m) (chain : Chain) :
    chainBelow m chain = chainBelow n chain := by
  cases chain with
  | nil => rfl
  | cons first rest => simp only [chainBelow, h.link_eq]

theorem childIndex?_of_links {cs ds : List Node} (h : cs.map Node.link = ds.map Node.link) (link : PageRef) :
    childIndex? cs link = childIndex? ds link := by
  have hfind : ∀ k : Option PageRef, cs.findIdx? (·.link = k) = ds.findIdx? (·.link = k) := by
    intro k
    have := congrArg (List.findIdx? fun x => decide (x = k)) h
    simpa [List.findIdx?_map, Function.comp_def] using this
  simp only [childIndex?, hfind]

theorem getElem?_of_childIndex? {cs : List Node} {link : PageRef} {i : Nat} (h : childIndex? cs link = some i) :
    ∃ c, cs[i]? = some c := by
  have hlt : ∀ p : Node → Bool, cs.findIdx? p = some i → i < cs.length := fun p hp =>
    (List.findIdx?_eq_some_iff_getElem.1 hp).1
  have hi : i < cs.length := by
    unfold childIndex? at h
    split at h
    · rename_i j hj
      cases h
      exact hlt _ hj
    · split at h
      · exact hlt _ h
      · cases h
  exact ⟨cs[i], List.getElem?_eq_getElem hi⟩

section
variable {K : Fragments} {n m : Node} {links : Chain} {p : TreePath}

theorem Follows.atIn? (h : Follows K n links p m) : n.atIn? K p = some m := by
  induction h with
  | here n => rfl
  | down _ hc _ ih =>
    rw [Node.atIn?_cons, hc]
    exact ih

theorem Follows.snoc (h : Follows K n links p m) {link : PageRef} {i : Nat} {c : Node}
    (hi : childIndex? (m.childrenIn K) link = some i) (hc : (m.childrenIn K)[i]? = some c) :
    Follows K n (links ++ [link]) (p ++ [i]) c := by
  induction h with
  | here n => exact .down hi hc (.here c)
  | down hi' hc' _ ih => exact .down hi' hc' (ih hi hc)

theorem childrenIn_of_sub {K' : Fragments} (hK : K.Sub K') {i : Nat} {c : Node}
    (hc : (n.childrenIn K)[i]? = some c) : n.childrenIn K' = n.childrenIn K := by
  cases n with
  | leaf _ _ => rfl
  | inline _ _ _ => rfl
  | deferred l k h =>
    simp only [Node.childrenIn] at hc ⊢
    cases hh : K h with
    | none => simp [hh] at hc
    | some fragment => rw [hK h fragment hh]

theorem Follows.of_sub {K' : Fragments} (hK : K.Sub K') (h : Follows K n links p m) :
    Follows K' n links p m := by
  induction h with
  | here n => exact .here n
  | down hi hc _ ih =>
    have := childrenIn_of_sub hK hc
    exact .down (this ▸ hi) (this ▸ hc) ih

end

/-! ## Putting staged fragments into the tree -/

namespace Plan

theorem commit_cons {root c : Node} {p : TreePath} (h : root.at? p = some c) (fragment : List Node)
    (rest : List (TreePath × List Node)) :
    commit root ((p, fragment) :: rest) = commit (root.modifyAt (Node.fill fragment) p) rest := by
  have hd : root.isDeferredAt p = .ok c.isDeferred := by
    simp [Node.isDeferredAt, Node.find, h, Except.map]
  rw [commit, hd]
  cases hc : c.isDeferred with
  | false => simp only [Node.modifyAt_of_eq h (Node.fill_of_not_deferred hc fragment)]
  | true => simp [Node.materialize, h, hc]

theorem commit_cons_ok {root root' : Node} {p : TreePath} {fragment : List Node}
    {rest : List (TreePath × List Node)} (h : commit root ((p, fragment) :: rest) = .ok root') :
    ∃ c, root.at? p = some c ∧ commit (root.modifyAt (Node.fill fragment) p) rest = .ok root' := by
  cases hc : root.at? p with
  | none => simp [commit, Node.isDeferredAt, Node.find, hc, Except.map] at h
  | some c => exact ⟨c, rfl, commit_cons hc fragment rest ▸ h⟩

theorem commit_append {root root' : Node} {staged : List (TreePath × List Node)}
    (h : commit root staged = .ok root') (rest : List (TreePath × List Node)) :
    commit root (staged ++ rest) = commit root' rest := by
  induction staged generalizing root with
  | nil =>
    cases h
    rfl
  | cons s staged ih =>
    obtain ⟨c, hc, hr⟩ := commit_cons_ok h
    rw [List.cons_append, commit_cons hc, ih hr]

/-- A staged fragment is that of the node at its path. -/
def Fits (K : Fragments) (R : Node) (s : TreePath × List Node) : Prop :=
  ∃ n h, R.atIn? K s.1 = some n ∧ n.handle? = some h ∧ K h = some s.2

theorem Fits.of_sub {K K' : Fragments} (hK : K.Sub K') {R : Node} {s : TreePath × List Node}
    (h : Fits K R s) : Fits K' R s := by
  obtain ⟨n, k, hn, hk, hs⟩ := h
  exact ⟨n, k, Node.atIn?_of_sub hK hn, hk, hK k _ hs⟩

/-- Putting a fragment that fits into a tree, and into the tree unfolded further. -/
theorem fill_unfolds {K : Fragments} {R T U : Node} (hT : Unfolds K R T) (hTU : Unfolds K T U)
    {s : TreePath × List Node} (hs : Fits K R s) {c : Node} (hc : T.at? s.1 = some c) :
    Unfolds K T (T.modifyAt (Node.fill s.2) s.1) ∧
      Unfolds K (T.modifyAt (Node.fill s.2) s.1) (U.modifyAt (Node.fill s.2) s.1) := by
  obtain ⟨n, h, hn, hh, hK⟩ := hs
  obtain ⟨n', hn', hnc⟩ := hT.atIn? hc
  obtain rfl : n' = n := Option.some.inj (hn'.symm.trans hn)
  constructor
  · have := (Unfolds.refl K T).modifyAt (f := id) (g := Node.fill s.2) hc fun d hd _ => by
      obtain rfl : c = d := Option.some.inj (hc.symm.trans hd)
      exact hnc.fill_self hh hK
    rwa [Node.modifyAt_of_eq hc rfl] at this
  · exact hTU.modifyAt hc fun d _ hcd => hnc.fill_fill hcd hh hK

/-- Fragments that fit unfold the tree when they are put into it, and can also be put into any tree unfolded
further. -/
theorem commit_unfolds {K : Fragments} {R T U T' : Node} {staged : List (TreePath × List Node)}
    (hT : Unfolds K R T) (hTU : Unfolds K T U) (hs : ∀ s ∈ staged, Fits K R s) (h : commit T staged = .ok T') :
    Unfolds K T T' ∧ ∃ U', commit U staged = .ok U' ∧ Unfolds K T' U' := by
  induction staged generalizing T U with
  | nil =>
    cases h
    exact ⟨.refl K _, U, rfl, hTU⟩
  | cons s staged ih =>
    obtain ⟨c, hc, hr⟩ := commit_cons_ok h
    -- The first fragment goes into both trees, and the second still unfolds from the first.
    obtain ⟨h1, h2⟩ := fill_unfolds hT hTU (hs s List.mem_cons_self) hc
    obtain ⟨h3, U', hU', h4⟩ := ih (hT.trans h1) h2 (fun x hx => hs x (List.mem_cons_of_mem s hx)) hr
    obtain ⟨d, hd, -⟩ := hTU.at? hc
    exact ⟨h1.trans h3, U', by rw [commit_cons hd, hU'], h4⟩

/-- The staged fragments fit, and with them the tree has a node at the path. -/
structure Stages (K : Fragments) (R T : Node) (staged : List (TreePath × List Node)) (p : TreePath) : Prop where
  fits : ∀ s ∈ staged, Fits K R s
  opens : ∃ T' d, commit T staged = .ok T' ∧ T'.at? p = some d

section
variable {K : Fragments} {R T : Node} {staged : List (TreePath × List Node)} {p : TreePath}

theorem Stages.grow (h : Stages K R T staged p) (hT : Unfolds K R T) {K' : Fragments} (hK : K.Sub K')
    {U : Node} (hTU : Unfolds K' T U) : Stages K' R U staged p := by
  obtain ⟨T', d, hT', hd⟩ := h.opens
  have hfits : ∀ s ∈ staged, Fits K' R s := fun s hs => (h.fits s hs).of_sub hK
  obtain ⟨-, U', hU', hTU'⟩ := commit_unfolds (hT.of_sub hK) hTU hfits hT'
  obtain ⟨e, he, -⟩ := hTU'.at? hd
  exact ⟨hfits, U', e, hU', he⟩

/-- The tree with the staged fragments in place. -/
theorem Stages.commit (h : Stages K R T staged p) (hT : Unfolds K R T) :
    ∃ T' d, Plan.commit T staged = .ok T' ∧ Unfolds K T T' ∧ T'.at? p = some d := by
  obtain ⟨T', d, hT', hd⟩ := h.opens
  exact ⟨T', d, hT', (commit_unfolds hT (.refl K T) h.fits hT').1, hd⟩

/-- One level down, among children that the tree has once the staged fragments are in place. -/
theorem Stages.down (h : Stages K R T staged p) (hT : Unfolds K R T) {n : Node} (hn : R.atIn? K p = some n)
    (hopen : ∀ T' d, Plan.commit T staged = .ok T' → T'.at? p = some d → d.isDeferred = false) {i : Nat}
    {c : Node} (hc : (n.childrenIn K)[i]? = some c) : Stages K R T staged (p ++ [i]) := by
  obtain ⟨T', d, hT', hTT', hd⟩ := h.commit hT
  obtain ⟨n', hn', hnd⟩ := (hT.trans hTT').atIn? hd
  obtain rfl : n' = n := Option.some.inj (hn'.symm.trans hn)
  obtain ⟨e, he, -⟩ := (hnd.children (hopen T' d hT' hd)).getElem? hc
  refine ⟨h.fits, T', e, hT', ?_⟩
  rw [Node.at?_append, hd]
  simp [Node.child?, Node.at?, he]

/-- One more fragment is staged, that of the deferred node at the path. -/
theorem Stages.stage (h : Stages K R T staged p) (hT : Unfolds K R T) {n : Node} (hn : R.atIn? K p = some n)
    {k : Handle} (hk : n.handle? = some k) {fragment : List Node} (hK : K k = some fragment) :
    Stages K R T (staged ++ [(p, fragment)]) p ∧
      ∀ T' d, Plan.commit T (staged ++ [(p, fragment)]) = .ok T' → T'.at? p = some d → d.isDeferred = false := by
  obtain ⟨T', d, hT', -, hd⟩ := h.commit hT
  have hcommit : Plan.commit T (staged ++ [(p, fragment)]) = .ok (T'.modifyAt (Node.fill fragment) p) := by
    rw [commit_append hT', commit_cons hd]
    rfl
  have hat := Node.at?_modifyAt (Node.fill fragment) hd
  refine ⟨⟨fun s hs => ?_, _, _, hcommit, hat⟩, fun U e hU he => ?_⟩
  · rcases List.mem_append.1 hs with hs | hs
    · exact h.fits s hs
    · rw [List.mem_singleton.1 hs]
      exact ⟨n, k, hn, hk, hK⟩
  · rw [hcommit] at hU
    cases hU
    rw [hat] at he
    cases he
    exact Node.isDeferred_fill d fragment

end

/-! ## Where a plan stands -/

/-- A spot at a node of the hierarchy: with what is staged the tree has a node there, and it is looked up in
the tree as long as nothing is staged. -/
structure Spot.Sound (K : Fragments) (R T : Node) (s : Spot) (n : Node) : Prop where
  stages : Stages K R T s.staged s.path
  lies : s.detached = some n ∨ s.detached = none ∧ s.staged = []

/-- What a plan for an anchor finds when it follows links below the root. -/
inductive Finds (K : Fragments) (R : Node) (l : Loader) (anchor : PageRef) (links : Chain) :
    Except ResolveError TreePath → Prop
  | node {p : TreePath} {n : Node} : Follows K R links p n → Finds K R l anchor links (.ok p)
  | lost {done rest : Chain} {link : PageRef} {p : TreePath} {n : Node} :
      links = done ++ link :: rest → Follows K R done p n →
      (∀ h, n.handle? = some h → ∃ fragment, K h = some fragment) →
      childIndex? (n.childrenIn K) link = none → Finds K R l anchor links (.error (.unresolved anchor link p))
  | unloaded {done rest : Chain} {link : PageRef} {p : TreePath} {n : Node} {h : Handle} {id : FetchId}
      {e : LoadError} :
      links = done ++ link :: rest → Follows K R done p n → n.handle? = some h →
      l.fetches[id]? = some { handle := h, outcome? := some (.error e) } →
      Finds K R l anchor links (.error (.load e))

/-- What a plan may have come to. -/
inductive Reached (K : Fragments) (R T : Node) (l : Loader) (anchor : PageRef) (links : Chain) :
    Progress → Prop
  | arrived {p : TreePath} {staged : List (TreePath × List Node)} :
      Finds K R l anchor links (.ok p) → Stages K R T staged p → Reached K R T l anchor links (.arrived p staged)
  | failed {e : ResolveError} : Finds K R l anchor links (.error e) → Reached K R T l anchor links (.failed e)
  | waiting {w : Waiting} {done : Chain} {n : Node} :
      w.anchor = anchor → links = done ++ w.link :: w.rest → Follows K R done w.spot.path n →
      n.handle? = some w.handle → l.Holds w.handle w.fetch → Spot.Sound K R T w.spot n →
      Reached K R T l anchor links (.waiting w)

/-- A plan that waits still stands where it did when the tree and the loader have moved on. -/
theorem Reached.grow {K K' : Fragments} {R T U : Node} {may : Handle → Answer → Prop} {l l' : Loader}
    {anchor : PageRef} {links : Chain} {w : Waiting} (h : Reached K R T l anchor links (.waiting w))
    (hT : Unfolds K R T) (hK : K.Sub K') (hTU : Unfolds K' T U) (hm : Loader.Moves may l l') :
    Reached K' R U l' anchor links (.waiting w) := by
  cases h with
  | waiting ha hl hf hh hw hs =>
    exact .waiting ha hl (hf.of_sub hK) hh (hm.holds hw) ⟨hs.stages.grow hT hK hTU, hs.lies⟩

/-! ## One level down -/

section
variable {K : Fragments} {R T n : Node} {s : Spot}

theorem spot_start (K : Fragments) (R T : Node) : Spot.Sound K R T {} R where
  stages := ⟨by simp, T, T, rfl, rfl⟩
  lies := .inr ⟨rfl, rfl⟩

/-- The node that a plan sees at its spot. -/
theorem Spot.Sound.node (hs : Spot.Sound K R T s n) (hT : Unfolds K R T) (hn : R.atIn? K s.path = some n) :
    ∃ d, s.node T = .ok d ∧ Unfolds K n d ∧
      (s.detached = some n ∧ d = n ∨ s.detached = none ∧ s.staged = [] ∧ T.at? s.path = some d) := by
  rcases hs.lies with hd | ⟨hd, hst⟩
  · exact ⟨n, by simp [Spot.node, hd], .refl K n, .inl ⟨hd, rfl⟩⟩
  · obtain ⟨T', d, hT', hat⟩ := hs.stages.opens
    rw [hst] at hT'
    cases hT'
    obtain ⟨n', hn', hnd⟩ := hT.atIn? hat
    obtain rfl : n' = n := Option.some.inj (hn'.symm.trans hn)
    exact ⟨d, by simp [Spot.node, hd, Node.find, hat], hnd, .inr ⟨hd, hst, hat⟩⟩

/-- Below a node that is not deferred, the way goes on where the spot lies. -/
theorem Spot.Sound.down (hs : Spot.Sound K R T s n) (hT : Unfolds K R T) (hn : R.atIn? K s.path = some n)
    {d : Node} (hnd : Unfolds K n d) (hopen : d.isDeferred = false)
    (hd : s.detached = some n ∧ d = n ∨ s.detached = none ∧ s.staged = [] ∧ T.at? s.path = some d)
    {i : Nat} {c : Node} (hc : (n.childrenIn K)[i]? = some c) :
    Spot.Sound K R T
      { s with path := s.path ++ [i], detached := if s.detached.isSome then d.children[i]? else none } c := by
  refine ⟨hs.stages.down hT hn ?_ hc, ?_⟩
  · intro T' e hT' he
    rcases hd with ⟨-, rfl⟩ | ⟨-, hst, hat⟩
    · obtain ⟨hTT', -⟩ := commit_unfolds hT (.refl K T) hs.stages.fits hT'
      obtain ⟨n', hn', hne⟩ := (hT.trans hTT').atIn? he
      obtain rfl : n' = d := Option.some.inj (hn'.symm.trans hn)
      exact hne.not_deferred hopen
    · rw [hst] at hT'
      cases hT'
      obtain rfl : e = d := Option.some.inj (he.symm.trans hat)
      exact hopen
  · rcases hd with ⟨hdet, rfl⟩ | ⟨hdet, hst, -⟩
    · left
      cases d with
      | deferred _ _ _ => cases hopen
      | leaf _ _ => cases hc
      | inline _ _ _ =>
        simp only [hdet, Option.isSome_some, if_true]
        exact hc
    · exact .inr ⟨by simp [hdet], hst⟩

/-- Into the fragment of a deferred node the way goes on apart from the tree. -/
theorem Spot.Sound.enter (hs : Spot.Sound K R T s n) (hT : Unfolds K R T) (hn : R.atIn? K s.path = some n)
    {h : Handle} (hh : n.handle? = some h) {fragment : List Node} (hk : K h = some fragment) {i : Nat} {c : Node}
    (hc : (n.childrenIn K)[i]? = some c) :
    Spot.Sound K R T
      { path := s.path ++ [i], staged := s.staged ++ [(s.path, fragment)], detached := fragment[i]? } c := by
  obtain ⟨hstage, hopen⟩ := hs.stages.stage hT hn hh hk
  refine ⟨hstage.down hT hn hopen hc, .inl ?_⟩
  cases n with
  | deferred l k h' =>
    cases hh
    simpa [Node.childrenIn, hk] using hc
  | _ => cases hh

end

/-! ## A turn of a plan -/

section
variable {K : Fragments} {R T n : Node} {anchor link : PageRef} {links done rest : Chain} {s : Spot} {l : Loader}

/-- A plan that has its fragment enters it and goes on, or finds no child there. -/
theorem enter_reached (hT : Unfolds K R T) (hlinks : links = done ++ link :: rest)
    (hf : Follows K R done s.path n) (hs : Spot.Sound K R T s n) {h : Handle} (hh : n.handle? = some h)
    {fragment : List Node} (hk : K h = some fragment)
    (hwalk : ∀ s' c, Follows K R (done ++ [link]) s'.path c → Spot.Sound K R T s' c →
      Loader.Moves Loader.silent l (walk T anchor rest s' l).2 ∧
        Reached K R T (walk T anchor rest s' l).2 anchor links (walk T anchor rest s' l).1) :
    ∀ x, (match s.enter anchor link fragment with
        | .error e => (Progress.failed e, l)
        | .ok s' => walk T anchor rest s' l) = x →
      Loader.Moves Loader.silent l x.2 ∧ Reached K R T x.2 anchor links x.1 := by
  have hcs : n.childrenIn K = fragment := by
    cases n with
    | deferred _ _ _ =>
      cases hh
      simp [Node.childrenIn, hk]
    | _ => cases hh
  rintro x rfl
  simp only [Spot.enter, Spot.descend, if_true]
  cases hi : childIndex? fragment link with
  | none =>
    refine ⟨.refl, .failed (.lost hlinks hf (fun h' hh' => ⟨fragment, ?_⟩) (by rw [hcs, hi]))⟩
    rw [hh] at hh'
    cases hh'
    exact hk
  | some i =>
    obtain ⟨c, hc⟩ := getElem?_of_childIndex? hi
    rw [← hcs] at hi hc
    exact hwalk _ c (hf.snoc hi hc) (hs.enter hT hf.atIn? hh hk hc)

/-- However far a walk goes, it comes to where the links lead in the hierarchy. -/
theorem walk_reached (hT : Unfolds K R T) (hl : l.Sound) (hK : l.fragment? = K) (hlinks : links = done ++ rest)
    (hf : Follows K R done s.path n) (hs : Spot.Sound K R T s n) :
    Loader.Moves Loader.silent l (walk T anchor rest s l).2 ∧
      Reached K R T (walk T anchor rest s l).2 anchor links (walk T anchor rest s l).1 := by
  -- One level for each link that is left: the spot moves on, and so may the loader.
  induction rest generalizing done s n l with
  | nil =>
    rw [List.append_nil] at hlinks
    subst hlinks
    exact ⟨.refl, .arrived (.node hf) hs.stages⟩
  | cons link rest ih =>
    obtain ⟨d, hnode, hnd, hd⟩ := hs.node hT hf.atIn?
    have hlinks' : links = (done ++ [link]) ++ rest := by simp [hlinks]
    rw [walk, hnode]
    simp only
    cases hdh : d.handle? with
    | none =>
      -- The children are in the tree, with the links that they have in the hierarchy.
      have hopen : d.isDeferred = false := Node.isDeferred_eq_false.2 hdh
      have hidx := childIndex?_of_links ((hnd.children hopen).map_eq Unfolds.link_eq) link
      simp only [Spot.descend]
      cases hi : childIndex? d.children link with
      | none => exact ⟨.refl, .failed (.lost hlinks hf (fun _ => hnd.known hopen) (by rw [← hidx, hi]))⟩
      | some i =>
        rw [hidx] at hi
        obtain ⟨c, hc⟩ := getElem?_of_childIndex? hi
        exact ih hl hK hlinks' (hf.snoc hi hc) (hs.down hT hf.atIn? hnd hopen hd hc)
    | some h =>
      -- The children are a fragment, which is there already, has failed to load or is not there yet.
      have hdef : d.isDeferred = true := by simp [Node.isDeferred, hdh]
      obtain rfl := hnd.eq_of_deferred hdef
      have hm := Loader.join_moves l h
      have hh := Loader.holds_join hl h
      have hl' := hm.sound hl
      have hK' := hm.fragment_silent.trans hK
      rcases Loader.poll_cases hl' hh none with ⟨o, ho, hp⟩ | ⟨-, -, hp⟩ | ⟨b, -, hb, -⟩
      · cases o with
        | error e =>
          simp only [hp]
          exact ⟨hm, .failed (.unloaded hlinks hf hdh ho)⟩
        | ok fragment =>
          simp only [hp]
          have hk : K h = some fragment := hK' ▸ Loader.fragment?_of_fetch hl' ho
          obtain ⟨hm', hr⟩ := enter_reached hT hlinks hf hs hdh hk
            (fun s' c hf' hs' => ih hl' hK' hlinks' hf' hs') _ rfl
          exact ⟨hm.trans hm', hr⟩
      · simp only [hp]
        exact ⟨hm, .waiting rfl hlinks hf hdh hh hs⟩
      · cases hb

/-- A plan that waited and goes on. -/
theorem resume_reached {w : Waiting} (hT : Unfolds K R T) (hl : l.Sound) (hK : l.fragment? = K)
    (hr : Reached K R T l anchor links (.waiting w)) {o : Outcome}
    (ho : l.fetches[w.fetch]? = some { handle := w.handle, outcome? := some o }) :
    Loader.Moves Loader.silent l (resume T w o l).2 ∧
      Reached K R T (resume T w o l).2 anchor links (resume T w o l).1 := by
  cases hr with
  | @waiting _ done n ha hlinks hf hh hw hs =>
    subst ha
    cases o with
    | error e => exact ⟨.refl, .failed (.unloaded hlinks hf hh ho)⟩
    | ok fragment =>
      have hk : K w.handle = some fragment := hK ▸ Loader.fragment?_of_fetch hl ho
      refine enter_reached hT hlinks hf hs hh hk (fun s' c hf' hs' => ?_) _ rfl
      exact walk_reached hT hl hK (by simp [hlinks]) hf' hs'

end

end Plan
end DocNav
