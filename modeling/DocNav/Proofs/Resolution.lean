import DocNav.Proofs.Desk
import DocNav.Proofs.References
/-!
# What anchors resolve to

When the source always answers the same to a handle, what a plan finds depends on nothing else that happens to
the engine: not on what was loaded before, not on the other plans, and not on the order in which fetches end.
`lookFor` is a walk with all answers at hand, from the root that the engine started with.

Main result: `resolves_as_the_source_answers`. Every plan that ends has found what `lookFor` finds.
-/

namespace DocNav

/-! ## A walk with all answers at hand -/

/-- The children of a node, as the source answers. -/
def Node.childrenFrom (source : Handle → Answer) : Node → Outcome
  | .leaf _ _ => .ok []
  | .inline _ _ cs => .ok cs
  | .deferred _ _ h =>
    match source h with
    | .ok fragment => .ok fragment
    | .error e => .error { handle := h, kind := e.kind, advice := e.advice, words := e.message }

/-- The first of the nodes with this link, and its place. -/
def firstWith (link : PageRef) (cs : List Node) : Option (Node × Nat) :=
  cs.zipIdx.find? fun c => c.1.link = some link

/-- The node that a link leads to: the first with this very link or else, for a link with a `#` in it, the first
that links to what stands before the first of them. -/
def nextNode (cs : List Node) (link : PageRef) : Option (Node × Nat) :=
  firstWith link cs <|> link.bare?.bind fun page => firstWith page cs

/-- Follows the links from a node that lies at the path. -/
def lookFor (source : Handle → Answer) (anchor : PageRef) :
    TreePath → Node → Chain → Except ResolveError TreePath
  | p, _, [] => .ok p
  | p, n, link :: rest =>
    match n.childrenFrom source with
    | .error e => .error (.load e)
    | .ok cs =>
      match nextNode cs link with
      | none => .error (.unresolved anchor link p)
      | some (c, i) => lookFor source anchor (p ++ [i]) c rest

/-- What an anchor resolves to by this entry, if it has one. A chain that begins with the root's own link is followed from
its second. -/
def resolvedBy (root : Node) (source : Handle → Answer) (anchor : PageRef) :
    Option Chain → Except ResolveError TreePath
  | none => .error (.unknownAnchor { anchor })
  | some chain => lookFor source anchor [] root (if chain.head? = root.link then chain.tail else chain)

/-- What a request resolves to: the anchor by its own entry or, if the request is content with its page, by that of the
page where it has none. -/
def Request.resolved? (data : NavData) (source : Handle → Answer) (r : Request) :
    Option (Except ResolveError TreePath) :=
  let ix := AnchorIndex.build data.root data.anchors data.bootstrap
  match r with
  | .plan anchor | .navigate anchor => some (resolvedBy data.root source anchor (ix.find? anchor))
  | .planPage anchor | .follow anchor =>
    some (resolvedBy data.root source anchor ((ix.find? anchor).or (anchor.bare?.bind ix.find?)))
  | .expand _ => none

/-- How a request ends whose plan has found this. -/
def Request.Tells : Request → Except ResolveError TreePath → Ending → Prop
  | _, .error err, ending => ending = .error err
  | .plan _, .ok p, ending | .planPage _, .ok p, ending => ending = .ok (.located p)
  | .navigate _, .ok p, ending => ending = .ok (.landed (.revealed p)) ∨ ending = .ok (.landed .superseded)
  | .follow _, .ok p, ending =>
    ending = .ok (.landed (.revealed p)) ∨ ending = .ok (.landed .ignored) ∨ ending = .ok (.landed .superseded)
  | .expand _, .ok _, _ => False

/-! ## Following links in the hierarchy is that walk -/

theorem Node.childrenFrom_deferred (source : Handle → Answer) (l : String) (k : PageRef) (h : Handle) :
    (Node.deferred l k h).childrenFrom source = .ofAnswer h (source h) := by
  rw [childrenFrom]
  cases source h <;> rfl

theorem firstWith_eq (link : PageRef) (cs : List Node) :
    firstWith link cs = (cs.findIdx? (·.link = some link)).bind fun i => cs[i]?.map (·, i) := by
  have hfrom : ∀ (cs : List Node) (k : Nat), (cs.zipIdx k).find? (fun c => c.1.link = some link) =
      (cs.findIdx? (·.link = some link)).bind fun i => cs[i]?.map (·, k + i) := by
    intro cs
    induction cs with
    | nil => intro k; rfl
    | cons c cs ih =>
      intro k
      rw [List.zipIdx_cons, List.find?_cons, List.findIdx?_cons, ih]
      by_cases hc : c.link = some link
      · simp [hc]
      · simp only [hc, decide_false]
        cases cs.findIdx? (·.link = some link) with
        | none => rfl
        | some i => simp [Nat.add_assoc, Nat.add_comm 1]
  simpa [firstWith] using hfrom cs 0

theorem childIndex?_eq (cs : List Node) (link : PageRef) :
    childIndex? cs link = (cs.findIdx? (·.link = some link)).or
      (link.bare?.bind fun page => cs.findIdx? (·.link = some page)) := by
  rw [childIndex?, link.bare?_eq]
  cases cs.findIdx? (·.link = some link) with
  | some i => rfl
  | none =>
    simp only [Option.none_or]
    split <;> rfl

theorem nextNode_eq (cs : List Node) (link : PageRef) :
    nextNode cs link = (childIndex? cs link).bind fun i => cs[i]?.map (·, i) := by
  rw [nextNode, childIndex?_eq, firstWith_eq]
  cases hi : cs.findIdx? (·.link = some link) with
  | some i =>
    have hlt := (List.findIdx?_eq_some_iff_getElem.1 hi).1
    simp [List.getElem?_eq_getElem hlt]
  | none =>
    cases link.bare? with
    | none => rfl
    | some page => simp [firstWith_eq]

section
variable {source : Handle → Answer} {K : Fragments} (hK : ∀ h fragment, K h = some fragment → source h = .ok fragment)
include hK

theorem childrenFrom_eq {n : Node} (hn : ∀ h, n.handle? = some h → ∃ fragment, K h = some fragment) :
    n.childrenFrom source = .ok (n.childrenIn K) := by
  cases n with
  | leaf _ _ => rfl
  | inline _ _ _ => rfl
  | deferred _ _ h =>
    obtain ⟨fragment, hk⟩ := hn h rfl
    simp [Node.childrenFrom, hK h fragment hk, Node.childrenIn, hk]

theorem Follows.lookFor {n m : Node} {links : Chain} {p : TreePath} (h : Follows K n links p m)
    (anchor : PageRef) (q : TreePath) (rest : Chain) :
    lookFor source anchor q n (links ++ rest) = lookFor source anchor (q ++ p) m rest := by
  induction h generalizing q with
  | here n => simp
  | @down n c m link links i p hi hc _ ih =>
    -- A deferred node that is passed has been loaded.
    have hn : ∀ h, n.handle? = some h → ∃ fragment, K h = some fragment := by
      intro h hh
      cases n with
      | deferred _ _ h' =>
        cases hh
        simp only [Node.childrenIn] at hc
        cases hk : K h with
        | none => simp [hk] at hc
        | some fragment => exact ⟨fragment, rfl⟩
      | _ => cases hh
    rw [List.cons_append, DocNav.lookFor, childrenFrom_eq hK hn]
    simp only [nextNode_eq, hi, hc, Option.bind_some, Option.map_some]
    rw [ih, List.append_assoc, List.singleton_append]

/-- Whatever a plan finds, the walk finds. -/
theorem Plan.Finds.lookFor {R : Node} {l : Loader} (hl : l.Attested fun h a => a = source h) {anchor : PageRef}
    {links : Chain} {x : Except ResolveError TreePath} (h : Plan.Finds K R l anchor links x) :
    DocNav.lookFor source anchor [] R links = x := by
  cases h with
  | node hf =>
    have := hf.lookFor hK anchor [] []
    rwa [List.append_nil] at this
  | lost hlinks hf hn hi =>
    rw [hlinks, hf.lookFor hK, DocNav.lookFor, childrenFrom_eq hK hn]
    simp [nextNode_eq, hi]
  | @unloaded done rest link p n h id e hlinks hf hn he =>
    obtain ⟨a, rfl, ho⟩ := hl id _ he _ rfl
    have hcs : n.childrenFrom source = .error e := by
      cases n with
      | deferred l k h' =>
        cases hn
        exact (Node.childrenFrom_deferred source l k h).trans ho.symm
      | _ => cases hn
    rw [hlinks, hf.lookFor hK, DocNav.lookFor, hcs]

end

/-! ## Entries -/

/-- An index goes on to the page where it has no entry for the anchor itself. -/
theorem AnchorIndex.resolvePage_eq (ix : AnchorIndex) (a : PageRef) :
    ix.resolvePage a = match (ix.find? a).or (a.bare?.bind ix.find?) with
      | some c => .ok c
      | none => .error ⟨a⟩ := by
  unfold AnchorIndex.resolvePage
  rw [a.bare?_eq]
  cases ix.find? a with
  | some c => rfl
  | none =>
    cases a.fragment? with
    | none => rfl
    | some f =>
      simp only [Option.isSome_some, if_true, Option.none_or, Option.bind_some]
      cases ix.find? a.withoutFragment <;> rfl

/-- A request resolves by what it is sought by. -/
theorem Request.resolved?_of_sought {data : NavData} {r : Request} {anchor : PageRef} {found : Except UnknownAnchor Chain}
    (h : r.sought? (.build data.root data.anchors data.bootstrap) = some (anchor, found)) (source : Handle → Answer) :
    ∃ entry : Option Chain, r.resolved? data source = some (resolvedBy data.root source anchor entry) ∧
      found = match entry with
        | some chain => .ok chain
        | none => .error { anchor } := by
  cases r with
  | plan a | navigate a =>
    cases h
    exact ⟨_, rfl, rfl⟩
  | planPage a | follow a =>
    cases h
    exact ⟨_, rfl, AnchorIndex.resolvePage_eq _ _⟩
  | expand path => cases h

/-! ## What a turn tells -/

section
variable {may : Handle → Answer → Prop} {R : Node} {e : Engine} {r : Request} {ticket : Ticket} {turn : Turn}

/-- A request whose plan has ended has ended as the plan tells. -/
theorem Engine.Turns.told {x : Except ResolveError TreePath}
    (h : Turns may R e r (r.purpose? ticket) turn (some x)) :
    turn.engine.Found R r x ∧ ∃ ending, turn.progress = .ended ending ∧ r.Tells x ending := by
  cases h with
  | fails _ _ hf => exact ⟨hf, _, rfl, by cases r <;> rfl⟩
  | @lands e' purpose p _ _ hf hp =>
    have hview := hf.of_view (e'.land purpose p).engine.view
    rw [← land_engine] at hview
    refine ⟨hview, ?_⟩
    cases r with
    | plan _ | planPage _ =>
      cases hp
      exact ⟨_, rfl, rfl⟩
    | expand _ => cases hp
    | navigate anchor =>
      cases hp
      have ht : (Purpose.deepLink anchor ticket).ticket? = some ticket := rfl
      rcases land_cases e' ht p with ⟨-, ho, -⟩ | ⟨hi, -⟩ | ⟨-, ho, -⟩
      · exact ⟨_, ho, .inl rfl⟩
      · cases hi
      · exact ⟨_, ho, .inr rfl⟩
    | follow page =>
      cases hp
      have ht : (Purpose.inbound ticket).ticket? = some ticket := rfl
      rcases land_cases e' ht p with ⟨-, ho, -⟩ | ⟨-, -, ho, -⟩ | ⟨-, ho, -⟩
      · exact ⟨_, ho, .inl rfl⟩
      · exact ⟨_, ho, .inr (.inl rfl)⟩
      · exact ⟨_, ho, .inr (.inr rfl)⟩

/-- Apart from an expansion, a request waits until its plan has ended. -/
theorem Engine.Turns.untold {purpose? : Option Purpose} (h : Turns may R e r purpose? turn none) {ending : Ending}
    (he : turn.progress = .ended ending) : ∃ path, r = .expand path := by
  cases h with
  | waits => cases he
  | refuses _ _ hr _ | opens _ _ hr _ => exact ⟨_, hr⟩

/-- What a plan finds, when the source answers everything alike. -/
theorem Engine.Found.resolved {data : NavData} {source : Handle → Answer} {x : Except ResolveError TreePath}
    (h : e.Found data.root r x) (hl : e.loader.Attested fun h a => a = source h)
    (hix : e.index = .build data.root data.anchors data.bootstrap) : r.resolved? data source = some x := by
  cases h with
  | unknown hsought =>
    rw [hix] at hsought
    obtain ⟨entry, hresolved, hfound⟩ := Request.resolved?_of_sought hsought source
    rw [hresolved]
    cases entry with
    | none =>
      cases hfound
      rfl
    | some chain => cases hfound
  | @walked anchor chain _ hsought hf =>
    rw [hix] at hsought
    obtain ⟨entry, hresolved, hfound⟩ := Request.resolved?_of_sought hsought source
    rw [hresolved]
    cases entry with
    | none => cases hfound
    | some chain =>
      cases hfound
      rw [resolvedBy, ← chainBelow_eq_ite]
      rw [hf.lookFor (fun h fragment hk => (hl.of_fragment hk).symm) hl]

end

/-! ## Runs -/

/-- A report tells what the plan of its request has found, once that has ended. A request that ends otherwise
has no plan: it expands a node, or the panes are not linked and so it is not followed. -/
structure Report.Told (R : Node) (e : Engine) (linked : Bool) (report : Report) : Prop where
  planned : ∀ x, report.planned = some x → ∃ r ending, report.request = some r ∧ e.Found R r x ∧
    report.ending = some ending ∧ r.Tells x ending
  unplanned : ∀ r ending, report.request = some r → report.ending = some ending → report.planned = none →
    (∃ path, r = .expand path) ∨ (∃ page, r = .follow page) ∧ linked = false ∧ ending = .ok (.landed .ignored)

theorem Report.told_of_no_request (R : Node) (e : Engine) (linked : Bool) {report : Report}
    (hr : report.request = none) (hp : report.planned = none) : report.Told R e linked where
  planned x hx := by simp [hp] at hx
  unplanned r _ h := by simp [hr] at h

namespace Desk

variable {R : Node} {d : Desk}

theorem take_told {may : Handle → Answer → Prop} {e : Engine} {r : Request} {ticket : Ticket} {turn : Turn}
    {planned : Option (Except ResolveError TreePath)} (d : Desk) (number : Nat) (navigates linked : Bool)
    (h : e.Turns may R r (r.purpose? ticket) turn planned) :
    (d.take number r navigates turn planned).2.Told R turn.engine linked := by
  constructor
  · rintro x rfl
    obtain ⟨hf, ending, hp, htells⟩ := h.told
    exact ⟨r, ending, rfl, hf, by simp [take, Turn.ending?, hp], htells⟩
  · rintro _ ending hr hending rfl
    cases hr
    cases hp : turn.progress with
    | waiting t => simp [take, Turn.ending?, hp] at hending
    | ended _ => exact .inl (h.untold hp)

/-- Every report of a run tells what its plan has found. -/
theorem step_told (hd : d.Sound R) (ev : Event) :
    (d.step ev).2.Told R (d.step ev).1.engine d.engine.view.mode.isLinked := by
  cases ev with
  | begin r =>
    rcases Engine.begin_turns hd.engine (Event.begin r).answers r with ⟨ht, -⟩ | ⟨⟨page, rfl⟩, hl, hx, ht⟩
    · exact take_told _ _ _ _ ht
    · constructor
      · intro x h
        cases hx.symm.trans h
      · intro r ending hr hending _
        simp only [step, take, ht, Turn.ending?, Option.some.injEq] at hr hending
        exact .inr ⟨⟨page, hr.symm⟩, hl, hending.symm⟩
  | run number now =>
    simp only [step]
    cases hp : d.pending.find? (·.number = number) with
    | none => exact Report.told_of_no_request _ _ _ rfl rfl
    | some p =>
      have hmem := List.mem_of_find?_eq_some hp
      have ht := hd.run_turns hmem number now
      obtain ⟨ticket, hticket⟩ := (hd.pending p hmem).purpose
      rw [hticket] at ht
      exact take_told _ _ _ _ ht
  | select path =>
    simp only [step]
    cases d.engine.select path <;> exact Report.told_of_no_request _ _ _ rfl rfl
  | collapse path => exact Report.told_of_no_request _ _ _ rfl rfl
  | toggle => exact Report.told_of_no_request _ _ _ rfl rfl
  | close => exact Report.told_of_no_request _ _ _ rfl rfl

/-- When the source always answers the same to a handle, every plan that ends has found what `lookFor` finds from
the root that the engine started with, and its request ends accordingly. -/
theorem resolves_as_the_source_answers (data : NavData) (settings : Settings) (remembered : Option Bool)
    (source : Handle → Answer) (events : List Event) (ev : Event)
    (hsource : ∀ ev' ∈ events ++ [ev], ∀ h a, ev'.answers h a → a = source h) :
    let d := (start data settings remembered).after events
    let report := (d.step ev).2
    (∀ x, report.planned = some x → ∃ r ending, report.request = some r ∧ r.resolved? data source = some x ∧
      report.ending = some ending ∧ r.Tells x ending) ∧
    ∀ r ending, report.request = some r → report.ending = some ending → report.planned = none →
      (∃ path, r = .expand path) ∨
        (∃ page, r = .follow page) ∧ d.engine.view.mode.isLinked = false ∧ ending = .ok (.landed .ignored) := by
  intro d report
  have hd : d.Sound data.root := (after_sound (start_sound data settings remembered) events).2
  have hrun : d.after [ev] = (start data settings remembered).after (events ++ [ev]) :=
    (after_append _ _ _).symm
  obtain ⟨hg, -⟩ := after_sound (start_sound data settings remembered) (events ++ [ev])
  rw [← hrun] at hg
  have hgrows : (start data settings remembered).engine.Grows (fun h a => a = source h) (d.step ev).1.engine :=
    hg.mono fun h a ⟨ev', hev, ha⟩ => hsource ev' hev h a ha
  have hl := hgrows.moves.attested (Loader.attested_empty _)
  obtain ⟨hplanned, hunplanned⟩ := step_told hd ev
  refine ⟨fun x hx => ?_, hunplanned⟩
  obtain ⟨r, ending, hr, hf, hending, htells⟩ := hplanned x hx
  exact ⟨r, ending, hr, hf.resolved hl hgrows.index, hending, htells⟩

/-- One plan waits while the node on its way is expanded, which links to the page of the link that led there. -/
theorem resolves_beside_an_expansion :
    let data : NavData :=
      { root := .inline "Main" none [.deferred "Files" ⟨"files.html"⟩ ⟨"files"⟩]
        anchors := ⟨[(⟨"a.html"⟩, [⟨"files.html#list"⟩, ⟨"a.html"⟩])]⟩ }
    let source : Handle → Answer := fun _ => .ok [.leaf "b" none, .leaf "a" (some ⟨"a.html"⟩)]
    let now : Handle → Option Answer := fun h => some (source h)
    let events : List Event := [.begin (.plan ⟨"a.html"⟩), .begin (.expand [0]), .run 1 now]
    (∀ ev ∈ events ++ [.run 0 now], ∀ h a, ev.answers h a → a = source h) ∧
      (((start data {} none).after events).step (.run 0 now)).2.planned = some (.ok [0, 1]) ∧
      (Request.plan ⟨"a.html"⟩).resolved? data source = some (.ok [0, 1]) := by
  intro data source now events
  have hsource : ∀ ev ∈ events ++ [.run 0 now], ∀ h a, ev.answers h a → a = source h := by
    simp only [events, List.cons_append, List.nil_append, List.forall_mem_cons, Event.answers]
    exact ⟨nofun, nofun, fun _ _ h => (Option.some.inj h).symm, fun _ _ h => (Option.some.inj h).symm, nofun⟩
  have hplanned : (((start data {} none).after events).step (.run 0 now)).2.planned = some (.ok [0, 1]) := by
    rfl
  refine ⟨hsource, hplanned, ?_⟩
  obtain ⟨r, -, hr, hx, -⟩ := (resolves_as_the_source_answers data {} none source events _ hsource).1 _ hplanned
  obtain rfl : Request.plan ⟨"a.html"⟩ = r := Option.some.inj hr
  exact hx

end Desk

end DocNav
