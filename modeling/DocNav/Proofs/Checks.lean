import DocNav.Cli.Run
import DocNav.Proofs.FragmentFiles
import DocNav.Proofs.Plans
/-!
# Checking anchors and resolving them

`check --all` locates all anchors on one engine, which keeps what it has loaded and opened for the anchors before, while
`resolve` locates one on an engine of its own. Both come to the same for each anchor, because what a plan finds depends on
the data and the source alone (`Engine.perform_plan`). What they come to is a `verdict`, in the words of the reports.
Main result: `check_agrees_with_resolve`.
-/

namespace DocNav

/-! ## What is indexed -/

theorem firstEntries_nodup (es : List (PageRef × Chain)) : ((firstEntries es).map Prod.fst).Nodup := by
  induction es with
  | nil => exact List.nodup_nil
  | cons e es ih =>
    rw [firstEntries, List.map_cons, List.nodup_cons]
    constructor
    · intro h
      obtain ⟨f, hf, hfe⟩ := List.mem_map.1 h
      have hne : f.1 ≠ e.1 := by simpa using (List.mem_filter.1 hf).2
      exact hne hfe
    · exact ih.sublist (List.filter_sublist.map Prod.fst)

theorem AnchorIndex.mem_anchors {ix : AnchorIndex} {a : PageRef} : a ∈ ix.anchors ↔ ix.contains a := by
  simp [anchors, contains, find?, List.lookup_isSome_iff]

theorem PageRef.sort_perm (refs : List PageRef) : (sort refs).Perm refs := List.mergeSort_perm ..

namespace Cli

/-! ## What a run says of an anchor -/

/-- What a report of locating an anchor says: the path, or the words of the failure. A report that has a path but no
labels says neither. -/
inductive Report.Says : Report → Except String String → Prop
  | located {path labels : String} {notes : List String} : Says { out := [path, labels], err := notes } (.ok path)
  | failed {words : String} : Says { exitCode := 1, err := ["Error: " ++ words] } (.error words)

theorem Report.Says.out_of_ok {r : Report} {path : String} (h : r.Says (.ok path)) :
    ∃ labels, r.out = [path, labels] := by
  cases h
  exact ⟨_, rfl⟩

theorem Report.Says.err_of_error {r : Report} {words : String} (h : r.Says (.error words)) :
    r.out = [] ∧ r.err = ["Error: " ++ words] := by
  cases h
  exact ⟨rfl, rfl⟩

/-- A report says one thing at most. -/
theorem Report.Says.unique {r : Report} {x y : Except String String} (hx : r.Says x) (hy : r.Says y) : x = y := by
  cases x with
  | ok path =>
    obtain ⟨labels, hout⟩ := hx.out_of_ok
    cases y with
    | ok path' =>
      obtain ⟨labels', hout'⟩ := hy.out_of_ok
      rw [hout] at hout'
      injection hout' with hpath
      rw [hpath]
    | error words' =>
      have hnone := hy.err_of_error.1
      rw [hout] at hnone
      cases hnone
  | error words =>
    obtain ⟨hout, herr⟩ := hx.err_of_error
    cases y with
    | ok path' =>
      obtain ⟨labels', hout'⟩ := hy.out_of_ok
      rw [hout] at hout'
      cases hout'
    | error words' =>
      have hwords := herr.symm.trans hy.err_of_error.2
      simpa using hwords

/-- The lines of a check for the anchors that it locates. -/
def okLines (verdict : PageRef → Except String String) (anchors : List PageRef) : List String :=
  anchors.filterMap fun a => (verdict a).toOption.map fun path => "ok    " ++ a.text ++ " " ++ path

/-- Its lines for those that it does not. -/
def failLines (verdict : PageRef → Except String String) (anchors : List PageRef) : List String :=
  anchors.filterMap fun a =>
    match verdict a with
    | .ok _ => none
    | .error words => some ("FAIL  " ++ a.text ++ ": " ++ words)

/-- How many anchors are not located. -/
def rejected (verdict : PageRef → Except String String) (anchors : List PageRef) : Nat :=
  anchors.countP fun a => !(verdict a).isOk

/-- The report of a check with such verdicts, after so many fragments were loaded. -/
def checkReport (verdict : PageRef → Except String String) (anchors : List PageRef) (loaded : Nat) : Report :=
  if rejected verdict anchors = 0 then
    { out := okLines verdict anchors
      err := ["All " ++ toString anchors.length ++ " anchors resolved (" ++ toString loaded ++ " fragments loaded)"] }
  else
    Report.fail { out := okLines verdict anchors, err := failLines verdict anchors }
      (.unresolved (rejected verdict anchors) anchors.length)

theorem failLines_eq_nil {verdict : PageRef → Except String String} {anchors : List PageRef}
    (h : rejected verdict anchors = 0) : failLines verdict anchors = [] := by
  rw [failLines, List.filterMap_eq_nil_iff]
  intro a ha
  have hok := List.countP_eq_zero.1 h a ha
  cases hverdict : verdict a with
  | ok path => rfl
  | error words => simp [hverdict, Except.isOk, Except.toBool] at hok

/-- How many are rejected does not depend on their order. -/
theorem rejected_perm {verdict : PageRef → Except String String} {anchors order : List PageRef}
    (h : order.Perm anchors) : rejected verdict order = rejected verdict anchors :=
  h.countP_eq _

/-- What the anchor resolves to, in the words of a report. -/
def verdictOf (data : NavData) (source : Handle → Answer) (a : PageRef) : Except String String :=
  match (Request.plan a).resolved? data source with
  | none => .error ""
  | some (.ok p) => .ok p.text
  | some (.error err) => .error err.message

/-! ## One engine for each anchor, or one for all -/

section
variable {σ : Type} {fetch : Handle → StateM σ Answer} {s : σ} {data : NavData} {source : Handle → Answer} {e : Engine}

/-- What a plan of the anchor comes to is its verdict, whatever the engine has been through before. -/
theorem perform_verdict (hfetch : ∀ h, fetch h s = (source h, s)) (he : e.Serves data source) (a : PageRef) :
    ∃ (e' : Engine) (x : Except ResolveError TreePath), e.perform fetch (.plan a) s = ((e', x.map .located), s) ∧
      e'.Serves data source ∧
      verdictOf data source a = (x.map TreePath.text).mapError ResolveError.message ∧
      ∀ p, x = .ok p → ∃ n, e'.tree.at? p = some n := by
  obtain ⟨e', ending, hperform, hserves, x, hx, rfl, htree⟩ := Engine.perform_plan he a
  refine ⟨e', x, ?_, hserves, ?_, htree⟩
  · rw [Engine.perform_asks hfetch, hperform]
  · rw [verdictOf, hx]
    cases x with
    | error err => rfl
    | ok p => rfl

/-- The labels are never missing where the path is found. -/
theorem reportResolve_says (hfetch : ∀ h, fetch h s = (source h, s)) (he : e.Serves data source) (a : PageRef) :
    (reportResolve fetch e a false s).1.Says (verdictOf data source a) := by
  obtain ⟨e', x, hrun, -, hverdict, htree⟩ := perform_verdict hfetch he a
  rw [hverdict]
  cases x with
  | error err =>
    have hreport : (reportResolve fetch e a false s).1 = Report.fail {} (.resolve err) := by
      simp [reportResolve, bind, StateT.bind, hrun, Except.map, pure, StateT.pure]
    rw [hreport]
    exact .failed
  | ok p =>
    obtain ⟨n, hn⟩ := htree p rfl
    obtain ⟨labels, hlabels⟩ := Node.labels_of_at? hn
    have hreport : ∃ notes, (reportResolve fetch e a false s).1 =
        { out := [p.text, String.intercalate " > " labels], err := notes } := by
      simp [reportResolve, bind, StateT.bind, hrun, Except.map, pure, StateT.pure, Answered.path, hlabels]
    obtain ⟨notes, hnotes⟩ := hreport
    rw [hnotes]
    exact .located

/-- A check tells the verdicts of its anchors in turn. Its engine keeps what it has loaded for them. -/
theorem Checked.all_tells (hfetch : ∀ h, fetch h s = (source h, s)) (anchors : List PageRef) (c : Checked)
    (hc : c.engine.Serves data source) :
    ∃ c', Checked.all fetch c anchors s = (c', s) ∧
      c'.failed = c.failed + rejected (verdictOf data source) anchors ∧
      c'.report = { c.report with
        out := c.report.out ++ okLines (verdictOf data source) anchors
        err := c.report.err ++ failLines (verdictOf data source) anchors } := by
  induction anchors generalizing c with
  | nil => exact ⟨c, rfl, by simp [rejected], by simp [okLines, failLines]⟩
  | cons a rest ih =>
    -- The engine that goes on to the rest is another one, but it serves the same data.
    obtain ⟨e', x, hrun, hserves, hverdict, -⟩ := perform_verdict hfetch hc a
    cases x with
    | error err =>
      let line := "FAIL  " ++ a.text ++ ": " ++ err.message
      obtain ⟨c', hall, hfailed, hreport⟩ := ih
        { engine := e', report := { c.report with err := c.report.err ++ [line] }, failed := c.failed + 1 } hserves
      refine ⟨c', ?_, ?_, ?_⟩
      · rw [← hall]
        simp [Checked.all, bind, StateT.bind, hrun, Except.map, line]
      · rw [hfailed]
        simp [rejected, hverdict, Except.map, Except.mapError, Except.isOk, Except.toBool]
        omega
      · rw [hreport]
        simp [okLines, failLines, hverdict, Except.map, Except.mapError, Except.toOption, line]
    | ok p =>
      let line := "ok    " ++ a.text ++ " " ++ p.text
      obtain ⟨c', hall, hfailed, hreport⟩ := ih
        { c with engine := e', report := { c.report with out := c.report.out ++ [line] } } hserves
      refine ⟨c', ?_, ?_, ?_⟩
      · rw [← hall]
        simp [Checked.all, bind, StateT.bind, hrun, Except.map, Answered.path, line]
      · rw [hfailed]
        simp [rejected, hverdict, Except.map, Except.mapError, Except.isOk, Except.toBool]
      · rw [hreport]
        simp [okLines, failLines, hverdict, Except.map, Except.mapError, Except.toOption, line]

theorem reportCheck_tells (hfetch : ∀ h, fetch h s = (source h, s)) (he : e.Serves data source) :
    ∃ loaded, (reportCheck fetch e true s).1 =
      checkReport (verdictOf data source) (PageRef.sort e.index.anchors) loaded := by
  obtain ⟨c, hall, hfailed, hreport⟩ := Checked.all_tells hfetch (PageRef.sort e.index.anchors) { engine := e } he
  refine ⟨c.engine.loader.fetchCount, ?_⟩
  simp only [Nat.zero_add, List.nil_append] at hfailed hreport
  simp only [reportCheck, anchorsToCheck?, if_true, bind, StateT.bind, hall, hfailed]
  by_cases hzero : rejected (verdictOf data source) (PageRef.sort e.index.anchors) = 0
  · simp [checkReport, hzero, hreport, failLines_eq_nil hzero, pure, StateT.pure]
  · simp [checkReport, hzero, hreport, pure, StateT.pure]

end

/-! ## From the files -/

section
variable {workingDir : FilePath} {settings : List (String × String)} {i : Invocation} {files files' : FileTree}
  {o : Opened (StateM FileTree)}

theorem exists_of_bind {σ α β : Type} {x : StateM σ α} {f : α → StateM σ β} {s s' : σ} {b : β}
    (h : (x >>= f) s = (b, s')) : ∃ a s₁, x s = (a, s₁) ∧ f a s₁ = (b, s') :=
  ⟨(x s).1, (x s).2, rfl, h⟩

/-- Whatever the command, an opened engine starts on some data, with the fragments in some folder. -/
theorem openEngine_ok (h : openEngine (FileTree.host workingDir settings) i files = (.ok o, files')) :
    ∃ data settings' remembered dir, o.engine = .start data settings' remembered ∧
      o.fetch = Folder.fetch (FileTree.host workingDir settings).readText dir := by
  obtain ⟨config, files₁, -, h⟩ := exists_of_bind h
  cases config with
  | error e => cases h
  | ok c =>
    obtain ⟨data, files₂, -, h⟩ := exists_of_bind h
    cases data with
    | error e => cases h
    | ok data =>
      obtain ⟨remembered, files₃, -, h⟩ := exists_of_bind h
      cases remembered with
      | error fault => cases h
      | ok remembered =>
        cases h
        exact ⟨data, _, remembered, _, rfl, rfl⟩

theorem run_of_open {rounds : Nat} {args : List String} (hargs : parse args = .run i)
    (h : openEngine (FileTree.host workingDir settings) i files = (.ok o, files')) :
    run (FileTree.host workingDir settings) rounds args files = runVerb rounds o i.verb files' := by
  simp only [run, hargs, bind, StateT.bind, h]

/-- What a command has before it: an engine on the data, and fragments that the source answers for. -/
structure Opened.Offers (o : Opened (StateM FileTree)) (files : FileTree) (data : NavData)
    (source : Handle → Answer) : Prop where
  serves : o.engine.Serves data source
  fetch : ∀ h, o.fetch h files = (source h, files)

theorem openEngine_offers (h : openEngine (FileTree.host workingDir settings) i files = (.ok o, files')) :
    ∃ data source, o.Offers files' data source ∧ o.engine.tree = data.root := by
  obtain ⟨data, settings', remembered, dir, hengine, hfetch⟩ := openEngine_ok h
  have hread (p : FilePath) :
      (FileTree.host workingDir settings).readText p files' = (files'.readText workingDir p, files') := rfl
  refine ⟨data, Folder.fetch (m := Id) (files'.readText workingDir) dir, ⟨?_, ?_⟩, ?_⟩
  · rw [hengine]
    exact Engine.serves_start data settings' remembered _
  · rw [hfetch]
    exact Folder.fetch_asks hread dir
  · rw [hengine]
    rfl

/-- Two commands have the same before them: the data they have read, and what each fragment answers. -/
structure Opened.Alike (o : Opened (StateM FileTree)) (files : FileTree) (o₂ : Opened (StateM FileTree))
    (files₂ : FileTree) : Prop where
  tree : o₂.engine.tree = o.engine.tree
  index : o₂.engine.index = o.engine.index
  fragments : ∀ h, (o₂.fetch h files₂).1 = (o.fetch h files).1

theorem Opened.Alike.offers {i₂ : Invocation} {o₂ : Opened (StateM FileTree)} {files₂ files₂' : FileTree}
    {data : NavData} {source : Handle → Answer} (halike : o.Alike files' o₂ files₂')
    (ho : o.Offers files' data source) (htree : o.engine.tree = data.root)
    (h : openEngine (FileTree.host workingDir settings) i₂ files₂ = (.ok o₂, files₂')) :
    o₂.Offers files₂' data source := by
  obtain ⟨data₂, source₂, ho₂, htree₂⟩ := openEngine_offers h
  have hroot : data₂.root = data.root := by rw [← htree₂, halike.tree, htree]
  have hsource : source₂ = source := by
    funext k
    have hk := halike.fragments k
    rwa [ho₂.fetch, ho.fetch] at hk
  subst hsource
  refine ⟨⟨?_, ho₂.serves.attested, ?_⟩, ho₂.fetch⟩
  · rw [← hroot]
    exact ho₂.serves.sound
  · rw [halike.index]
    exact ho.serves.index

/-- Checking all anchors and resolving each one on its own agree: there is one `verdict` for each anchor, which is what
`resolve` says on an engine that was just opened, in the same run of the program or in any other with the same before it,
and what the lines of the check say. The check counts the anchors that are rejected, each once, in whatever order it
goes through them. -/
theorem check_agrees_with_resolve (rounds : Nat) {args : List String} (hargs : parse args = .run i)
    (hverb : i.verb = .check true)
    (hopen : openEngine (FileTree.host workingDir settings) i files = (.ok o, files')) :
    ∃ (anchors : List PageRef) (verdict : PageRef → Except String String),
      (anchors.Nodup ∧ ∀ a, a ∈ anchors ↔ o.engine.index.contains a) ∧
      (∃ loaded, (run (FileTree.host workingDir settings) rounds args files).1 = checkReport verdict anchors loaded) ∧
      (∀ a, (runVerb rounds o (.resolve a false) files').1.Says (verdict a)) ∧
      (∀ {a args₂ i₂ o₂ files₂ files₂'}, parse args₂ = .run i₂ → i₂.verb = .resolve a false →
        openEngine (FileTree.host workingDir settings) i₂ files₂ = (.ok o₂, files₂') → o.Alike files' o₂ files₂' →
        (run (FileTree.host workingDir settings) rounds args₂ files₂).1.Says (verdict a)) ∧
      ∀ order, order.Perm anchors →
        ∃ c, Checked.all o.fetch { engine := o.engine } order files' = (c, files') ∧
          c.failed = rejected verdict anchors ∧
          c.report = { out := okLines verdict order, err := failLines verdict order } := by
  obtain ⟨data, source, ho, htree⟩ := openEngine_offers hopen
  have hperm : (PageRef.sort o.engine.index.anchors).Perm o.engine.index.anchors := PageRef.sort_perm _
  refine ⟨PageRef.sort o.engine.index.anchors, verdictOf data source, ⟨?_, ?_⟩, ?_, ?_, ?_, ?_⟩
  · rw [hperm.nodup_iff, ho.serves.index]
    exact firstEntries_nodup _
  · intro a
    rw [hperm.mem_iff, AnchorIndex.mem_anchors]
  · rw [run_of_open hargs hopen, hverb]
    exact reportCheck_tells ho.fetch ho.serves
  · intro a
    exact reportResolve_says ho.fetch ho.serves a
  · intro a args₂ i₂ o₂ files₂ files₂' hargs₂ hverb₂ hopen₂ halike
    have ho₂ : o₂.Offers files₂' data source := halike.offers ho htree hopen₂
    rw [run_of_open hargs₂ hopen₂, hverb₂]
    exact reportResolve_says ho₂.fetch ho₂.serves a
  · intro order horder
    obtain ⟨c, hall, hfailed, hreport⟩ := Checked.all_tells ho.fetch order { engine := o.engine } ho.serves
    refine ⟨c, hall, ?_, ?_⟩
    · rw [hfailed, rejected_perm horder, Nat.zero_add]
    · rw [hreport, List.nil_append, List.nil_append]

/-- Data whose table leads to a page that the fragment of its chapter does not have. -/
def staleTable : FileTree :=
  ⟨.directory
    [("nav.json",
        .file (.text "\x7b\"tree\":[\"R\",null,[[\"F\",\"f\",\"f\"]]],\"anchors\":\x7b\"a\":[\"f\",\"a\"]\x7d\x7d")),
      ("f.json", .file (.text "[[\"b\",\"b\",null]]"))]⟩

theorem openEngine_staleTable :
    ∃ o files', openEngine (FileTree.host ⟨"/"⟩ []) { source := some ⟨"nav.json"⟩, verb := .check true } staleTable =
        (.ok o, files') ∧
      o.engine.index.anchors = [⟨"a"⟩, ⟨"f"⟩] := by
  have hindex : (openEngine (FileTree.host ⟨"/"⟩ []) { source := some ⟨"nav.json"⟩, verb := .check true }
      staleTable).1.toOption.map (·.engine.index.anchors) = some [⟨"a"⟩, ⟨"f"⟩] := by decide +kernel
  cases hresult : openEngine (FileTree.host ⟨"/"⟩ []) { source := some ⟨"nav.json"⟩, verb := .check true }
      staleTable with
  | mk result files' =>
    rw [hresult] at hindex
    cases result with
    | error f => cases hindex
    | ok o => exact ⟨o, files', rfl, Option.some.inj hindex⟩

/-- The chapter is found and the page is not, in a check as in two separate runs. -/
theorem check_of_stale_table :
    let host := FileTree.host ⟨"/"⟩ []
    let words := "Cannot resolve a: no child linking to a under [0]"
    (run host 0 ["-s", "nav.json", "resolve", "f"] staleTable).1 = { out := ["[0]", "R > F"] } ∧
      (run host 0 ["-s", "nav.json", "resolve", "a"] staleTable).1 =
        { exitCode := 1, err := ["Error: " ++ words] } ∧
      (run host 0 ["-s", "nav.json", "check", "--all"] staleTable).1 =
        { exitCode := 1, out := ["ok    f [0]"]
          err := ["FAIL  a: " ++ words, "Error: 1 of 2 anchors failed to resolve"] } := by
  intro host words
  let i (verb : Verb) : Invocation := { source := some ⟨"nav.json"⟩, verb }
  have hf : (run host 0 ["-s", "nav.json", "resolve", "f"] staleTable).1 = { out := ["[0]", "R > F"] } := by
    decide +kernel
  have ha : (run host 0 ["-s", "nav.json", "resolve", "a"] staleTable).1 =
      { exitCode := 1, err := ["Error: " ++ words] } := by
    decide +kernel
  refine ⟨hf, ha, ?_⟩
  obtain ⟨o, files', hopen, hix⟩ := openEngine_staleTable
  have hargs : parse ["-s", "nav.json", "check", "--all"] = .run (i (.check true)) := by decide +kernel
  obtain ⟨anchors, verdict, ⟨hnodup, hmem⟩, ⟨loaded, hreport⟩, -, halone, -⟩ :=
    check_agrees_with_resolve 0 hargs rfl hopen
  have hsame : o.Alike files' o files' := ⟨rfl, rfl, fun _ => rfl⟩
  have hargsf : parse ["-s", "nav.json", "resolve", "f"] = .run (i (.resolve ⟨"f"⟩ false)) := by decide +kernel
  have hargsa : parse ["-s", "nav.json", "resolve", "a"] = .run (i (.resolve ⟨"a"⟩ false)) := by decide +kernel
  have hsaysf := halone hargsf rfl hopen hsame
  have hsaysa := halone hargsa rfl hopen hsame
  rw [hf] at hsaysf
  rw [ha] at hsaysa
  have hverdictf : verdict ⟨"f"⟩ = .ok "[0]" := hsaysf.unique .located
  have hverdicta : verdict ⟨"a"⟩ = .error words := hsaysa.unique .failed
  have hperm : anchors.Perm [⟨"a"⟩, ⟨"f"⟩] := by
    rw [List.perm_ext_iff_of_nodup hnodup (by decide)]
    intro a
    rw [hmem, ← AnchorIndex.mem_anchors, hix]
  have hrejected : rejected verdict anchors = 1 := by
    rw [rejected_perm hperm]
    simp [rejected, hverdictf, hverdicta, Except.isOk, Except.toBool]
  have hok : okLines verdict anchors = ["ok    f [0]"] := by
    apply List.perm_singleton.1
    refine (hperm.filterMap _).trans ?_
    simp [hverdictf, hverdicta, Except.toOption]
  have hfail : failLines verdict anchors = ["FAIL  a: " ++ words] := by
    apply List.perm_singleton.1
    refine (hperm.filterMap _).trans ?_
    simp [hverdictf, hverdicta]
  rw [hreport, checkReport, hrejected, hok, hfail, hperm.length_eq, if_neg Nat.one_ne_zero]
  rfl

end

end Cli
end DocNav
