import DocNav.Proofs.Frames
import DocNav.Proofs.StateFiles
import DocNav.Session
/-!
# The mode follows the toggles

The mode is kept twice, in the view of the engine in use and in the store, and a restart makes the first from the
second. One operation writes both, so they agree however often a session is toggled and restarted. What holds all the
time is `Session.Follows`; `after_follows` is the run lemma, and the main result is `mode_follows_toggles`.
-/

namespace DocNav

namespace SyncMode

@[simp] theorem ofEnabled_isLinked (m : SyncMode) : ofEnabled m.isLinked = m := by
  cases m <;> rfl

/-- The mode is that of a switch after so many flips: the panes are linked if they were at first and the flips are even
in number, or if they were not and the flips are odd. -/
def Flipped (atFirst : Bool) (n : Nat) (m : SyncMode) : Prop := m = linked ↔ (atFirst = true ↔ Even n)

section
variable {atFirst : Bool} {n : Nat} {m : SyncMode}

theorem flipped_zero : m.Flipped atFirst 0 ↔ m = .ofEnabled atFirst := by
  rw [Flipped, iff_true_right Even.zero]
  cases m <;> cases atFirst <;> decide

theorem Flipped.toggled (h : m.Flipped atFirst n) : m.toggled.Flipped atFirst (n + 1) := by
  have hmode : m.toggled = linked ↔ ¬ m = linked := by cases m <;> decide
  unfold Flipped at h ⊢
  rw [hmode, h, Nat.even_add_one]
  tauto

end
end SyncMode

/-! ## Stores that return what was last set -/

namespace ToggleStore

variable {σ : Type} {store : ToggleStore σ} {kept : σ}

/-- What the store keeps after values were set, the last one last. -/
def setAll (store : ToggleStore σ) (values : List Bool) (kept : σ) : σ := values.foldl (fun k b => store.set b k) kept

theorem setAll_append (store : ToggleStore σ) (values : List Bool) (b : Bool) (kept : σ) :
    store.setAll (values ++ [b]) kept = store.set b (store.setAll values kept) := by
  simp [setAll]

/-- From then on the store returns what was last set, and what it returned before as long as nothing was. -/
def FaithfulFrom (store : ToggleStore σ) (kept : σ) : Prop :=
  ∀ values, store.get (store.setAll values kept) = values.getLast?.or (store.get kept)

/-- A property of what is kept that each setting keeps, and under which it is returned, makes a store faithful. -/
theorem faithfulFrom_of_invariant {P : σ → Prop}
    (h : ∀ k b, P k → store.get (store.set b k) = some b ∧ P (store.set b k)) (hkept : P kept) :
    store.FaithfulFrom kept := by
  have hall : ∀ values, P (store.setAll values kept) := by
    intro values
    induction values using List.reverseRecOn with
    | nil => exact hkept
    | append_singleton values b ih =>
      rw [setAll_append]
      exact (h _ b ih).2
  intro values
  cases values using List.reverseRecOn with
  | nil => rfl
  | append_singleton values b =>
    rw [setAll_append, (h _ b (hall values)).1]
    simp

theorem memory_faithful (kept : Option Bool) : memory.FaithfulFrom kept :=
  faithfulFrom_of_invariant (P := fun _ => True) (fun _ _ _ => ⟨rfl, trivial⟩) trivial

theorem folder_faithful {workingDir dir : FilePath} {files : FileTree} (h : StateFolder.Writable workingDir dir files) :
    (folder workingDir dir).FaithfulFrom files :=
  faithfulFrom_of_invariant (fun _ b hk => StateFolder.get_set hk b) h

end ToggleStore

/-! ## Runs of a session -/

/-- What may happen to a session. A task that is run again may be that of any of its engines. -/
inductive SessionEvent where
  | begin (request : Request)
  | run (task : OwnedTask) (answer : Option Answer)
  | select (path : TreePath)
  | collapse (path : TreePath)
  | toggle
  | close
  | restart

namespace SessionEvent

def isToggle : SessionEvent → Bool
  | toggle => true
  | begin _ | run _ _ | select _ | collapse _ | close | restart => false

def isRestart : SessionEvent → Bool
  | restart => true
  | begin _ | run _ _ | select _ | collapse _ | close | toggle => false

/-- How many toggles there are among events. -/
def toggles (events : List SessionEvent) : Nat := events.countP isToggle

/-- The events after the last restart, or all of them if there is none. -/
def sinceRestart (events : List SessionEvent) : List SessionEvent := events.rtakeWhile (!·.isRestart)

theorem toggles_concat (events : List SessionEvent) (ev : SessionEvent) :
    toggles (events ++ [ev]) = toggles events + if ev.isToggle then 1 else 0 := by
  simp [toggles, List.countP_append, List.countP_singleton]

theorem sinceRestart_concat (events : List SessionEvent) (ev : SessionEvent) :
    sinceRestart (events ++ [ev]) = if ev.isRestart then [] else sinceRestart events ++ [ev] := by
  cases hev : ev.isRestart <;> simp [sinceRestart, hev]

end SessionEvent

namespace Session

open SessionEvent

variable {σ : Type} {s : Session σ} {ev : SessionEvent}

def step (s : Session σ) : SessionEvent → Session σ
  | .begin r => (s.begin r).1
  | .run task answer => (s.run task answer).1
  | .select path => (s.select path).toOption.getD s
  | .collapse path => (s.collapse path).2
  | .toggle => s.toggle
  | .close => s.close
  | .restart => s.restart

def after (s : Session σ) (events : List SessionEvent) : Session σ := events.foldl step s

theorem after_concat (s : Session σ) (events : List SessionEvent) (ev : SessionEvent) :
    s.after (events ++ [ev]) = (s.after events).step ev := by
  simp [after]

/-- The mode that the panes are in. -/
def mode (s : Session σ) : SyncMode := s.engine.view.mode

/-! ## What an event leaves alone -/

/-- Two sessions made from the same, whose stores keep the same. -/
structure Leaves (s t : Session σ) : Prop where
  data : t.data = s.data
  settings : t.settings = s.settings
  store : t.store = s.store
  kept : t.kept = s.kept

theorem take_leaves (s : Session σ) (n : Nat) (before : Engine) (turn : Turn) : s.Leaves (s.take n before turn).1 := by
  cases hp : turn.progress <;> simp only [take, hp] <;> split <;> exact ⟨rfl, rfl, rfl, rfl⟩

theorem take_engine (s : Session σ) (n : Nat) (before : Engine) (turn : Turn) :
    (s.take n before turn).1.engine = if n = s.current then turn.engine else s.engine := by
  by_cases hn : n = s.retired.length <;> cases hp : turn.progress <;> simp [take, hp, current, hn]

/-- A turn of an engine of the session, the one in use or a retired one, leaves the mode. -/
theorem take_mode {n : Nat} {before : Engine} {turn : Turn} (h : s.owner? n = some before)
    (hturn : before.view.Leaves turn.engine.view) : (s.take n before turn).1.mode = s.mode := by
  rw [mode, take_engine]
  split
  · rename_i hn
    obtain rfl : s.engine = before := by simpa [owner?, hn] using h
    exact hturn.mode
  · rfl

theorem begin_leaves (s : Session σ) (r : Request) : s.Leaves (s.begin r).1 := take_leaves s _ _ _

theorem begin_mode (s : Session σ) (r : Request) : (s.begin r).1.mode = s.mode :=
  take_mode (by simp [owner?]) (s.engine.begin_leaves r)

theorem run_leaves (s : Session σ) (t : OwnedTask) (answer : Option Answer) : s.Leaves (s.run t answer).1 := by
  unfold run
  split
  · exact ⟨rfl, rfl, rfl, rfl⟩
  · exact take_leaves s _ _ _

theorem run_mode (s : Session σ) (t : OwnedTask) (answer : Option Answer) : (s.run t answer).1.mode = s.mode := by
  unfold run
  split
  · rfl
  · rename_i e he
    exact take_mode he (e.run_leaves t.task answer)

/-- Only a toggle has the store remember anything. -/
theorem step_leaves (s : Session σ) (h : ev.isToggle = false) : s.Leaves (s.step ev) := by
  cases ev with
  | begin r => exact s.begin_leaves r
  | run t answer => exact s.run_leaves t answer
  | select path =>
    simp only [step, select]
    split <;> exact ⟨rfl, rfl, rfl, rfl⟩
  | toggle => cases h
  | collapse _ | close | restart => exact ⟨rfl, rfl, rfl, rfl⟩

/-- Only a toggle and a restart set the mode. -/
theorem step_mode (s : Session σ) (h : ev.isToggle = false) (h' : ev.isRestart = false) :
    (s.step ev).mode = s.mode := by
  cases ev with
  | begin r => exact s.begin_mode r
  | run t answer => exact s.run_mode t answer
  | select path =>
    simp only [step, select]
    split
    · rfl
    · rename_i engine sent hselect
      unfold Engine.select at hselect
      split at hselect
      · cases hselect
      · rename_i node _
        cases hselect
        exact (s.engine.view.select_leaves path node.link).mode
  | collapse path => exact (s.engine.view.collapse_leaves path).mode
  | toggle => cases h
  | restart => cases h'
  | close => rfl

theorem toggle_mode (s : Session σ) : s.toggle.mode = s.mode.toggled := rfl

theorem restart_mode (s : Session σ) :
    s.restart.mode = .ofEnabled ((s.store.get s.kept).getD s.settings.enabled) := rfl

/-! ## What holds all the time -/

/-- The session was made from these and has been toggled so many times. Its mode is the first one flipped so often; its
store keeps what the toggles have set, the last time whether the panes are linked. -/
structure Follows (settings : Settings) (store : ToggleStore σ) (kept : σ) (n : Nat) (s : Session σ) : Prop where
  madeWith : s.settings = settings
  keptIn : s.store = store
  mode : s.mode.Flipped ((store.get kept).getD settings.enabled) n
  keeps : ∃ values : List Bool, values.length = n ∧ s.kept = store.setAll values kept ∧
    ∀ b ∈ values.getLast?, b = s.mode.isLinked

variable {settings : Settings} {store : ToggleStore σ} {kept : σ} {n : Nat}

theorem start_follows (data : NavData) (settings : Settings) (store : ToggleStore σ) (kept : σ) :
    (start data settings store kept).Follows settings store kept 0 :=
  ⟨rfl, rfl, SyncMode.flipped_zero.2 rfl, [], rfl, rfl, by simp⟩

/-- What a faithful store returns: the mode, once the session was toggled. -/
theorem Follows.remembered (h : s.Follows settings store kept n) (hstore : store.FaithfulFrom kept) :
    s.remembered = if n = 0 then store.get kept else some s.mode.isLinked := by
  obtain ⟨values, hlength, hkept, hlast⟩ := h.keeps
  rw [Session.remembered, h.keptIn, hkept, hstore values]
  cases hv : values.getLast? with
  | none =>
    obtain rfl : values = [] := List.getLast?_eq_none_iff.1 hv
    simp [← hlength]
  | some b =>
    have hn : n ≠ 0 := by
      rintro rfl
      simp [List.length_eq_zero_iff.1 hlength] at hv
    simp [hn, hlast b hv]

theorem step_follows (h : s.Follows settings store kept n) (hstore : store.FaithfulFrom kept) (ev : SessionEvent) :
    (s.step ev).Follows settings store kept (n + if ev.isToggle then 1 else 0) := by
  by_cases htoggle : ev.isToggle = true
  · obtain rfl : ev = .toggle := by cases ev <;> first | rfl | cases htoggle
    obtain ⟨values, hlength, hkept, -⟩ := h.keeps
    refine ⟨h.madeWith, h.keptIn, ?_, values ++ [s.toggle.mode.isLinked], by simp [hlength, isToggle], ?_, ?_⟩
    · rw [step, toggle_mode]
      exact h.mode.toggled
    · rw [ToggleStore.setAll_append, ← hkept, ← h.keptIn]
      rfl
    · simp [step]
  · rw [Bool.not_eq_true] at htoggle
    have hleaves := s.step_leaves htoggle
    -- A restart sets the mode to what it was, because the store is faithful.
    have hmode : (s.step ev).mode = s.mode := by
      by_cases hrestart : ev.isRestart = true
      · obtain rfl : ev = .restart := by cases ev <;> first | rfl | cases hrestart
        have hremembered := h.remembered hstore
        rw [step, restart_mode]
        rw [Session.remembered] at hremembered
        rw [hremembered]
        by_cases hn : n = 0
        · subst hn
          rw [if_pos rfl, SyncMode.flipped_zero.1 h.mode, h.madeWith]
        · simp [hn]
      · exact s.step_mode htoggle (Bool.eq_false_iff.2 hrestart)
    obtain ⟨values, hlength, hkept, hlast⟩ := h.keeps
    refine ⟨hleaves.settings.trans h.madeWith, hleaves.store.trans h.keptIn, ?_, values, by simp [htoggle, hlength],
      hleaves.kept.trans hkept, ?_⟩
    · simpa [htoggle, hmode] using h.mode
    · rwa [hmode]

theorem after_follows (data : NavData) (hstore : store.FaithfulFrom kept) (events : List SessionEvent) :
    ((start data settings store kept).after events).Follows settings store kept (toggles events) := by
  induction events using List.reverseRecOn with
  | nil => exact start_follows data settings store kept
  | append_singleton events ev ih =>
    rw [after_concat, toggles_concat]
    exact step_follows ih hstore ev

/-- With a store that remembers nothing, every restart sets the mode of the settings again. -/
theorem after_nowhere (data : NavData) (settings : Settings) (kept : σ) (events : List SessionEvent) :
    let s := (start data settings .nowhere kept).after events
    s.settings = settings ∧ s.store = .nowhere ∧
      s.mode.Flipped settings.enabled (toggles (sinceRestart events)) := by
  induction events using List.reverseRecOn with
  | nil => exact ⟨rfl, rfl, SyncMode.flipped_zero.2 rfl⟩
  | append_singleton events ev ih =>
    obtain ⟨hsettings, hstore, hmode⟩ := ih
    rw [after_concat, sinceRestart_concat]
    cases ev with
    | toggle =>
      refine ⟨hsettings, hstore, ?_⟩
      rw [step, toggle_mode, isRestart, if_neg Bool.false_ne_true, toggles_concat]
      exact hmode.toggled
    | restart =>
      refine ⟨hsettings, hstore, ?_⟩
      rw [step, restart_mode, hstore, hsettings]
      exact SyncMode.flipped_zero.2 rfl
    | begin _ | run _ _ | select _ | collapse _ | close =>
      refine ⟨(step_leaves _ rfl).settings.trans hsettings, (step_leaves _ rfl).store.trans hstore, ?_⟩
      rw [step_mode _ rfl rfl, isRestart, if_neg Bool.false_ne_true, toggles_concat]
      exact hmode

/-- With a store that returns what was last set, the mode is the first one, as the store or else the settings have it,
flipped once for each toggle, however often the session is restarted: the panes are linked if they were at first and the
toggles are even in number, or if they were not and the toggles are odd. Once it was toggled the store returns whether
they are linked. The memory is such a store, and so is a state folder whose file can be written. With a store that
remembers nothing, the mode is that of the settings flipped once for each toggle since the last restart. No other event
has a store keep anything else, and none but a restart sets the mode. -/
theorem mode_follows_toggles (data : NavData) (settings : Settings) (events : List SessionEvent) :
    (∀ {σ : Type} (store : ToggleStore σ) (kept : σ), store.FaithfulFrom kept →
      let s := (start data settings store kept).after events
      (s.mode = .linked ↔ ((store.get kept).getD settings.enabled = true ↔ Even (toggles events))) ∧
        s.remembered = if toggles events = 0 then store.get kept else some (decide (s.mode = .linked))) ∧
    (∀ kept, ToggleStore.memory.FaithfulFrom kept) ∧
    (∀ workingDir dir files, StateFolder.Writable workingDir dir files →
      (ToggleStore.folder workingDir dir).FaithfulFrom files) ∧
    (∀ {σ : Type} (kept : σ), ((start data settings .nowhere kept).after events).mode = .linked ↔
      (settings.enabled = true ↔ Even (toggles (sinceRestart events)))) ∧
    ∀ {σ : Type} (s : Session σ) (ev : SessionEvent), ev.isToggle = false →
      (s.step ev).kept = s.kept ∧ (ev.isRestart = false → (s.step ev).mode = s.mode) := by
  refine ⟨fun store kept hstore => ?_, ToggleStore.memory_faithful, fun _ _ _ => ToggleStore.folder_faithful,
    fun kept => (after_nowhere data settings kept events).2.2, fun s ev htoggle => ?_⟩
  · have h : ((start data settings store kept).after events).Follows settings store kept (toggles events) :=
      after_follows data hstore events
    exact ⟨h.mode, h.remembered hstore⟩
  · exact ⟨(s.step_leaves htoggle).kept, s.step_mode htoggle⟩

/-- A folder that is made with the first toggle, and a deep link that waits all the while. After three toggles the panes
are not linked, and after a fourth they are. -/
theorem mode_after_restarts :
    let data : NavData :=
      { root := .inline "Main" (some ⟨"index.html"⟩) [.deferred "Files" ⟨"files.html"⟩ ⟨"files"⟩]
        anchors := ⟨[(⟨"a.html"⟩, [⟨"files.html"⟩, ⟨"a.html"⟩])]⟩ }
    let folder := ToggleStore.folder ⟨"/"⟩ ⟨"state"⟩
    let files : FileTree := ⟨.directory []⟩
    let events : List SessionEvent :=
      [.begin (.navigate ⟨"a.html"⟩), .toggle, .restart, .toggle, .close, .restart, .toggle, .restart]
    let s := (start data {} folder files).after events
    let t := (start data {} folder files).after (events ++ [.toggle, .restart])
    folder.FaithfulFrom files ∧ s.mode = .unlinked ∧ s.remembered = some false ∧ t.mode = .linked ∧
      t.remembered = some true := by
  intro data folder files events s t
  have hfaithful : folder.FaithfulFrom files :=
    (mode_follows_toggles data {} events).2.2.1 _ _ _ StateFolder.writable_unmade.1
  have hnone : folder.get files = none := StateFolder.writable_unmade.2
  obtain ⟨hmode, hremembered⟩ := (mode_follows_toggles data {} events).1 folder files hfaithful
  obtain ⟨hmode', hremembered'⟩ :=
    (mode_follows_toggles data {} (events ++ [.toggle, .restart])).1 folder files hfaithful
  rw [hnone] at hmode hmode'
  have hunlinked : s.mode ≠ .linked := fun h => absurd (hmode.1 h) (by decide)
  have hlinked : t.mode = .linked := hmode'.2 (by decide)
  refine ⟨hfaithful, ?_, ?_, hlinked, ?_⟩
  · cases h : s.mode with
    | linked => exact absurd h hunlinked
    | unlinked => rfl
  · refine hremembered.trans ?_
    rw [decide_eq_false hunlinked]
    rfl
  · refine hremembered'.trans ?_
    rw [decide_eq_true hlinked]
    rfl

end Session
end DocNav
