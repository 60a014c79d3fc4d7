import Heartix.Lib.BackForward
import Heartix.Lib.Runs
import Mathlib.Tactic.Ring

/-!
The navigation of the file browser. The history is changed where a directory
was opened, at the end of `navigatorLoad`, but the handlers of the buttons and of
the text box change the path and the position before that, and nothing puts them
back. So a navigation that succeeds does what it does in a browser, and it is
the failures that tell the two apart.
-/

namespace Heartix.Navigator

open Editing BackForward Runs

abbrev Path := List UInt8

def slash : UInt8 := 47
def questionMark : UInt8 := 63

/-- The state of the browser. The listing is the directory whose children are
shown, and the title the one of `navText`. -/
structure Browser where
  currentBase : Path
  history : List Path
  historyCurrentPosition : ℤ
  title : Path
  listing : Option Path
  upEnabled : Bool
  prevEnabled : Bool
  nextEnabled : Bool
  deriving DecidableEq

/-- The state when `main` begins. -/
def initial : Browser where
  currentBase := [slash]
  history := []
  historyCurrentPosition := -1
  title := []
  listing := none
  upEnabled := true
  prevEnabled := true
  nextEnabled := true

/-- What the user does. `load` is the call at the end of `main`. -/
inductive Action
  | load
  | folder (path : Path)
  | enter (text : Path)
  | up
  | prev
  | next
  deriving DecidableEq

/-- An action, and what the file system answers while it is carried out: the real
path of a path that exists, and whether a directory can be opened. -/
structure Event where
  action : Action
  g_real_path : Path → Option Path
  g_open_directory : Path → Bool

/-- How an action ends. It is `idle` where there is nowhere to go. -/
inductive Outcome
  | loaded
  | failed
  | idle
  deriving DecidableEq

/-- The position of the last entry in an `int`. -/
def lastPosition (history : List Path) : ℤ := ((history.length : ℤ) - 1).bmod (2 ^ 32)

/-- The condition for erasing the entries behind the current one, and that of `navNext`. -/
def HasNext (s : Browser) : Prop :=
  0 ≤ s.historyCurrentPosition ∧ s.historyCurrentPosition < lastPosition s.history

instance (s : Browser) : Decidable (HasNext s) := by
  unfold HasNext
  infer_instance

def find_last_of (s : List UInt8) (c : UInt8) : Option ℕ :=
  (s.reverse.findIdx? (· = c)).map fun i => s.length - 1 - i

def navigatorCheckCurrentPath (e : Event) (s : Browser) : Bool × Browser :=
  match e.g_real_path s.currentBase with
  | some buffer => (true, { s with currentBase := buffer })
  | none => (false, s)

/-- The part of `navigatorLoad` under the lock. -/
def keepVisit (s : Browser) : Browser :=
  let kept := if HasNext s then s.history.take (s.historyCurrentPosition + 1).toNat else s.history
  let history := kept ++ [s.currentBase]
  { s with history := history, historyCurrentPosition := lastPosition history }

/-- The part of `navigatorLoad` behind the lock. -/
def showDirectory (s : Browser) : Browser :=
  { s with
    title := s.currentBase
    listing := some s.currentBase
    upEnabled := s.currentBase ≠ [slash]
    prevEnabled := 0 < s.historyCurrentPosition
    nextEnabled := 0 ≤ s.historyCurrentPosition ∧
      s.historyCurrentPosition < ((s.history.length : ℤ) - 1) % 2 ^ 64 }

def navigatorLoad (e : Event) (keepHistory : Bool) (s : Browser) : Outcome × Browser :=
  match navigatorCheckCurrentPath e s with
  | (false, s) => (.failed, { s with title := [questionMark] })
  | (true, s) =>
      if e.g_open_directory s.currentBase = false then (.failed, s)
      else (.loaded, showDirectory (if keepHistory then s else keepVisit s))

/-- The handlers of `navPrev` and `navNext` where there is an entry to go to. -/
def goTo (e : Event) (position : ℤ) (s : Browser) : Option (Outcome × Browser) :=
  match s.history[position.toNat]? with
  | none => none
  | some entry =>
      some (navigatorLoad e true
        { s with historyCurrentPosition := position, currentBase := entry })

/-- The path that the handler of `navUp` goes to. -/
def upPath (currentBase : Path) : Path :=
  match find_last_of currentBase slash with
  | some pos => currentBase.take pos
  | none => currentBase

/-- One action. An access outside of the history has no result. -/
def step (s : Browser) (e : Event) : Option (Outcome × Browser) :=
  match e.action with
  | .load => some (navigatorLoad e false s)
  | .folder path => some (navigatorLoad e false { s with currentBase := path })
  | .enter text => some (navigatorLoad e false { s with title := text, currentBase := text })
  | .up => some (navigatorLoad e false { s with currentBase := upPath s.currentBase })
  | .prev =>
      if 0 < s.historyCurrentPosition then goTo e (s.historyCurrentPosition - 1) s
      else some (.idle, s)
  | .next =>
      if HasNext s then goTo e (s.historyCurrentPosition + 1) s
      else some (.idle, s)

/-- The entries up to the current one, and those behind it. -/
def Browser.view (s : Browser) : Zipper Path :=
  upTo s.history (s.historyCurrentPosition + 1).toNat

/-- The path that a visit is asked for. Going back and forward is none. -/
def visited (s : Browser) : Action → Option Path
  | .load => some s.currentBase
  | .folder path => some path
  | .enter text => some text
  | .up => some (upPath s.currentBase)
  | .prev => none
  | .next => none

/-- What becomes of the history in a browser. -/
def browsed (s : Browser) (e : Event) : Option (Zipper Path) :=
  match e.action with
  | .prev => some (back s.view)
  | .next => some (forward s.view)
  | action => (visited s action).bind fun path => (e.g_real_path path).map (visit · s.view)

/-- The position is in the history, and what is shown is the entry there. -/
def Consistent (s : Browser) : Prop :=
  -1 ≤ s.historyCurrentPosition ∧ s.historyCurrentPosition < s.history.length ∧
    s.listing = current s.view

/-- What a browser promises of an action. -/
def Law (s : Browser) (e : Event) (outcome : Outcome) (t : Browser) : Prop :=
  Consistent t ∧
  match outcome with
  | .loaded => browsed s e = some t.view ∧ current t.view = some t.currentBase ∧
      t.title = t.currentBase
  | .failed => t.currentBase = s.currentBase ∧ t.history = s.history ∧
      t.historyCurrentPosition = s.historyCurrentPosition
  | .idle => browsed s e = some s.view ∧ t = s

instance (s : Browser) : Decidable (Consistent s) := by
  unfold Consistent
  infer_instance

instance (s : Browser) (e : Event) (outcome : Outcome) (t : Browser) :
    Decidable (Law s e outcome t) := by
  unfold Law
  cases outcome <;> infer_instance

/-- A visit keeps the promise: it succeeds, with room for the position in an
`int`, or it fails where the path comes out as it was. -/
def VisitMeets (s : Browser) (e : Event) (path : Path) : Prop :=
  match e.g_real_path path with
  | none => path = s.currentBase
  | some real =>
      if e.g_open_directory real = true then s.historyCurrentPosition + 1 < 2 ^ 31
      else real = s.currentBase

/-- An entry of the history still is the real path of a directory that can be read. -/
def EntryMeets (e : Event) (entry : Path) : Prop :=
  e.g_real_path entry = some entry ∧ e.g_open_directory entry = true

/-- The condition under which an action keeps the promise. -/
def Meets (s : Browser) (e : Event) : Prop :=
  match e.action with
  | .prev => 0 < s.historyCurrentPosition →
      ∀ entry ∈ s.history[(s.historyCurrentPosition - 1).toNat]?, EntryMeets e entry
  | .next => HasNext s →
      ∀ entry ∈ s.history[(s.historyCurrentPosition + 1).toNat]?, EntryMeets e entry
  | action => ∀ path ∈ visited s action, VisitMeets s e path

/-- The invariant of a run that keeps the promise. -/
structure Good (s : Browser) : Prop where
  consistent : Consistent s
  empty : s.historyCurrentPosition = -1 → s.history = []
  length_le : s.history.length ≤ 2 ^ 31

section Load

variable {e : Event} {s : Browser} {real : Path}

theorem load_missing (h : e.g_real_path s.currentBase = none) (keepHistory : Bool) :
    navigatorLoad e keepHistory s = (.failed, { s with title := [questionMark] }) := by
  rw [navigatorLoad, navigatorCheckCurrentPath, h]

theorem load_unreadable (h : e.g_real_path s.currentBase = some real)
    (hopen : e.g_open_directory real = false) (keepHistory : Bool) :
    navigatorLoad e keepHistory s = (.failed, { s with currentBase := real }) := by
  rw [navigatorLoad, navigatorCheckCurrentPath, h]
  exact if_pos hopen

theorem load_readable (h : e.g_real_path s.currentBase = some real)
    (hopen : e.g_open_directory real = true) (keepHistory : Bool) :
    navigatorLoad e keepHistory s = (.loaded, showDirectory
      (if keepHistory then { s with currentBase := real }
        else keepVisit { s with currentBase := real })) := by
  rw [navigatorLoad, navigatorCheckCurrentPath, h]
  exact if_neg (by simp [hopen])

end Load

section Visit

variable {s : Browser}

theorem lastPosition_eq {history : List Path} (h : history.length ≤ 2 ^ 31) :
    lastPosition history = history.length - 1 := by
  unfold lastPosition
  rw [Int.bmod_eq_of_le] <;> omega

/-- The entries up to the current one are what is kept. -/
theorem kept_eq (hs : Good s) :
    (if HasNext s then s.history.take (s.historyCurrentPosition + 1).toNat else s.history) =
      s.history.take (s.historyCurrentPosition + 1).toNat := by
  obtain ⟨hlow, hhigh, _⟩ := hs.consistent
  split
  · rfl
  · rename_i hnot
    rw [HasNext, lastPosition_eq hs.length_le, not_and_or] at hnot
    rcases hnot with hneg | hlast
    · rw [hs.empty (by omega), List.take_nil]
    · rw [List.take_of_length_le (by omega)]

theorem keepVisit_eq (hs : Good s) (path title : Path) :
    keepVisit { s with currentBase := path, title := title } =
      { s with
        currentBase := path
        title := title
        history := s.history.take (s.historyCurrentPosition + 1).toNat ++ [path]
        historyCurrentPosition := (s.historyCurrentPosition + 1).bmod (2 ^ 32) } := by
  obtain ⟨hlow, hhigh, _⟩ := hs.consistent
  have hkept := kept_eq hs
  have hposition : lastPosition
      (s.history.take (s.historyCurrentPosition + 1).toNat ++ [path]) =
        (s.historyCurrentPosition + 1).bmod (2 ^ 32) := by
    rw [lastPosition, List.length_append, List.length_take, List.length_singleton]
    congr 1
    omega
  rw [← hposition, ← hkept]
  rfl

/-- The browser after a visit that succeeds. -/
def visitedDirectory (s : Browser) (real title : Path) : Browser :=
  showDirectory (keepVisit { s with currentBase := real, title := title })

theorem view_visitedDirectory (hs : Good s) (real title : Path)
    (hroom : s.historyCurrentPosition + 1 < 2 ^ 31) :
    (visitedDirectory s real title).historyCurrentPosition = s.historyCurrentPosition + 1 ∧
      (visitedDirectory s real title).view = visit real s.view := by
  obtain ⟨hlow, hhigh, _⟩ := hs.consistent
  have hposition : (visitedDirectory s real title).historyCurrentPosition =
      s.historyCurrentPosition + 1 := by
    rw [visitedDirectory, keepVisit_eq hs]
    exact Int.bmod_eq_of_le (by omega) (by omega)
  have hhistory : (visitedDirectory s real title).history =
      s.history.take (s.historyCurrentPosition + 1).toNat ++ [real] := by
    rw [visitedDirectory, keepVisit_eq hs]
    rfl
  have hcount : (s.historyCurrentPosition + 1 + 1).toNat =
      (s.historyCurrentPosition + 1).toNat + 1 := by omega
  refine ⟨hposition, ?_⟩
  rw [Browser.view, hposition, hhistory, hcount, Browser.view, visit_upTo real (by omega)]

theorem good_visitedDirectory (hs : Good s) (real title : Path)
    (hroom : s.historyCurrentPosition + 1 < 2 ^ 31) : Good (visitedDirectory s real title) := by
  obtain ⟨hlow, hhigh, _⟩ := hs.consistent
  obtain ⟨hposition, hview⟩ := view_visitedDirectory hs real title hroom
  have hlen : (visitedDirectory s real title).history.length =
      (s.historyCurrentPosition + 1).toNat + 1 := by
    rw [visitedDirectory, keepVisit_eq hs, showDirectory, List.length_append, List.length_take,
      List.length_singleton]
    omega
  refine ⟨⟨?_, ?_, ?_⟩, ?_, ?_⟩
  · omega
  · omega
  · rw [hview]
    rfl
  · intro hempty
    omega
  · omega

/-- A visit that succeeds does what it does in a browser unless the position leaves
the range of an `int`. -/
theorem law_visitedDirectory (hs : Good s) {e : Event} {real : Path} (title : Path)
    (hbrowsed : browsed s e = some (visit real s.view)) :
    Law s e .loaded (visitedDirectory s real title) ↔ s.historyCurrentPosition + 1 < 2 ^ 31 := by
  constructor
  · rintro ⟨⟨hlow', _, _⟩, _⟩
    obtain ⟨hlow, hhigh, _⟩ := hs.consistent
    have hsmall := hs.length_le
    by_contra hlarge
    have hlimit : s.historyCurrentPosition + 1 = 2 ^ 31 := by omega
    rw [visitedDirectory, keepVisit_eq hs, hlimit] at hlow'
    have hwrapped : (-1 : ℤ) ≤ ((2 : ℤ) ^ 31).bmod (2 ^ 32) := hlow'
    exact absurd hwrapped (by decide)
  · intro hroom
    obtain ⟨_, hview⟩ := view_visitedDirectory hs real title hroom
    refine ⟨(good_visitedDirectory hs real title hroom).consistent, ?_, ?_, rfl⟩
    · rw [hbrowsed, hview]
    · rw [hview]
      rfl

/-- Whatever becomes of the path and the title, the invariant is about the rest. -/
theorem Good.renamed (hs : Good s) (path title : Path) :
    Good { s with currentBase := path, title := title } :=
  ⟨hs.consistent, hs.empty, hs.length_le⟩

theorem law_failed (hs : Good s) (e : Event) (path title : Path) :
    Law s e .failed { s with currentBase := path, title := title } ↔ path = s.currentBase := by
  constructor
  · intro h
    exact h.2.1
  · intro h
    exact ⟨hs.consistent, h, rfl, rfl⟩

theorem law_visit (hs : Good s) {e : Event} {path : Path} (title : Path) {o : Outcome} {t : Browser}
    (hbrowsed : browsed s e = (e.g_real_path path).map (visit · s.view))
    (h : navigatorLoad e false { s with currentBase := path, title := title } = (o, t)) :
    (Law s e o t ↔ VisitMeets s e path) ∧ (VisitMeets s e path → Good t) := by
  unfold VisitMeets
  cases hreal : e.g_real_path path with
  | none =>
    rw [load_missing hreal] at h
    obtain ⟨rfl, rfl⟩ := Prod.mk.inj h
    exact ⟨law_failed hs e path _, fun _ => hs.renamed path _⟩
  | some real =>
    rw [hreal, Option.map_some] at hbrowsed
    by_cases hopen : e.g_open_directory real = true
    · rw [load_readable hreal hopen] at h
      obtain ⟨rfl, rfl⟩ := Prod.mk.inj h
      simp only [hopen, if_true]
      exact ⟨law_visitedDirectory hs title hbrowsed, good_visitedDirectory hs real title⟩
    · rw [load_unreadable hreal (by simpa using hopen)] at h
      obtain ⟨rfl, rfl⟩ := Prod.mk.inj h
      simp only [hopen]
      exact ⟨law_failed hs e real title, fun _ => hs.renamed real title⟩

end Visit

section GoTo

variable {s : Browser} {e : Event} {position : ℤ}

/-- The browser after going to an entry that could be loaded. -/
def shownEntry (s : Browser) (position : ℤ) (real : Path) : Browser :=
  showDirectory { s with historyCurrentPosition := position, currentBase := real }

theorem current_shownEntry (s : Browser) (hlow : 0 ≤ position) (real : Path)
    (hlt : position.toNat < s.history.length) :
    current (shownEntry s position real).view = some s.history[position.toNat] := by
  have hview : (shownEntry s position real).view = upTo s.history (position.toNat + 1) := by
    rw [← Int.toNat_add_nat hlow 1]
    rfl
  rw [hview, current_succ hlt]

theorem good_shownEntry (hs : Good s) (hlow : 0 ≤ position)
    (hlt : position.toNat < s.history.length) :
    Good (shownEntry s position s.history[position.toNat]) := by
  have hposition : (shownEntry s position s.history[position.toNat]).historyCurrentPosition =
      position := rfl
  refine ⟨⟨?_, (Int.toNat_lt hlow).mp hlt, ?_⟩, ?_, hs.length_le⟩
  · omega
  · rw [current_shownEntry s hlow _ hlt]
    rfl
  · intro hempty
    omega

/-- An entry that could be loaded is shown as it is in the history unless its real
path has become another one. -/
theorem law_shownEntry (hs : Good s) (hlow : 0 ≤ position)
    (hbrowsed : browsed s e = some (upTo s.history (position + 1).toNat))
    (hlt : position.toNat < s.history.length) (real : Path) :
    Law s e .loaded (shownEntry s position real) ↔ real = s.history[position.toNat] := by
  have hcurrent := current_shownEntry s hlow real hlt
  constructor
  · rintro ⟨_, _, hshown, _⟩
    exact Option.some.inj (hshown.symm.trans hcurrent)
  · rintro rfl
    exact ⟨(good_shownEntry hs hlow hlt).consistent, hbrowsed, hcurrent, rfl⟩

/-- The position has moved before the entry fails to load. -/
theorem not_law_moved (hmoved : position ≠ s.historyCurrentPosition) (e : Event)
    (path title : Path) :
    ¬ Law s e .failed { s with
      historyCurrentPosition := position, currentBase := path, title := title } := by
  rintro ⟨_, _, _, hposition⟩
  exact hmoved hposition

theorem law_goTo (hs : Good s) (hlow : 0 ≤ position) (hhigh : position < s.history.length)
    (hmoved : position ≠ s.historyCurrentPosition)
    (hbrowsed : browsed s e = some (upTo s.history (position + 1).toNat)) {o : Outcome}
    {t : Browser} (h : goTo e position s = some (o, t)) :
    (Law s e o t ↔ ∀ entry ∈ s.history[position.toNat]?, EntryMeets e entry) ∧
      ((∀ entry ∈ s.history[position.toNat]?, EntryMeets e entry) → Good t) := by
  have hlt : position.toNat < s.history.length := (Int.toNat_lt hlow).mpr hhigh
  rw [goTo, List.getElem?_eq_getElem hlt] at h
  have hload := Option.some.inj h
  rw [List.getElem?_eq_getElem hlt]
  simp only [Option.mem_def, Option.some_inj, forall_eq']
  unfold EntryMeets
  cases hreal : e.g_real_path s.history[position.toNat] with
  | none =>
    rw [load_missing hreal] at hload
    obtain ⟨rfl, rfl⟩ := Prod.mk.inj hload
    have hnot := not_law_moved hmoved e s.history[position.toNat] [questionMark]
    exact ⟨iff_of_false hnot (by simp), by simp⟩
  | some real =>
    by_cases hopen : e.g_open_directory real = true
    · rw [load_readable hreal hopen] at hload
      obtain ⟨rfl, rfl⟩ := Prod.mk.inj hload
      have hlaw := law_shownEntry hs hlow hbrowsed hlt real
      constructor
      · refine hlaw.trans ⟨?_, fun hmeets => Option.some.inj hmeets.1⟩
        rintro rfl
        exact ⟨rfl, hopen⟩
      · rintro ⟨hsame, _⟩
        obtain rfl := Option.some.inj hsame
        exact good_shownEntry hs hlow hlt
    · rw [load_unreadable hreal (by simpa using hopen)] at hload
      obtain ⟨rfl, rfl⟩ := Prod.mk.inj hload
      have hunread : ¬ (some real = some s.history[position.toNat] ∧
          e.g_open_directory s.history[position.toNat] = true) := by
        rintro ⟨hsame, hread⟩
        exact hopen (Option.some.inj hsame ▸ hread)
      exact ⟨iff_of_false (not_law_moved hmoved e real s.title) hunread,
        fun hmeets => absurd hmeets hunread⟩

end GoTo

section Steps

variable {s : Browser} {e : Event}

theorem meets_visit {path : Path} (h : visited s e.action = some path) :
    Meets s e ↔ VisitMeets s e path := by
  obtain ⟨action, g_real_path, g_open_directory⟩ := e
  cases action with
  | prev => cases h
  | next => cases h
  | _ =>
    obtain rfl := Option.some.inj h
    exact ⟨fun hmeets => hmeets _ rfl, fun hmeets _ hpath => Option.some.inj hpath ▸ hmeets⟩

theorem browsed_visit {path : Path} (h : visited s e.action = some path) :
    browsed s e = (e.g_real_path path).map (visit · s.view) := by
  obtain ⟨action, g_real_path, g_open_directory⟩ := e
  cases action with
  | prev => cases h
  | next => cases h
  | _ =>
    obtain rfl := Option.some.inj h
    rfl

/-- Every visit is one call of `navigatorLoad`. -/
theorem step_visit {path : Path} (h : visited s e.action = some path) :
    ∃ title, step s e = some (navigatorLoad e false
      { s with currentBase := path, title := title }) := by
  unfold step
  cases haction : e.action <;> rw [haction] at h
  case prev => cases h
  case next => cases h
  case enter text =>
    obtain rfl := Option.some.inj h
    exact ⟨text, rfl⟩
  all_goals
    obtain rfl := Option.some.inj h
    exact ⟨s.title, rfl⟩

theorem hasNext_iff (hs : Good s) :
    HasNext s ↔ (s.historyCurrentPosition + 1).toNat < s.history.length := by
  obtain ⟨hlow, hhigh, _⟩ := hs.consistent
  rw [HasNext, lastPosition_eq hs.length_le]
  constructor
  · intro h
    omega
  · intro h
    have hstarted : s.historyCurrentPosition ≠ -1 := by
      intro hempty
      rw [hs.empty hempty] at h
      exact absurd h (Nat.not_lt_zero _)
    omega

/-- Where there is nowhere to go, a browser does nothing either. -/
theorem law_idle (hs : Good s) (h : browsed s e = some s.view) : Law s e .idle s :=
  ⟨hs.consistent, h, rfl⟩

theorem law_prev (hs : Good s) (haction : e.action = .prev) {o : Outcome} {t : Browser}
    (h : step s e = some (o, t)) : (Law s e o t ↔ Meets s e) ∧ (Meets s e → Good t) := by
  obtain ⟨hlow, hhigh, _⟩ := hs.consistent
  have hbrowsed : browsed s e = some (back s.view) := by rw [browsed, haction]
  rw [step, haction] at h
  rw [Meets, haction]
  by_cases hback : 0 < s.historyCurrentPosition
  · have hcount : (s.historyCurrentPosition + 1).toNat =
        (s.historyCurrentPosition - 1).toNat + 2 := by omega
    have hcount' : (s.historyCurrentPosition - 1 + 1).toNat =
        (s.historyCurrentPosition - 1).toNat + 1 := by omega
    rw [Browser.view, hcount, back_upTo (by omega), ← hcount'] at hbrowsed
    simp only [hback, forall_const, if_true] at h ⊢
    exact law_goTo hs (by omega) (by omega) (by omega) hbrowsed h
  · rw [Browser.view, back_upTo_first (by omega)] at hbrowsed
    simp only [hback, if_false, Option.some_inj, Prod.mk.injEq] at h
    obtain ⟨rfl, rfl⟩ := h
    exact ⟨iff_of_true (law_idle hs hbrowsed) fun hpos => absurd hpos hback, fun _ => hs⟩

theorem law_next (hs : Good s) (haction : e.action = .next) {o : Outcome} {t : Browser}
    (h : step s e = some (o, t)) : (Law s e o t ↔ Meets s e) ∧ (Meets s e → Good t) := by
  obtain ⟨hlow, hhigh, _⟩ := hs.consistent
  have hbrowsed : browsed s e = some (forward s.view) := by rw [browsed, haction]
  rw [step, haction] at h
  rw [Meets, haction]
  by_cases hnext : HasNext s
  · have hlt := (hasNext_iff hs).mp hnext
    have hcount : (s.historyCurrentPosition + 1 + 1).toNat =
        (s.historyCurrentPosition + 1).toNat + 1 := by omega
    rw [Browser.view, forward_upTo hlt, ← hcount] at hbrowsed
    simp only [hnext, forall_const, if_true] at h ⊢
    exact law_goTo hs (by omega) (by omega) (by omega) hbrowsed h
  · have hlast := mt (hasNext_iff hs).mpr hnext
    rw [Browser.view, forward_upTo_last (Nat.le_of_not_lt hlast)] at hbrowsed
    simp only [hnext, if_false, Option.some_inj, Prod.mk.injEq] at h
    obtain ⟨rfl, rfl⟩ := h
    exact ⟨iff_of_true (law_idle hs hbrowsed) fun hroom => absurd hroom hnext, fun _ => hs⟩

/-- An action keeps the promise exactly if the condition holds, and then the invariant. -/
theorem law_iff_meets (hs : Good s) {o : Outcome} {t : Browser} (h : step s e = some (o, t)) :
    (Law s e o t ↔ Meets s e) ∧ (Meets s e → Good t) := by
  cases hvisited : visited s e.action with
  | some path =>
    obtain ⟨title, hstep⟩ := step_visit hvisited
    rw [meets_visit hvisited]
    exact law_visit hs title (browsed_visit hvisited) (Option.some.inj (hstep.symm.trans h))
  | none =>
    cases haction : e.action with
    | prev => exact law_prev hs haction h
    | next => exact law_next hs haction h
    | _ =>
      rw [haction] at hvisited
      cases hvisited

/-- No action leaves the history. -/
theorem step_defined (hs : Good s) (e : Event) : ∃ o t, step s e = some (o, t) := by
  obtain ⟨hlow, hhigh, _⟩ := hs.consistent
  have hgoTo (position : ℤ) (hposition : position.toNat < s.history.length) :
      ∃ o t, goTo e position s = some (o, t) := by
    rw [goTo, List.getElem?_eq_getElem hposition]
    exact ⟨_, _, rfl⟩
  cases haction : e.action with
  | prev =>
    rw [step, haction]
    by_cases hback : 0 < s.historyCurrentPosition
    · simp only [hback, if_true]
      exact hgoTo _ (by omega)
    · exact ⟨.idle, s, if_neg hback⟩
  | next =>
    rw [step, haction]
    by_cases hnext : HasNext s
    · simp only [hnext, if_true]
      exact hgoTo _ ((hasNext_iff hs).mp hnext)
    · exact ⟨.idle, s, if_neg hnext⟩
  | _ =>
    rw [step, haction]
    exact ⟨_, _, rfl⟩

/-- The buttons are enabled after loading exactly if there is somewhere to go. -/
theorem enabled_iff (hs : Good (showDirectory s)) :
    ((showDirectory s).prevEnabled = true ↔
      back (showDirectory s).view ≠ (showDirectory s).view) ∧
    ((showDirectory s).nextEnabled = true ↔
      forward (showDirectory s).view ≠ (showDirectory s).view) := by
  obtain ⟨hlow, hhigh, _⟩ := hs.consistent
  have hprev : (showDirectory s).prevEnabled = true ↔
      0 < (showDirectory s).historyCurrentPosition :=
    decide_eq_true_iff
  have hnext : (showDirectory s).nextEnabled = true ↔
      0 ≤ (showDirectory s).historyCurrentPosition ∧
        (showDirectory s).historyCurrentPosition <
          (((showDirectory s).history.length : ℤ) - 1) % 2 ^ 64 :=
    decide_eq_true_iff
  have hsmall := hs.length_le
  have hempty := hs.empty
  rw [hprev, hnext, Browser.view, back_ne_iff (by omega), forward_ne_iff (by omega)]
  generalize (showDirectory s).historyCurrentPosition = position at *
  constructor
  · omega
  · by_cases hzero : position = -1
    · rw [hempty hzero, hzero]
      decide
    · omega

end Steps

theorem findIdx?_slash {s : List UInt8} (h : slash ∉ s) :
    s.reverse.findIdx? (· = slash) = none := by
  rw [List.findIdx?_eq_none_iff]
  intro c hc
  exact decide_eq_false fun heq => h (heq ▸ List.mem_reverse.mp hc)

/-- Going up drops the last name with the slash before it. -/
theorem upPath_append {dir name : Path} (hname : slash ∉ name) :
    upPath (dir ++ slash :: name) = dir := by
  have hfind : find_last_of (dir ++ slash :: name) slash = some dir.length := by
    rw [find_last_of, List.reverse_append, List.reverse_cons, List.append_assoc,
      List.findIdx?_append, findIdx?_slash hname, List.singleton_append, List.findIdx?_cons]
    simp only [List.length_append, List.length_cons, List.length_reverse]
    simp
  rw [upPath, hfind]
  exact List.take_left

theorem upPath_of_notMem {path : Path} (h : slash ∉ path) : upPath path = path := by
  rw [upPath, find_last_of, findIdx?_slash h, Option.map_none]

theorem good_initial : Good initial := by
  refine ⟨by decide, fun _ => rfl, by decide⟩

/-- Every action of a run keeps the promise of a browser exactly if each one meets
the condition in the state that it is taken in. -/
theorem navigation_iff (events : List Event) :
    Throughout step Law Consistent events initial ↔
      Throughout step (fun s e _ _ => Meets s e) (fun _ => True) events initial :=
  throughout_iff
    (fun _ _ _ _ hs h hmeets =>
      ⟨(law_iff_meets hs h).1.mpr hmeets, (law_iff_meets hs h).2 hmeets⟩)
    (fun _ _ _ _ hs h hnot hlaw => hnot ((law_iff_meets hs h).1.mp hlaw))
    (fun _ hs => iff_of_true hs.consistent trivial) events good_initial

/-- The text `x` names nothing: it becomes the path although the navigation fails.
And the folder `/` cannot be read when the user goes back to it from `/a`: the
position is the one of `/` while `/a` is shown. -/
theorem failed_navigation_moves :
    ¬ Throughout step Law Consistent
      [⟨.load, some, fun _ => true⟩, ⟨.enter [120], fun _ => none, fun _ => true⟩] initial ∧
    ¬ Throughout step Law Consistent
      [⟨.load, some, fun _ => true⟩, ⟨.folder [47, 97], some, fun _ => true⟩,
        ⟨.prev, some, fun _ => false⟩] initial := by
  decide +kernel

end Heartix.Navigator
