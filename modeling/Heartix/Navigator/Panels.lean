import Heartix.Navigator.History
import Mathlib.Data.Prod.Lex
import Mathlib.Data.List.Sort

/-!
The panels of the file browser, one for each entry of a directory, folders first. They are
made anew where a directory is loaded and stay where this fails. So a double click is for
the directory that is shown, even when the path has become another one.
-/

namespace Heartix.Navigator

open Runs

def G_FS_NODE_TYPE_FOLDER : ℤ := 3
def G_FS_NODE_TYPE_FILE : ℤ := 4

/-- `file_entry_t`. -/
structure FileEntry where
  name : List UInt8
  type : ℤ
  deriving DecidableEq

namespace FileEntry

def isFolder (a : FileEntry) : Bool := a.type = G_FS_NODE_TYPE_FOLDER

/-- The comparison that the children are sorted with. -/
def precedes (a b : FileEntry) : Bool :=
  if a.isFolder ≠ b.isFolder then a.isFolder else a.name < b.name

/-- Folders come first, and then the name counts. -/
def key (a : FileEntry) : Bool ×ₗ List UInt8 := toLex (!a.isFolder, a.name)

theorem key_le_iff (a b : FileEntry) : a.key ≤ b.key ↔
    a.isFolder = true ∧ b.isFolder = false ∨ a.isFolder = b.isFolder ∧ a.name ≤ b.name := by
  unfold key
  rw [Prod.Lex.toLex_le_toLex]
  cases a.isFolder <;> cases b.isFolder <;> simp

theorem precedes_eq_false_iff (a b : FileEntry) : b.precedes a = false ↔ a.key ≤ b.key := by
  rw [key_le_iff]
  unfold precedes
  cases a.isFolder <;> cases b.isFolder <;> simp [List.not_lt]

theorem key_le_trans {a b c : FileEntry} (hab : a.key ≤ b.key) (hbc : b.key ≤ c.key) :
    a.key ≤ c.key := by
  rw [key_le_iff] at hab hbc ⊢
  rcases hab with ⟨ha, hb⟩ | ⟨hsame, hab⟩
  · rcases hbc with ⟨hb', -⟩ | ⟨hsame, -⟩
    · exact absurd (hb'.symm.trans hb) Bool.false_ne_true.symm
    · exact Or.inl ⟨ha, hsame.symm.trans hb⟩
  · rcases hbc with ⟨hb, hc⟩ | ⟨hsame', hbc⟩
    · exact Or.inl ⟨hsame.trans hb, hc⟩
    · exact Or.inr ⟨hsame.trans hsame', List.le_trans hab hbc⟩

theorem key_le_total (a b : FileEntry) : a.key ≤ b.key ∨ b.key ≤ a.key := by
  rw [key_le_iff, key_le_iff]
  have hname := List.le_total a.name b.name
  cases a.isFolder <;> cases b.isFolder <;> simp [hname]

end FileEntry

/-- What `std::sort` does with the children. The order of those that are neither before nor
behind each other is its own choice. -/
structure Sorting where
  sort : List FileEntry → List FileEntry
  perm : ∀ children, (sort children).Perm children
  sorted : ∀ children, (sort children).Pairwise fun a b => b.precedes a = false

namespace Sorting

/-- Neither is behind the other, or it is the second that is. -/
def upTo (a b : FileEntry) : Prop := b.precedes a = false

instance decidableUpTo : DecidableRel upTo := fun a b => inferInstanceAs
  (Decidable (b.precedes a = false))

instance isTrans_upTo : IsTrans FileEntry upTo where
  trans a b c hab hbc := (FileEntry.precedes_eq_false_iff a c).mpr
    (FileEntry.key_le_trans ((FileEntry.precedes_eq_false_iff a b).mp hab)
      ((FileEntry.precedes_eq_false_iff b c).mp hbc))

instance total_upTo : Std.Total upTo where
  total a b := (FileEntry.key_le_total a b).imp (FileEntry.precedes_eq_false_iff a b).mpr
    (FileEntry.precedes_eq_false_iff b a).mpr

/-- The comparison is one that can be sorted with. -/
def insertion : Sorting where
  sort := List.insertionSort upTo
  perm := List.perm_insertionSort upTo
  sorted := List.pairwise_insertionSort upTo

end Sorting

structure Color where
  a : ℕ
  r : ℕ
  g : ℕ
  b : ℕ
  deriving DecidableEq

/-- The background of a panel when it is created, of one that is selected or under the
pointer, and of one that is so no longer. -/
def untouched : Color := ⟨1, 0, 0, 0⟩
def highlighted : Color := ⟨255, 230, 240, 255⟩
def cleared : Color := ⟨0, 0, 0, 0⟩

structure Panel where
  path : Path
  nodeType : ℤ
  title : List UInt8
  background : Color
  deriving DecidableEq

def childPath (base : Path) (name : List UInt8) : Path := base ++ slash :: name

def Panel.create (base : Path) (child : FileEntry) : Panel where
  path := childPath base child.name
  nodeType := child.type
  title := child.name
  background := untouched

/-- The program that is started, and its argument. -/
structure Launch where
  path : Path
  args : List UInt8
  deriving DecidableEq

def ending : List UInt8 := ".bin".toList.map Char.toUInt8

def editor : Path := "/applications/editor.bin".toList.map Char.toUInt8

/-- A double click on a file. Nothing happens where the path is shorter than the ending. -/
def Panel.opens (panel : Panel) : List Launch :=
  if ending.length > panel.path.length then []
  else if ending.reverse.isPrefixOf panel.path.reverse then [⟨panel.path, []⟩]
  else [⟨editor, panel.path⟩]

inductive Input
  | load
  | enter (text : Path)
  | up
  | prev
  | next
  | press (panel : ℕ) (clickCount : ℤ)
  | mouseEnter (panel : ℕ)
  | mouseLeave (panel : ℕ)
  deriving DecidableEq

/-- What the user does, and what the file system answers meanwhile. After `g_fs_stat` has
failed, `statData` has whatever type was there before. -/
structure Moment where
  input : Input
  g_real_path : Path → Option Path
  g_open_directory : Path → Bool
  g_read_directory : Path → List (List UInt8)
  g_fs_stat : Path → ℤ

namespace Moment

def event (m : Moment) (action : Action) : Event := ⟨action, m.g_real_path, m.g_open_directory⟩

/-- The loop over the directory. -/
def children (m : Moment) (base : Path) : List FileEntry :=
  (m.g_read_directory base).map fun name => ⟨name, m.g_fs_stat (childPath base name)⟩

end Moment

/-- The window. Panels are told apart by their places in it. -/
structure Window where
  browser : Browser
  panels : List Panel
  selectedPanels : List ℕ

namespace Window

def start : Window where
  browser := initial
  panels := []
  selectedPanels := []

def navigate (S : Sorting) (m : Moment) (action : Action) (w : Window) : Option Window :=
  match Navigator.step w.browser (m.event action) with
  | none => none
  | some (.loaded, browser) => some {
      browser := browser
      panels := (S.sort (m.children browser.currentBase)).map (.create browser.currentBase)
      selectedPanels := [] }
  | some (_, browser) => some { w with browser := browser }

def setBackground (panel : ℕ) (c : Color) (panels : List Panel) : List Panel :=
  panels.modify panel fun p => { p with background := c }

def select (panel : ℕ) (w : Window) : Window :=
  { w with
    panels := setBackground panel highlighted
      (w.selectedPanels.foldl (fun panels i => setBackground i cleared panels) w.panels)
    selectedPanels := [panel] }

def press (S : Sorting) (m : Moment) (panel : ℕ) (clickCount : ℤ) (w : Window) :
    Option (List Launch × Window) :=
  match w.panels[panel]? with
  | none => some ([], w)
  | some p =>
      if clickCount = 2 then
        if p.nodeType = G_FS_NODE_TYPE_FOLDER then
          (w.navigate S m (.folder p.path)).map ([], ·)
        else if p.nodeType = G_FS_NODE_TYPE_FILE then some (p.opens, w)
        else some ([], w)
      else some ([], w.select panel)

/-- What is started, and the window after it. -/
def step (S : Sorting) (w : Window) (m : Moment) : Option (List Launch × Window) :=
  match m.input with
  | .load => (w.navigate S m .load).map ([], ·)
  | .enter text => (w.navigate S m (.enter text)).map ([], ·)
  | .up => (w.navigate S m .up).map ([], ·)
  | .prev => (w.navigate S m .prev).map ([], ·)
  | .next => (w.navigate S m .next).map ([], ·)
  | .press panel clickCount => w.press S m panel clickCount
  | .mouseEnter panel =>
      some ([], { w with panels := setBackground panel highlighted w.panels })
  | .mouseLeave panel =>
      if panel ∈ w.selectedPanels then some ([], w)
      else some ([], { w with panels := setBackground panel cleared w.panels })

end Window

section History

variable {k : ℕ} {s : Browser} {e : Event}

/-- The position is in the history, which has so many entries at most. -/
structure Within (k : ℕ) (s : Browser) : Prop where
  low : -1 ≤ s.historyCurrentPosition
  high : s.historyCurrentPosition < s.history.length
  length_le : s.history.length ≤ k

/-- What an action has done to what is shown. -/
structure Moved (k : ℕ) (s : Browser) (outcome : Outcome) (t : Browser) : Prop where
  within : Within (k + 1) t
  loaded : outcome = .loaded → t.listing = some t.currentBase
  stays : outcome ≠ .loaded → t.listing = s.listing

theorem Within.succ (h : Within k s) : Within (k + 1) s :=
  ⟨h.low, h.high, h.length_le.trans (Nat.le_succ k)⟩

theorem within_keepVisit (h : s.history.length ≤ k) (hk : k < 2 ^ 31) :
    Within (k + 1) (keepVisit s) := by
  have hkept : (if HasNext s then s.history.take (s.historyCurrentPosition + 1).toNat
      else s.history).length ≤ k := by
    split
    · exact (List.length_take_le' _ _).trans h
    · exact h
  unfold keepVisit
  generalize (if HasNext s then s.history.take (s.historyCurrentPosition + 1).toNat
    else s.history) = kept at hkept
  have hlength : (kept ++ [s.currentBase]).length = kept.length + 1 := List.length_append
  have hposition : lastPosition (kept ++ [s.currentBase]) = kept.length := by
    rw [lastPosition_eq (by omega), hlength]
    omega
  constructor
  · change -1 ≤ lastPosition (kept ++ [s.currentBase])
    omega
  · change lastPosition (kept ++ [s.currentBase]) < (kept ++ [s.currentBase]).length
    omega
  · change (kept ++ [s.currentBase]).length ≤ k + 1
    omega

/-- Whether it fails or not, loading keeps the position in the history. -/
theorem moved_navigatorLoad (h : Within k s) (hk : k < 2 ^ 31) (e : Event) (keepHistory : Bool) :
    ∃ outcome t, navigatorLoad e keepHistory s = (outcome, t) ∧ Moved k s outcome t := by
  cases hreal : e.g_real_path s.currentBase with
  | none =>
    refine ⟨_, _, load_missing hreal keepHistory, ?_, nofun, fun _ => rfl⟩
    exact ⟨h.low, h.high, h.length_le.trans (Nat.le_succ k)⟩
  | some real =>
    by_cases hopen : e.g_open_directory real = true
    · refine ⟨_, _, load_readable hreal hopen keepHistory, ?_, fun _ => rfl, nofun⟩
      cases keepHistory with
      | true => exact ⟨h.low, h.high, h.length_le.trans (Nat.le_succ k)⟩
      | false =>
        obtain ⟨hlow, hhigh, hlength⟩ := within_keepVisit
          (s := { s with currentBase := real }) h.length_le hk
        exact ⟨hlow, hhigh, hlength⟩
    · have hunread := load_unreadable hreal (by simpa using hopen) keepHistory
      refine ⟨_, _, hunread, ?_, nofun, fun _ => rfl⟩
      exact ⟨h.low, h.high, h.length_le.trans (Nat.le_succ k)⟩

theorem moved_goTo (h : Within k s) (hk : k < 2 ^ 31) (e : Event) {position : ℤ}
    (hlow : 0 ≤ position) (hhigh : position < s.history.length) :
    ∃ outcome t, goTo e position s = some (outcome, t) ∧ Moved k s outcome t := by
  have hlt : position.toNat < s.history.length := (Int.toNat_lt hlow).mpr hhigh
  unfold goTo
  rw [List.getElem?_eq_getElem hlt]
  have hmoved : Within k { s with
      historyCurrentPosition := position, currentBase := s.history[position.toNat] } :=
    ⟨by change -1 ≤ position; omega, hhigh, h.length_le⟩
  obtain ⟨outcome, t, hload, hwithin, hloaded, hstays⟩ := moved_navigatorLoad hmoved hk e true
  exact ⟨outcome, t, congrArg some hload, hwithin, hloaded, hstays⟩

/-- No action leaves the history, whatever has failed before. -/
theorem Within.step (h : Within k s) (hk : k < 2 ^ 31) (e : Event) :
    ∃ outcome t, Navigator.step s e = some (outcome, t) ∧ Moved k s outcome t := by
  have hidle : Moved k s .idle s := ⟨h.succ, nofun, fun _ => rfl⟩
  cases hvisited : visited s e.action with
  | some path =>
    obtain ⟨title, hstep⟩ := step_visit hvisited
    have hrenamed : Within k { s with currentBase := path, title := title } :=
      ⟨h.low, h.high, h.length_le⟩
    obtain ⟨outcome, t, hload, hmoved⟩ := moved_navigatorLoad hrenamed hk e false
    exact ⟨outcome, t, hstep.trans (congrArg some hload), hmoved.within, hmoved.loaded,
      hmoved.stays⟩
  | none =>
    unfold Navigator.step
    cases haction : e.action with
    | prev =>
      dsimp only
      split
      · have hhigh := h.high
        exact moved_goTo h hk e (by omega) (by omega)
      · exact ⟨.idle, s, rfl, hidle⟩
    | next =>
      dsimp only
      split
      · next hnext =>
        obtain ⟨hlow, hlast⟩ := hnext
        have hlength := h.length_le
        rw [lastPosition_eq (by omega)] at hlast
        exact moved_goTo h hk e (by omega) (by omega)
      · exact ⟨.idle, s, rfl, hidle⟩
    | _ =>
      rw [haction] at hvisited
      cases hvisited

end History

/-- A panel without its background. -/
def Panel.plain (panel : Panel) : Panel := { panel with background := untouched }

/-- The panels are those of a directory as it was read at some moment: one for each entry,
folders first, by their names. -/
structure Shows (m : Moment) (dir : Path) (w : Window) : Prop where
  listing : w.browser.listing = some dir
  panels : ∃ children : List FileEntry, children.Perm (m.children dir) ∧
    children.Pairwise (fun a b => a.key ≤ b.key) ∧
    w.panels.map Panel.plain = children.map (.create dir)

/-- What the window shows after some moments. -/
structure Pictured (seen : List Moment) (w : Window) : Prop where
  shows_listing : (w.browser.listing = none ∧ w.panels = []) ∨ ∃ m ∈ seen, ∃ dir, Shows m dir w
  selected : w.selectedPanels.length ≤ 1
  lit : ∀ i ∈ w.selectedPanels, ∃ p, w.panels[i]? = some p ∧ p.background = highlighted

/-- The launch is for a file of the directory that is shown: the file itself if it is a
program, or else the editor. -/
def Opened (seen : List Moment) (w : Window) (launch : Launch) : Prop :=
  ∃ m ∈ seen, ∃ dir name, Shows m dir w ∧ name ∈ m.g_read_directory dir ∧
    m.g_fs_stat (childPath dir name) = G_FS_NODE_TYPE_FILE ∧
    (ending <:+ childPath dir name ∧ launch = ⟨childPath dir name, []⟩ ∨
      ¬ ending <:+ childPath dir name ∧ launch = ⟨editor, childPath dir name⟩)

section Pictures

variable {S : Sorting} {seen : List Moment} {m : Moment} {w : Window} {k : ℕ}

theorem getElem?_setBackground (i : ℕ) (c : Color) (panels : List Panel) (j : ℕ) :
    (Window.setBackground i c panels)[j]? =
      (panels[j]?).map fun p => if i = j then { p with background := c } else p := by
  unfold Window.setBackground
  exact List.getElem?_modify _ i panels j

theorem map_plain_setBackground (i : ℕ) (c : Color) (panels : List Panel) :
    (Window.setBackground i c panels).map Panel.plain = panels.map Panel.plain := by
  apply List.ext_getElem?
  intro j
  rw [List.getElem?_map, List.getElem?_map, getElem?_setBackground, Option.map_map]
  congr 1
  funext p
  by_cases hij : i = j
  · simp only [Function.comp_apply, if_pos hij]
    rfl
  · simp only [Function.comp_apply, if_neg hij]

theorem map_plain_foldl (selected : List ℕ) (panels : List Panel) :
    (selected.foldl (fun panels i => Window.setBackground i cleared panels) panels).map
      Panel.plain = panels.map Panel.plain := by
  induction selected generalizing panels with
  | nil => rfl
  | cons i selected ih => rw [List.foldl_cons, ih, map_plain_setBackground]

/-- Backgrounds do not matter for what is shown. -/
theorem shows_of_plain (w : Window) {panels : List Panel} {selected : List ℕ}
    (h : (w.browser.listing = none ∧ w.panels = []) ∨ ∃ m ∈ seen, ∃ dir, Shows m dir w)
    (hpanels : panels.map Panel.plain = w.panels.map Panel.plain) :
    (w.browser.listing = none ∧ panels = []) ∨ ∃ m ∈ seen, ∃ dir,
      Shows m dir { w with panels := panels, selectedPanels := selected } := by
  rcases h with ⟨hlisting, hnone⟩ | ⟨m, hm, dir, hlisting, children, hperm, hsorted, hall⟩
  · rw [hnone, List.map_nil, List.map_eq_nil_iff] at hpanels
    exact Or.inl ⟨hlisting, hpanels⟩
  · exact Or.inr ⟨m, hm, dir, hlisting, children, hperm, hsorted, hpanels.trans hall⟩

theorem shows_created (S : Sorting) (m : Moment) {browser : Browser}
    (hlisting : browser.listing = some browser.currentBase) :
    Shows m browser.currentBase ⟨browser,
      (S.sort (m.children browser.currentBase)).map (.create browser.currentBase), []⟩ := by
  refine ⟨hlisting, S.sort (m.children browser.currentBase), S.perm _, ?_, List.map_map⟩
  exact (S.sorted _).imp fun hnot => (FileEntry.precedes_eq_false_iff _ _).mp hnot

theorem Pictured.navigate (h : Pictured seen w) (hwithin : Within k w.browser) (hk : k < 2 ^ 31)
    (hm : m ∈ seen) (action : Action) :
    ∃ t, w.navigate S m action = some t ∧ Within (k + 1) t.browser ∧ Pictured seen t := by
  obtain ⟨outcome, browser, hstep, hmoved⟩ := hwithin.step hk (m.event action)
  have hstays (hfailed : outcome ≠ .loaded) : Pictured seen { w with browser := browser } := by
    refine ⟨?_, h.selected, h.lit⟩
    rw [show ({ w with browser := browser } : Window).browser.listing = w.browser.listing from
      hmoved.stays hfailed]
    refine h.shows_listing.imp_right fun ⟨m', hm', dir, hshows⟩ => ⟨m', hm', dir, ?_, hshows.panels⟩
    exact (hmoved.stays hfailed).trans hshows.listing
  unfold Window.navigate
  rw [hstep]
  cases outcome with
  | loaded =>
    refine ⟨_, rfl, hmoved.within, Or.inr ⟨m, hm, browser.currentBase, ?_⟩, Nat.zero_le 1, nofun⟩
    exact shows_created S m (hmoved.loaded rfl)
  | failed => exact ⟨_, rfl, hmoved.within, hstays nofun⟩
  | idle => exact ⟨_, rfl, hmoved.within, hstays nofun⟩

theorem Pictured.select (h : Pictured seen w) {panel : ℕ} {p : Panel}
    (hp : w.panels[panel]? = some p) : Pictured seen (w.select panel) := by
  unfold Window.select
  have hplain := (map_plain_setBackground panel highlighted _).trans
    (map_plain_foldl w.selectedPanels w.panels)
  refine ⟨shows_of_plain w h.shows_listing hplain, le_refl 1, fun i hi => ?_⟩
  obtain rfl := List.mem_singleton.mp hi
  have hthere := congrArg List.length (map_plain_foldl w.selectedPanels w.panels)
  rw [List.length_map, List.length_map] at hthere
  obtain ⟨hlt, -⟩ := List.getElem?_eq_some_iff.mp hp
  rw [← hthere] at hlt
  obtain ⟨q, hq⟩ : ∃ q, (w.selectedPanels.foldl
      (fun panels i => Window.setBackground i cleared panels) w.panels)[i]? = some q :=
    ⟨_, List.getElem?_eq_getElem hlt⟩
  refine ⟨{ q with background := highlighted }, ?_, rfl⟩
  rw [getElem?_setBackground, hq, Option.map_some, if_pos rfl]

/-- A panel that is not selected, or one that is lit. -/
theorem Pictured.setBackground (h : Pictured seen w) {panel : ℕ} {c : Color}
    (hc : panel ∈ w.selectedPanels → c = highlighted) :
    Pictured seen { w with panels := Window.setBackground panel c w.panels } := by
  refine ⟨shows_of_plain w h.shows_listing (map_plain_setBackground panel c w.panels), h.selected,
    fun i hi => ?_⟩
  obtain ⟨p, hp, hlit⟩ := h.lit i hi
  by_cases hpanel : panel = i
  · refine ⟨{ p with background := c }, ?_, hc (hpanel ▸ hi)⟩
    rw [getElem?_setBackground, hp, Option.map_some, if_pos hpanel]
  · refine ⟨p, ?_, hlit⟩
    rw [getElem?_setBackground, hp, Option.map_some, if_neg hpanel]

theorem opened_of_opens (h : Pictured seen w) {panel : ℕ} {p : Panel}
    (hp : w.panels[panel]? = some p) (hfile : p.nodeType = G_FS_NODE_TYPE_FILE)
    {launch : Launch} (hlaunch : launch ∈ p.opens) : Opened seen w launch := by
  rcases h.shows_listing with ⟨-, hnone⟩ | ⟨m, hm, dir, hshows⟩
  · rw [hnone] at hp
    cases hp
  obtain ⟨children, hperm, -, hall⟩ := hshows.panels
  have hget := congrArg (fun l => l[panel]?) hall
  simp only [List.getElem?_map, hp, Option.map_some] at hget
  obtain ⟨child, hchild, hcreate⟩ := Option.map_eq_some_iff.mp hget.symm
  have hmem := hperm.mem_iff.mp (List.mem_of_getElem? hchild)
  obtain ⟨name, hname, rfl⟩ := List.mem_map.mp hmem
  have hpath : p.path = childPath dir name := (congrArg Panel.path hcreate).symm
  have htype : p.nodeType = m.g_fs_stat (childPath dir name) :=
    (congrArg Panel.nodeType hcreate).symm
  refine ⟨m, hm, dir, name, hshows, hname, htype.symm.trans hfile, ?_⟩
  rw [← hpath]
  unfold Panel.opens at hlaunch
  split at hlaunch
  · cases hlaunch
  · split at hlaunch
    · next hending =>
      rw [List.isPrefixOf_iff_prefix, List.reverse_prefix] at hending
      exact Or.inl ⟨hending, List.mem_singleton.mp hlaunch⟩
    · next hending =>
      rw [List.isPrefixOf_iff_prefix, List.reverse_prefix] at hending
      exact Or.inr ⟨hending, List.mem_singleton.mp hlaunch⟩

/-- What one step does. -/
structure Stepped (seen : List Moment) (k : ℕ) (w : Window) (launches : List Launch)
    (t : Window) : Prop where
  within : Within (k + 1) t.browser
  pictured : Pictured seen t
  opened : ∀ launch ∈ launches, Opened seen w launch

theorem Pictured.step (h : Pictured seen w) (hwithin : Within k w.browser) (hk : k < 2 ^ 31)
    (hm : m ∈ seen) :
    ∃ launches t, w.step S m = some (launches, t) ∧ Stepped seen k w launches t := by
  have hquiet {t : Window} (hbrowser : t.browser = w.browser) (ht : Pictured seen t) :
      Stepped seen k w [] t := ⟨hbrowser ▸ hwithin.succ, ht, nofun⟩
  have hnavigate (action : Action) : ∃ launches t,
      (w.navigate S m action).map (fun t => (([] : List Launch), t)) = some (launches, t) ∧
        Stepped seen k w launches t := by
    obtain ⟨t, ht, hend, hpictured⟩ := h.navigate (S := S) hwithin hk hm action
    exact ⟨[], t, by rw [ht]; rfl, hend, hpictured, nofun⟩
  unfold Window.step
  cases m.input with
  | press panel clickCount =>
    dsimp only
    unfold Window.press
    cases hp : w.panels[panel]? with
    | none => exact ⟨_, _, rfl, hquiet rfl h⟩
    | some p =>
      dsimp only
      split
      · split
        · exact hnavigate _
        · split
          · next hfile =>
            exact ⟨_, _, rfl, hwithin.succ, h, fun launch => opened_of_opens h hp hfile⟩
          · exact ⟨_, _, rfl, hquiet rfl h⟩
      · exact ⟨_, _, rfl, hquiet rfl (h.select hp)⟩
  | mouseEnter panel => exact ⟨_, _, rfl, hquiet rfl (h.setBackground fun _ => rfl)⟩
  | mouseLeave panel =>
    dsimp only
    split
    · exact ⟨_, _, rfl, hquiet rfl h⟩
    · next hnot => exact ⟨_, _, rfl, hquiet rfl (h.setBackground fun hmem => absurd hmem hnot)⟩
  | _ => exact hnavigate _

theorem Pictured.run (h : Pictured seen w) (hwithin : Within k w.browser)
    {moments : List Moment} (hfew : k + moments.length ≤ 2 ^ 31)
    (hseen : ∀ m ∈ moments, m ∈ seen) :
    (∃ t, moments.foldlM (fun w m => (Window.step S w m).map Prod.snd) w = some t) ∧
      Throughout (Window.step S)
        (fun w _ launches _ => ∀ launch ∈ launches, Opened seen w launch)
        (Pictured seen) moments w := by
  induction moments generalizing w k with
  | nil => exact ⟨⟨w, rfl⟩, h⟩
  | cons m moments ih =>
    rw [List.length_cons] at hfew
    obtain ⟨launches, u, hu, hstepped⟩ :=
      h.step (S := S) hwithin (by omega) (hseen m List.mem_cons_self)
    obtain ⟨⟨t, ht⟩, hrest⟩ := ih hstepped.pictured hstepped.within (by omega)
      fun m' hm' => hseen m' (List.mem_cons_of_mem m hm')
    refine ⟨⟨t, ?_⟩, (throughout_cons_some hu).mpr ⟨hstepped.opened, hrest⟩⟩
    rw [List.foldlM_cons, hu]
    exact ht

end Pictures

/-- Whatever the user does and whatever fails: the window never looks outside of its history,
its panels are always those of the directory that was loaded last, in their order, at most
one panel is selected, and it is highlighted. What is started is for a file that is shown,
also when the path has become another one. -/
theorem window_shows_directory (S : Sorting) (moments : List Moment)
    (hfew : moments.length ≤ 2 ^ 31) :
    (∃ t, moments.foldlM (fun w m => (Window.step S w m).map Prod.snd) Window.start = some t) ∧
      Throughout (Window.step S)
        (fun w _ launches _ => ∀ launch ∈ launches, Opened moments w launch)
        (Pictured moments) moments Window.start := by
  have hstart : Pictured moments Window.start := ⟨Or.inl ⟨rfl, rfl⟩, Nat.zero_le 1, nofun⟩
  have hwithin : Within 0 Window.start.browser :=
    ⟨le_refl _, neg_one_lt_zero, Nat.le_refl 0⟩
  exact hstart.run hwithin (by omega) fun _ hm => hm

/-- A root with a folder `z` and a file `b`, and a file system with nothing else. -/
def smallRoot (input : Input) : Moment where
  input := input
  g_real_path path := if path = [slash] then some path else none
  g_open_directory _ := true
  g_read_directory _ := [[98], [122]]
  g_fs_stat path :=
    if path = childPath [slash] [122] then G_FS_NODE_TYPE_FOLDER else G_FS_NODE_TYPE_FILE

/-- The path becomes another one, and the file is opened after that. -/
def smallVisit : List Moment :=
  [.load, .press 0 1, .enter [120], .mouseLeave 0, .press 1 2].map smallRoot

theorem window_shows_directory_smallVisit :
    (∃ t, smallVisit.foldlM (fun w m => (Window.step Sorting.insertion w m).map Prod.snd)
      Window.start = some t) ∧
      Throughout (Window.step Sorting.insertion)
        (fun w _ launches _ => ∀ launch ∈ launches, Opened smallVisit w launch)
        (Pictured smallVisit) smallVisit Window.start :=
  window_shows_directory Sorting.insertion smallVisit (by decide)

example : (smallVisit.foldlM (fun w m => (Window.step Sorting.insertion w m).map Prod.snd)
    Window.start).map (fun w => (w.browser.currentBase, w.panels.map Panel.title)) =
      some ([120], [[122], [98]]) := by
  decide

end Heartix.Navigator
