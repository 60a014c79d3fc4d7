import Heartix.Desktop.Background

/-!
What the user is shown of the background. The icons rest where the organizer has put them,
the selected ones are carried by the way of the pointer, and a release puts all of them
into cells. The background does the same with offsets that it computes at a press.
-/

namespace Heartix.Desktop

/-- A rectangle that has been carried from one point to another. -/
def Rectangle.carried (p q : Point) (b : Rectangle) : Rectangle :=
  { b with
    x := (b.x + (q.x - p.x)).bmod (2 ^ 32)
    y := (b.y + (q.y - p.y)).bmod (2 ^ 32) }

/-- Rectangles without their right and lower edge. -/
def plainMetrics : Metrics where
  point := ⟨0, 0⟩
  contains r p := r.x ≤ p.x ∧ p.x < r.x + r.width ∧ r.y ≤ p.y ∧ p.y < r.y + r.height
  intersects a b := a.x < b.x + b.width ∧ b.x < a.x + a.width ∧ a.y < b.y + b.height ∧
    b.y < a.y + a.height
  asNormalized r := ⟨min r.x (r.x + r.width), min r.y (r.y + r.height), |r.width|, |r.height|⟩

/-- An item as the user is shown it. -/
structure Icon where
  application : String
  rest : Rectangle
  selected : Bool

/-- Where an icon is shown: while the pointer carries them, selected ones go with it. -/
def Icon.shown (carry : Option (Point × Point)) (icon : Icon) : Rectangle :=
  match carry with
  | some (p, q) => if icon.selected then icon.rest.carried p q else icon.rest
  | none => icon.rest

/-- The icons, the way by which the pointer carries the selected ones, and the point where
the band starts. -/
structure Desk where
  icons : List Icon
  carry : Option (Point × Point)
  start : Point

namespace Desk

def shown (d : Desk) : List Rectangle := d.icons.map (Icon.shown d.carry)

/-- The icons come to rest where they are shown. -/
def settled (d : Desk) (select : ℕ → Icon → Bool) : List Icon :=
  d.icons.mapIdx fun i icon =>
    { icon with
      rest := icon.shown d.carry
      selected := select i icon }

/-- A press picks the icon on top, together with all selected ones if it is one of them. -/
def press (M : Metrics) (d : Desk) (position : Point) (clickCount : ℤ) : Desk × List String :=
  match pressedItem M position d.shown 0 none with
  | some k =>
      let together := (d.icons[k]?).all Icon.selected
      let launched := if clickCount = 2 then (d.icons[k]?).toList.map Icon.application else []
      ({ d with
          icons := d.settled (fun i icon => if together then icon.selected else decide (i = k))
          carry := some (position, position) }, launched)
  | none =>
      let carry := d.carry.map fun _ => (position, position)
      (⟨d.settled fun _ _ => false, carry, position⟩, [])

def drag (M : Metrics) (d : Desk) (position : Point) : Desk :=
  match d.carry with
  | some (p, _) => { d with carry := some (p, position) }
  | none =>
      let band := Background.band M d.start position
      { d with icons := d.settled fun _ icon => M.intersects band (icon.shown d.carry) }

/-- A release puts every icon into a cell. -/
def release (background : Rectangle) (d : Desk) : Desk :=
  { d with
    icons := d.icons.mapIdx fun i icon => { icon with
      rest := (ItemOrganizer.ofBackground.cells background).placed d.shown i
        (icon.shown d.carry) }
    carry := none }

def act (M : Metrics) (background : Rectangle) (d : Desk) (e : ComponentMouseEvent) :
    Desk × List String :=
  match e.type with
  | .press => if e.button1 then press M d e.position e.clickCount else (d, [])
  | .drag => (if e.button1 then drag M d e.position else d, [])
  | .release => (release background d, [])
  | .leave => (release background d, [])
  | .move => (d, [])
  | .other => (d, [])

def run (M : Metrics) (background : Rectangle) (d : Desk) :
    List ComponentMouseEvent → Desk × List String
  | [] => (d, [])
  | e :: events =>
      let (d, launched) := act M background d e
      let (d, later) := run M background d events
      (d, launched ++ later)

/-- The icons of the applications, each in its cell. -/
def loaded (M : Metrics) (background : Rectangle) (applications : List String) : Desk :=
  release background ⟨applications.mapIdx fun i application =>
    ⟨application, (Background.loadItem M i application).bounds, false⟩, none, M.point⟩

end Desk

/-- A screen: it has cells, and the coordinates on it are `int`s. -/
structure Screen (background : Rectangle) : Prop where
  hasCells : ItemOrganizer.ofBackground.HasCells background
  size : (ItemOrganizer.ofBackground.cells background).size < 2 ^ 31
  width : background.width + 50 < 2 ^ 31
  height : background.height + 50 < 2 ^ 31

/-- The items lie in different cells, and the organizer leaves them there. -/
structure Tidy (background : Rectangle) (items : List Rectangle) : Prop where
  cells : ∀ b ∈ items, ∃ column row, (ItemOrganizer.ofBackground.cells background).In b column row
  different : ∀ (i j : ℕ) (a b : Rectangle), items[i]? = some a → items[j]? = some b →
    (a.x, a.y) = (b.x, b.y) → i = j
  stays : ItemOrganizer.ofBackground.organize items background = some items

section Organized

open Cells

variable {background : Rectangle} {items : List Rectangle} {i : ℕ} {b : Rectangle}

theorem Screen.organize (h : Screen background) (items : List Rectangle) :
    ItemOrganizer.ofBackground.organize items background =
      some (items.mapIdx ((ItemOrganizer.ofBackground.cells background).placed items)) :=
  h.hasCells.organize h.size

/-- The last cell of a side begins on the screen. -/
theorem Screen.sides (h : Screen background) :
    (ItemOrganizer.ofBackground.cells background).maxX * 100 ≤ background.width ∧
      (ItemOrganizer.ofBackground.cells background).maxY * 100 ≤ background.height :=
  ⟨maxIndex_mul_le (by decide) h.hasCells.1, maxIndex_mul_le (by decide) h.hasCells.2⟩

/-- The coordinates of a cell. -/
theorem Screen.in_bounds (h : Screen background) {column row : ℤ}
    (hin : (ItemOrganizer.ofBackground.cells background).In b column row) :
    0 ≤ b.x ∧ b.x ≤ background.width ∧ 0 ≤ b.y ∧ b.y ≤ background.height := by
  obtain ⟨hcolumn, hrow, hx, hy⟩ := hin
  obtain ⟨hwidth, hheight⟩ := h.sides
  have hx' : b.x = column * 100 := hx
  have hy' : b.y = row * 100 := hy
  omega

theorem Screen.centred (h : Screen background) (b : Rectangle) :
    (ItemOrganizer.ofBackground.cells background).Centred b := by
  have hvalid := h.hasCells.valid
  obtain ⟨_, hx, _, hy⟩ := h.in_bounds (hvalid.in_snapped b)
  have hwidth := h.width
  have hheight := h.height
  change (ItemOrganizer.ofBackground.cells background).column b * 100 ≤ _ at hx
  change (ItemOrganizer.ofBackground.cells background).row b * 100 ≤ _ at hy
  change (ItemOrganizer.ofBackground.cells background).column b * 100 + 50 < 2 ^ 31 ∧
    (ItemOrganizer.ofBackground.cells background).row b * 100 + 50 < 2 ^ 31
  omega

theorem Screen.in_placed (h : Screen background) (hb : items[i]? = some b) :
    ∃ column row, (ItemOrganizer.ofBackground.cells background).In
      ((ItemOrganizer.ofBackground.cells background).placed items i b) column row := by
  obtain ⟨column, row, hin, _⟩ := h.hasCells.valid.in_placed hb
  exact ⟨column, row, hin⟩

/-- What the organizer leaves is tidy. -/
theorem Screen.tidy (h : Screen background)
    (hcount : items.length ≤ (ItemOrganizer.ofBackground.cells background).capacity) :
    Tidy background
      (items.mapIdx ((ItemOrganizer.ofBackground.cells background).placed items)) := by
  have hvalid := h.hasCells.valid
  constructor
  · intro b hb
    obtain ⟨i, hi⟩ := List.mem_iff_getElem?.mp hb
    rw [List.getElem?_mapIdx] at hi
    obtain ⟨a, ha, rfl⟩ := Option.map_eq_some_iff.mp hi
    exact h.in_placed ha
  · intro i j a b ha hb hposition
    rw [List.getElem?_mapIdx] at ha hb
    obtain ⟨a, hia, rfl⟩ := Option.map_eq_some_iff.mp ha
    obtain ⟨b, hjb, rfl⟩ := Option.map_eq_some_iff.mp hb
    obtain ⟨column, row, hin, hnumber, _⟩ := hvalid.in_placed hia
    obtain ⟨column', row', hin', hnumber', _⟩ := hvalid.in_placed hjb
    obtain ⟨rfl, rfl⟩ := hvalid.in_unique hin hin' hposition
    have hsame := Int.ofNat.inj (hnumber.trans hnumber'.symm)
    rcases Nat.lt_trichotomy i j with hij | hij | hij
    · exact absurd hsame (hvalid.number_injective hcount hij hia hjb)
    · exact hij
    · exact absurd hsame.symm (hvalid.number_injective hcount hij hjb hia)
  · obtain ⟨hwidth, hheight⟩ := h.sides
    have hlimits := And.intro h.width h.height
    rw [h.organize, hvalid.placed_again hcount ⟨?_, ?_⟩ fun i b _ _ => h.centred b]
    · change (ItemOrganizer.ofBackground.cells background).maxX * 100 < 2 ^ 31
      omega
    · change (ItemOrganizer.ofBackground.cells background).maxY * 100 < 2 ^ 31
      omega

end Organized

/-- A rectangle of the size of an item, at `int` coordinates. -/
structure ItemSized (b : Rectangle) : Prop where
  width : b.width = 100
  height : b.height = 100
  x : b.x.bmod (2 ^ 32) = b.x
  y : b.y.bmod (2 ^ 32) = b.y

/-- An item is where its icon is shown, and knows how far from the pointer it is. -/
structure Item.Shows (carry : Option (Point × Point)) (item : Item) (icon : Icon) : Prop where
  application : item.application = icon.application
  bounds : item.bounds = icon.shown carry
  selected : item.selected = icon.selected
  dragOffset : ∀ p q, carry = some (p, q) → icon.selected = true →
    item.dragOffset = p.minus icon.rest.getStart
  sized : ItemSized icon.rest

/-- The items show the icons one by one. -/
structure Aligned (carry : Option (Point × Point)) (items : List Item) (icons : List Icon) :
    Prop where
  length : items.length = icons.length
  shows : ∀ (i : ℕ) item icon, items[i]? = some item → icons[i]? = some icon →
    item.Shows carry icon

structure Background.Shows (s : Background) (d : Desk) : Prop where
  aligned : Aligned d.carry s.items d.icons
  dragItems : s.dragItems = d.carry.isSome
  selectionStart : s.selectionStart = d.start

theorem size_placed (c : Cells) (items : List Rectangle) (i : ℕ) (b : Rectangle) :
    (c.placed items i b).width = b.width ∧ (c.placed items i b).height = b.height := by
  unfold Cells.placed
  split
  · cases c.seat items i with
    | none => exact ⟨rfl, rfl⟩
    | some t => exact ⟨rfl, rfl⟩
  · exact ⟨rfl, rfl⟩

/-- The organizer puts items of this kind to places of this kind. -/
theorem Screen.itemSized {background : Rectangle} (h : Screen background) {items : List Rectangle}
    {i : ℕ} {b : Rectangle} (hb : items[i]? = some b) (hsized : ItemSized b) :
    ItemSized ((ItemOrganizer.ofBackground.cells background).placed items i b) := by
  obtain ⟨hwidth, hheight⟩ :=
    size_placed (ItemOrganizer.ofBackground.cells background) items i b
  obtain ⟨column, row, hin⟩ := h.in_placed hb
  obtain ⟨hx, hx', hy, hy'⟩ := h.in_bounds hin
  have hlimits := And.intro h.width h.height
  refine ⟨hwidth.trans hsized.width, hheight.trans hsized.height, ?_, ?_⟩
  · exact Int.bmod_eq_of_le_mul_two (by omega) (by omega)
  · exact Int.bmod_eq_of_le_mul_two (by omega) (by omega)

section Carried

variable {p q r : Point} {b : Rectangle}

/-- The offset of the press puts an item where it has been carried to. -/
theorem minus_minus (hb : ItemSized b) :
    (⟨(q.minus (p.minus b.getStart)).x, (q.minus (p.minus b.getStart)).y, 100, 100⟩ : Rectangle) =
      b.carried p q := by
  unfold Rectangle.carried Point.minus Rectangle.getStart
  dsimp only
  rw [Int.sub_bmod_bmod, Int.sub_bmod_bmod, hb.width, hb.height,
    show q.x - (p.x - b.x) = b.x + (q.x - p.x) by omega,
    show q.y - (p.y - b.y) = b.y + (q.y - p.y) by omega]

theorem carried_self (hb : ItemSized b) : b.carried p p = b := by
  unfold Rectangle.carried
  rw [Int.sub_self, Int.sub_self, Int.add_zero, Int.add_zero, hb.x, hb.y]

theorem ItemSized.carried (hb : ItemSized b) : ItemSized (b.carried p q) :=
  ⟨hb.width, hb.height, Int.bmod_bmod, Int.bmod_bmod⟩

theorem ItemSized.shown {icon : Icon} (h : ItemSized icon.rest) (carry : Option (Point × Point)) :
    ItemSized (icon.shown carry) := by
  unfold Icon.shown
  split
  · split
    · exact h.carried
    · exact h
  · exact h

/-- An icon that has come to rest is shown where it rests. -/
theorem shown_settled (icon : Icon) (h : ItemSized icon.rest) (p : Point) (b : Bool) :
    Icon.shown (some (p, p)) ⟨icon.application, icon.rest, b⟩ = icon.rest := by
  unfold Icon.shown
  dsimp only
  split
  · exact carried_self h
  · rfl

end Carried

theorem map_eq_mapIdx {α β : Type} (f : α → β) (l : List α) : l.map f = l.mapIdx fun _ => f :=
  (List.mapIdx_eq_iff.mpr fun _ => List.getElem?_map).symm

namespace Aligned

variable {carry carry' : Option (Point × Point)} {items : List Item} {icons : List Icon}
  {f : ℕ → Item → Item} {g : ℕ → Icon → Icon}

theorem getElem? (h : Aligned carry items icons) (i : ℕ) :
    items[i]? = none ∧ icons[i]? = none ∨
      ∃ item icon, items[i]? = some item ∧ icons[i]? = some icon ∧ item.Shows carry icon := by
  by_cases hlt : i < items.length
  · have hlt' : i < icons.length := h.length ▸ hlt
    have hitem := List.getElem?_eq_getElem hlt
    have hicon := List.getElem?_eq_getElem hlt'
    exact Or.inr ⟨_, _, hitem, hicon, h.shows i _ _ hitem hicon⟩
  · have hge := Nat.le_of_not_lt hlt
    exact Or.inl ⟨List.getElem?_eq_none hge, List.getElem?_eq_none (h.length ▸ hge)⟩

/-- All items and icons are changed alike. -/
theorem mapIdx (h : Aligned carry items icons)
    (hchange : ∀ i item icon, icons[i]? = some icon → item.Shows carry icon →
      (f i item).Shows carry' (g i icon)) :
    Aligned carry' (items.mapIdx f) (icons.mapIdx g) := by
  constructor
  · rw [List.length_mapIdx, List.length_mapIdx, h.length]
  · intro i item icon hitem hicon
    rw [List.getElem?_mapIdx] at hitem hicon
    obtain ⟨item, hget, rfl⟩ := Option.map_eq_some_iff.mp hitem
    obtain ⟨icon, hget', rfl⟩ := Option.map_eq_some_iff.mp hicon
    exact hchange i item icon hget' (h.shows i item icon hget hget')

/-- The items are changed, and the icons are not. -/
theorem map (h : Aligned carry items icons) {u : Item → Item}
    (hchange : ∀ item icon, item.Shows carry icon → (u item).Shows carry' icon) :
    Aligned carry' (items.map u) icons := by
  have hsame : (icons.mapIdx fun _ icon => icon) = icons :=
    (map_eq_mapIdx id icons).symm.trans (List.map_id icons)
  rw [map_eq_mapIdx, ← hsame]
  exact h.mapIdx fun i item icon _ hshows => hchange item icon hshows

/-- What an item and its icon agree on, all of them agree on. -/
theorem map_eq {α : Type} (h : Aligned carry items icons) {u : Item → α} {v : Icon → α}
    (heq : ∀ item icon, item.Shows carry icon → u item = v icon) : items.map u = icons.map v := by
  apply List.ext_getElem?
  intro i
  rw [List.getElem?_map, List.getElem?_map]
  rcases h.getElem? i with ⟨hitem, hicon⟩ | ⟨item, icon, hitem, hicon, hshows⟩
  · rw [hitem, hicon]
    rfl
  · rw [hitem, hicon]
    exact congrArg some (heq item icon hshows)

end Aligned

namespace Item.Shows

variable {carry : Option (Point × Point)} {item : Item} {icon : Icon}

/-- An item keeps its place when its icon comes to rest, whatever is selected then. -/
theorem settled_none (h : item.Shows carry icon) (selected : Bool) :
    Item.Shows none { item with selected := selected }
      ⟨icon.application, icon.shown carry, selected⟩ :=
  ⟨h.application, h.bounds, rfl, nofun, h.sized.shown carry⟩

theorem settled_some (h : item.Shows carry icon) (p offset : Point) (selected : Bool)
    (hoffset : selected = true → offset = p.minus item.bounds.getStart) :
    Item.Shows (some (p, p)) { item with selected := selected, dragOffset := offset }
      ⟨icon.application, icon.shown carry, selected⟩ := by
  have hsized := h.sized.shown carry
  refine ⟨h.application, ?_, rfl, ?_, hsized⟩
  · rw [shown_settled ⟨icon.application, icon.shown carry, selected⟩ hsized]
    exact h.bounds
  · intro a b hcarry hselected
    obtain ⟨rfl, rfl⟩ := Prod.mk.inj (Option.some.inj hcarry)
    rw [hoffset hselected, h.bounds]

theorem unselected (h : item.Shows carry icon) (p : Point) :
    Item.Shows (carry.map fun _ => (p, p)) { item with selected := false }
      ⟨icon.application, icon.shown carry, false⟩ := by
  cases carry with
  | none => exact h.settled_none false
  | some way => exact h.settled_some p item.dragOffset false nofun

/-- A drag puts an item where its icon is carried. -/
theorem dragged {p q : Point} (h : item.Shows (some (p, q)) icon) (position : Point) :
    Item.Shows (some (p, position))
      (if item.selected then
        { item with bounds := ⟨(position.minus item.dragOffset).x,
          (position.minus item.dragOffset).y, 100, 100⟩ }
        else item) icon := by
  have hselected := h.selected
  have hoffset (a b : Point) (hway : some (p, position) = some (a, b))
      (hicon : icon.selected = true) : item.dragOffset = a.minus icon.rest.getStart := by
    obtain ⟨rfl, rfl⟩ := Prod.mk.inj (Option.some.inj hway)
    exact h.dragOffset p q rfl hicon
  cases hicon : icon.selected with
  | true =>
    rw [hicon] at hselected
    rw [if_pos hselected]
    refine ⟨h.application, ?_, h.selected, hoffset, h.sized⟩
    rw [h.dragOffset p q rfl hicon, minus_minus h.sized]
    unfold Icon.shown
    rw [hicon]
    rfl
  | false =>
    rw [hicon] at hselected
    rw [if_neg (hselected ▸ Bool.false_ne_true)]
    refine ⟨h.application, ?_, h.selected, hoffset, h.sized⟩
    rw [h.bounds]
    unfold Icon.shown
    rw [hicon]
    rfl

end Item.Shows

namespace Background

theorem selectOnly (items : List Item) (k : ℕ) :
    ((unselectAll items).modify k fun item => { item with selected := true }) =
      items.mapIdx fun i item => { item with selected := decide (i = k) } := by
  apply List.ext_getElem?
  intro i
  rw [List.getElem?_modify, unselectAll, List.getElem?_map, List.getElem?_mapIdx]
  cases items[i]? with
  | none => split <;> rfl
  | some item =>
    change some (if k = i then { item with selected := true }
      else { item with selected := false }) = some { item with selected := decide (i = k) }
    by_cases hi : k = i
    · rw [if_pos hi, decide_eq_true hi.symm]
    · rw [if_neg hi, decide_eq_false (Ne.symm hi)]

theorem itemSized_loadItem (M : Metrics) (next : ℕ) (application : String) :
    ItemSized (loadItem M next application).bounds := by
  have hzero : (0 : ℤ).bmod (2 ^ 32) = 0 := by decide
  unfold loadItem
  generalize ((next * 100 : ℕ) : ℤ) = y
  exact ⟨rfl, rfl, hzero, Int.bmod_bmod⟩

namespace Shows

variable {M : Metrics} {background : Rectangle} {s : Background} {d : Desk} {position : Point}

theorem itemsBounds (h : s.Shows d) : s.itemsBounds = d.shown :=
  h.aligned.map_eq fun _ _ hshows => hshows.bounds

/-- A press on an item picks the items that it picks on the desk. -/
theorem press_item (h : s.Shows d) (k : ℕ) :
    Aligned (some (position, position))
      ((if (s.items[k]?).all Item.selected then s.items
        else (unselectAll s.items).modify k fun item => { item with selected := true }).map
          fun item => if item.selected then
            { item with dragOffset := position.minus item.bounds.getStart } else item)
      (d.settled fun i icon =>
        if (d.icons[k]?).all Icon.selected then icon.selected else decide (i = k)) := by
  have htogether : (s.items[k]?).all Item.selected = (d.icons[k]?).all Icon.selected := by
    rcases h.aligned.getElem? k with ⟨hitem, hicon⟩ | ⟨item, icon, hitem, hicon, hshows⟩
    · rw [hitem, hicon]
      rfl
    · rw [hitem, hicon]
      exact hshows.selected
  unfold Desk.settled
  rw [htogether, map_eq_mapIdx]
  have hoffset (item : Item) (icon : Icon) (b : Bool) (hshows : item.Shows d.carry icon) :
      Item.Shows (some (position, position))
        (if b then { item with
          selected := b
          dragOffset := position.minus item.bounds.getStart }
          else { item with selected := b })
        ⟨icon.application, icon.shown d.carry, b⟩ := by
    cases b with
    | true => exact hshows.settled_some position _ true fun _ => rfl
    | false => exact hshows.settled_some position item.dragOffset false nofun
  by_cases hall : (d.icons[k]?).all Icon.selected = true
  · rw [if_pos hall]
    refine h.aligned.mapIdx fun i item icon _ hshows => ?_
    have hthere := hoffset item icon item.selected hshows
    dsimp only
    rw [if_pos hall, ← hshows.selected]
    exact hthere
  · rw [if_neg hall, selectOnly, List.mapIdx_mapIdx]
    refine h.aligned.mapIdx fun i item icon _ hshows => ?_
    have hthere := hoffset item icon (decide (i = k)) hshows
    dsimp only
    rw [if_neg hall]
    exact hthere

theorem press (h : s.Shows d) (clickCount : ℤ) :
    (onMouseLeftPress M s position clickCount).1.Shows (Desk.press M d position clickCount).1 ∧
      (onMouseLeftPress M s position clickCount).2 = (Desk.press M d position clickCount).2 := by
  unfold onMouseLeftPress Desk.press
  rw [h.itemsBounds]
  cases pressedItem M position d.shown 0 none with
  | some k =>
    refine ⟨⟨h.press_item k, rfl, h.selectionStart⟩, ?_⟩
    have happlication : (s.items[k]?).toList.map Item.application =
        (d.icons[k]?).toList.map Icon.application := by
      rcases h.aligned.getElem? k with ⟨hitem, hicon⟩ | ⟨item, icon, hitem, hicon, hshows⟩
      · rw [hitem, hicon]
        rfl
      · rw [hitem, hicon]
        exact congrArg (fun a => [a]) hshows.application
    exact congrArg (fun applications => if clickCount = 2 then applications else []) happlication
  | none =>
    refine ⟨⟨?_, ?_, rfl⟩, rfl⟩
    · change Aligned (d.carry.map fun _ => (position, position)) (unselectAll s.items)
        (d.settled fun _ _ => false)
      unfold unselectAll Desk.settled
      rw [map_eq_mapIdx]
      refine h.aligned.mapIdx fun i item icon _ hshows => ?_
      exact hshows.unselected position
    · change s.dragItems = (d.carry.map _).isSome
      rw [Option.isSome_map]
      exact h.dragItems

theorem drag (h : s.Shows d) : (onMouseDrag M s position).Shows (Desk.drag M d position) := by
  obtain ⟨icons, carry, start⟩ := d
  obtain ⟨haligned, hdrag, hstart⟩ := h
  unfold onMouseDrag
  cases carry with
  | some way =>
    obtain ⟨p, q⟩ := way
    have htrue : s.dragItems = true := hdrag
    rw [if_pos htrue]
    exact ⟨haligned.map fun item icon hshows => hshows.dragged position, hdrag, hstart⟩
  | none =>
    rw [if_neg (hdrag ▸ Bool.false_ne_true)]
    refine ⟨?_, hdrag, hstart⟩
    have hstart' : s.selectionStart = start := hstart
    dsimp only
    rw [hstart', map_eq_mapIdx]
    refine haligned.mapIdx fun i item icon _ hshows => ?_
    have hbounds : M.intersects (band M start position) item.bounds =
        M.intersects (band M start position) (icon.shown none) :=
      congrArg _ hshows.bounds
    dsimp only
    rw [hbounds]
    exact hshows.settled_none _

/-- The organizer gives an item the place that it gives to the icon. -/
theorem organized (items : List Item) (f : ℕ → Rectangle → Rectangle) :
    items.zipWith (fun item bounds => { item with bounds := bounds })
        ((items.map Item.bounds).mapIdx f) =
      items.mapIdx fun i item => { item with bounds := f i item.bounds } := by
  apply List.ext_getElem?
  intro i
  rw [List.getElem?_zipWith, List.getElem?_mapIdx, List.getElem?_mapIdx, List.getElem?_map]
  cases items[i]? with
  | none => rfl
  | some item => rfl

theorem release (hscreen : Screen background) (h : s.Shows d) :
    ∃ t, onMouseRelease background s = some t ∧ t.Shows (Desk.release background d) := by
  unfold onMouseRelease organize
  change ∃ t, (ItemOrganizer.ofBackground.organize s.itemsBounds background).map _ = some t ∧ _
  rw [hscreen.organize]
  refine ⟨_, rfl, ?_, rfl, h.selectionStart⟩
  change Aligned none (s.items.zipWith _ ((s.items.map Item.bounds).mapIdx _)) _
  rw [organized, h.itemsBounds]
  refine h.aligned.mapIdx fun i item icon hicon hshows => ?_
  have hshown : d.shown[i]? = some (icon.shown d.carry) := by
    unfold Desk.shown
    rw [List.getElem?_map, hicon]
    rfl
  rw [hshows.bounds]
  exact ⟨hshows.application, rfl, hshows.selected, nofun,
    hscreen.itemSized hshown (hshows.sized.shown d.carry)⟩

theorem move (h : s.Shows d) : (onMouseMove M s position).Shows d :=
  ⟨h.aligned.map fun _ _ hshows =>
    ⟨hshows.application, hshows.bounds, hshows.selected, hshows.dragOffset, hshows.sized⟩,
    h.dragItems, h.selectionStart⟩

/-- Each event does to the background what it does to the desk. -/
theorem listen (hscreen : Screen background) (h : s.Shows d) (e : ComponentMouseEvent) :
    ∃ t, listen M background s e = some (t, (Desk.act M background d e).2) ∧
      t.Shows (Desk.act M background d e).1 := by
  obtain ⟨type, position, button1, clickCount⟩ := e
  have hrelease : ∃ t, (onMouseRelease background s).map (fun s => (s, ([] : List String))) =
      some (t, []) ∧ t.Shows (Desk.release background d) := by
    obtain ⟨t, heq, hshows⟩ := h.release hscreen
    rw [heq]
    exact ⟨t, rfl, hshows⟩
  cases type with
  | move => exact ⟨_, rfl, h.move⟩
  | press =>
    cases button1 with
    | true =>
      exact ⟨_, congrArg some (Prod.ext rfl (h.press clickCount).2), (h.press clickCount).1⟩
    | false => exact ⟨_, rfl, h⟩
  | drag =>
    cases button1 with
    | true => exact ⟨_, rfl, h.drag⟩
    | false => exact ⟨_, rfl, h⟩
  | release => exact hrelease
  | leave => exact hrelease
  | other => exact ⟨_, rfl, h⟩

theorem run (hscreen : Screen background) (h : s.Shows d) (events : List ComponentMouseEvent) :
    ∃ t, run M background s events = some (t, (Desk.run M background d events).2) ∧
      t.Shows (Desk.run M background d events).1 := by
  induction events generalizing s d with
  | nil => exact ⟨s, rfl, h⟩
  | cons e events ih =>
    obtain ⟨t, hlisten, hshows⟩ := h.listen hscreen e
    obtain ⟨u, hrun, hfinal⟩ := ih hshows
    refine ⟨u, ?_, hfinal⟩
    unfold Background.run
    rw [hlisten]
    change (Background.run M background t events).map _ = _
    rw [hrun]
    rfl

/-- The items that are loaded show the icons of the applications. -/
theorem loaded (hscreen : Screen background) (applications : List String) :
    ∃ t, desktopLoadItems M background applications = some t ∧
      t.Shows (Desk.loaded M background applications) := by
  have hunplaced : Background.Shows
      ⟨applications.mapIdx (loadItem M), false, M.point, background, false⟩
      ⟨applications.mapIdx fun i application =>
        ⟨application, (loadItem M i application).bounds, false⟩, none, M.point⟩ := by
    refine ⟨⟨?_, ?_⟩, rfl, rfl⟩
    · rw [List.length_mapIdx, List.length_mapIdx]
    · intro i item icon hitem hicon
      rw [List.getElem?_mapIdx] at hitem hicon
      obtain ⟨application, hget, rfl⟩ := Option.map_eq_some_iff.mp hitem
      obtain ⟨_, hget', rfl⟩ := Option.map_eq_some_iff.mp hicon
      obtain rfl := Option.some.inj (hget.symm.trans hget')
      exact ⟨rfl, rfl, rfl, nofun, itemSized_loadItem M i application⟩
  exact hunplaced.release hscreen

end Shows

end Background

namespace Desk

variable {M : Metrics} {background : Rectangle} {d : Desk}

/-- While nothing is carried, the icons are tidy. -/
def Resting (background : Rectangle) (d : Desk) : Prop :=
  d.icons.length ≤ (ItemOrganizer.ofBackground.cells background).capacity ∧
    (d.carry = none → Tidy background d.shown)

theorem shown_release (background : Rectangle) (d : Desk) :
    (d.release background).shown =
      d.shown.mapIdx ((ItemOrganizer.ofBackground.cells background).placed d.shown) := by
  apply List.ext_getElem?
  intro i
  unfold release
  change (List.map (Icon.shown none) (d.icons.mapIdx _))[i]? = _
  rw [List.getElem?_map, List.getElem?_mapIdx, List.getElem?_mapIdx, shown, List.getElem?_map]
  cases d.icons[i]? with
  | none => rfl
  | some icon => rfl

/-- Icons that nothing carries are shown where they rest, whichever are selected. -/
theorem shown_settled_none (h : d.carry = none) (select : ℕ → Icon → Bool) (start : Point) :
    shown ⟨d.settled select, none, start⟩ = d.shown := by
  apply List.ext_getElem?
  intro i
  unfold shown settled
  rw [h, List.getElem?_map, List.getElem?_mapIdx, List.getElem?_map]
  cases d.icons[i]? with
  | none => rfl
  | some icon => rfl

theorem resting_release (hscreen : Screen background)
    (h : d.icons.length ≤ (ItemOrganizer.ofBackground.cells background).capacity) :
    Resting background (d.release background) := by
  have hlength : d.shown.length ≤ (ItemOrganizer.ofBackground.cells background).capacity := by
    rw [shown, List.length_map]
    exact h
  refine ⟨?_, fun _ => ?_⟩
  · unfold Desk.release
    rw [List.length_mapIdx]
    exact h
  · rw [shown_release]
    exact hscreen.tidy hlength

theorem length_settled (d : Desk) (select : ℕ → Icon → Bool) :
    (d.settled select).length = d.icons.length := List.length_mapIdx

theorem Resting.act (hscreen : Screen background) (h : Resting background d)
    (e : ComponentMouseEvent) : Resting background (d.act M background e).1 := by
  obtain ⟨type, position, button1, clickCount⟩ := e
  obtain ⟨hlength, htidy⟩ := h
  cases type with
  | press =>
    cases button1 with
    | true =>
      change Resting background (press M d position clickCount).1
      unfold press
      cases pressedItem M position d.shown 0 none with
      | some k => exact ⟨(length_settled d _).trans_le hlength, nofun⟩
      | none =>
        refine ⟨(length_settled d _).trans_le hlength, fun hnone => ?_⟩
        have hcarry : d.carry = none := Option.map_eq_none_iff.mp hnone
        dsimp only
        rw [hcarry, Option.map_none, shown_settled_none hcarry]
        exact htidy hcarry
    | false => exact ⟨hlength, htidy⟩
  | drag =>
    cases button1 with
    | true =>
      change Resting background (drag M d position)
      unfold drag
      cases hcarry : d.carry with
      | some way => exact ⟨hlength, nofun⟩
      | none =>
        refine ⟨(length_settled d _).trans_le hlength, fun _ => ?_⟩
        dsimp only
        rw [shown_settled_none hcarry]
        exact htidy hcarry
    | false => exact ⟨hlength, htidy⟩
  | release => exact resting_release hscreen hlength
  | leave => exact resting_release hscreen hlength
  | move => exact ⟨hlength, htidy⟩
  | other => exact ⟨hlength, htidy⟩

theorem Resting.run (hscreen : Screen background) (h : Resting background d)
    (events : List ComponentMouseEvent) : Resting background (d.run M background events).1 := by
  induction events generalizing d with
  | nil => exact h
  | cons e events ih => exact ih (h.act hscreen e)

theorem resting_loaded (hscreen : Screen background) {applications : List String}
    (hcount : applications.length ≤ (ItemOrganizer.ofBackground.cells background).capacity) :
    Resting background (loaded M background applications) := by
  apply resting_release hscreen
  rw [List.length_mapIdx]
  exact hcount

/-- The icons are shown at their places, though some may have been picked. -/
structure Still (places : List Rectangle) (d : Desk) : Prop where
  shown : d.shown = places
  carry : ∀ p q, d.carry = some (p, q) → p = q
  sized : ∀ icon ∈ d.icons, ItemSized icon.rest

/-- An event that does not drag with the left button. -/
def NotDragging (e : ComponentMouseEvent) : Prop := ¬ (e.type = .drag ∧ e.button1 = true)

section Still

variable {places : List Rectangle}

theorem sized_settled (h : ∀ icon ∈ d.icons, ItemSized icon.rest) (select : ℕ → Icon → Bool) :
    ∀ icon ∈ d.settled select, ItemSized icon.rest := by
  intro icon hicon
  unfold settled at hicon
  obtain ⟨i, hlt, rfl⟩ := List.mem_mapIdx.mp hicon
  exact (h _ (List.getElem_mem hlt)).shown d.carry

/-- Icons that have just been picked are shown where they were. -/
theorem shown_settled_some (h : ∀ icon ∈ d.icons, ItemSized icon.rest)
    (select : ℕ → Icon → Bool) (p start : Point) :
    shown ⟨d.settled select, some (p, p), start⟩ = d.shown := by
  apply List.ext_getElem?
  intro i
  unfold shown settled
  rw [List.getElem?_map, List.getElem?_mapIdx, List.getElem?_map]
  cases hicon : d.icons[i]? with
  | none => rfl
  | some icon =>
    have hsized := (h icon (List.mem_of_getElem? hicon)).shown d.carry
    exact congrArg some
      (shown_settled ⟨icon.application, icon.shown d.carry, select i icon⟩ hsized p _)

theorem Still.release (hscreen : Screen background) (htidy : Tidy background places)
    (h : Still places d) : Still places (d.release background) := by
  refine ⟨?_, nofun, fun icon hicon => ?_⟩
  · have hstays := htidy.stays
    rw [hscreen.organize] at hstays
    rw [shown_release, h.shown]
    exact Option.some.inj hstays
  · unfold Desk.release at hicon
    obtain ⟨i, hlt, rfl⟩ := List.mem_mapIdx.mp hicon
    have hsized := (h.sized _ (List.getElem_mem hlt)).shown d.carry
    refine hscreen.itemSized ?_ hsized
    rw [Desk.shown, List.getElem?_map, List.getElem?_eq_getElem hlt]
    rfl

theorem Still.act (hscreen : Screen background) (htidy : Tidy background places)
    (h : Still places d) {e : ComponentMouseEvent} (hnot : NotDragging e) :
    Still places (d.act M background e).1 := by
  obtain ⟨type, position, button1, clickCount⟩ := e
  have hreleased := h.release hscreen htidy
  cases type with
  | press =>
    cases button1 with
    | true =>
      change Still places (press M d position clickCount).1
      unfold press
      cases pressedItem M position d.shown 0 none with
      | some k =>
        refine ⟨(shown_settled_some h.sized _ position d.start).trans h.shown, ?_,
          sized_settled h.sized _⟩
        rintro p q hway
        obtain ⟨rfl, rfl⟩ := Prod.mk.inj (Option.some.inj hway)
        rfl
      | none =>
        refine ⟨?_, ?_, sized_settled h.sized _⟩
        · dsimp only
          cases hcarry : d.carry with
          | none => exact (shown_settled_none hcarry _ position).trans h.shown
          | some way => exact (shown_settled_some h.sized _ position position).trans h.shown
        · rintro p q hway
          obtain ⟨_, _, hway⟩ := Option.map_eq_some_iff.mp hway
          obtain ⟨rfl, rfl⟩ := Prod.mk.inj hway
          rfl
    | false => exact h
  | drag =>
    cases button1 with
    | true => exact absurd ⟨rfl, rfl⟩ hnot
    | false => exact h
  | release => exact hreleased
  | leave => exact hreleased
  | move => exact h
  | other => exact h

theorem Still.run (hscreen : Screen background) (htidy : Tidy background places)
    (h : Still places d) {events : List ComponentMouseEvent}
    (hnot : ∀ e ∈ events, NotDragging e) : Still places (d.run M background events).1 := by
  induction events generalizing d with
  | nil => exact h
  | cons e events ih =>
    exact ih (h.act hscreen htidy (hnot e List.mem_cons_self))
      fun e he => hnot e (List.mem_cons_of_mem _ he)

end Still

end Desk

namespace Background

variable {M : Metrics} {background : Rectangle} {applications : List String}

theorem Shows.sized {s : Background} {d : Desk} (h : s.Shows d) :
    ∀ icon ∈ d.icons, ItemSized icon.rest := by
  intro icon hicon
  obtain ⟨i, hi⟩ := List.mem_iff_getElem?.mp hicon
  rcases h.aligned.getElem? i with ⟨_, hnone⟩ | ⟨item, _, _, hicon', hshows⟩
  · rw [hi] at hnone
    cases hnone
  · rw [hi] at hicon'
    obtain rfl := Option.some.inj hicon'
    exact hshows.sized

/-- Whatever the mouse does, the background shows what the desk says: which items there are,
where each of them is, which are selected, and what is launched. While nothing is dragged,
the items lie in different cells. -/
theorem shows_desk (M : Metrics) (hscreen : Screen background)
    (hcount : applications.length ≤ (ItemOrganizer.ofBackground.cells background).capacity)
    (events : List ComponentMouseEvent) :
    ∃ s t d launched, desktopLoadItems M background applications = some s ∧
      run M background s events = some (t, launched) ∧
      Desk.run M background (Desk.loaded M background applications) events = (d, launched) ∧
      t.items.map (fun item => (item.application, item.bounds, item.selected)) =
        d.icons.map (fun icon => (icon.application, icon.shown d.carry, icon.selected)) ∧
      t.dragItems = d.carry.isSome ∧
      (t.dragItems = false → Tidy background t.itemsBounds) := by
  obtain ⟨s, hload, hshows⟩ := Shows.loaded hscreen applications
  obtain ⟨t, hrun, hfinal⟩ := hshows.run hscreen events
  have hresting : Desk.Resting background
      (Desk.run M background (Desk.loaded M background applications) events).1 :=
    (Desk.resting_loaded hscreen hcount).run hscreen events
  refine ⟨s, t, _, _, hload, hrun, rfl, ?_, hfinal.dragItems, fun hidle => ?_⟩
  · refine hfinal.aligned.map_eq fun item icon h => ?_
    rw [h.application, h.bounds, h.selected]
  · rw [hfinal.itemsBounds]
    apply hresting.2
    rw [hfinal.dragItems] at hidle
    exact Option.isNone_iff_eq_none.mp (Option.isSome_eq_false_iff.mp hidle)

/-- Two items on a screen, of which the lower one is dragged onto the upper one. -/
theorem shows_desk_dragged (M : Metrics) :
    ∃ s t d launched, desktopLoadItems M ⟨0, 0, 1024, 768⟩ ["terminal", "editor"] = some s ∧
      run M ⟨0, 0, 1024, 768⟩ s
        [⟨.press, ⟨30, 140⟩, true, 1⟩, ⟨.drag, ⟨35, 60⟩, true, 0⟩, ⟨.release, ⟨35, 60⟩, true, 0⟩] =
          some (t, launched) ∧
      Desk.run M ⟨0, 0, 1024, 768⟩ (Desk.loaded M ⟨0, 0, 1024, 768⟩ ["terminal", "editor"])
        [⟨.press, ⟨30, 140⟩, true, 1⟩, ⟨.drag, ⟨35, 60⟩, true, 0⟩, ⟨.release, ⟨35, 60⟩, true, 0⟩] =
          (d, launched) ∧
      t.items.map (fun item => (item.application, item.bounds, item.selected)) =
        d.icons.map (fun icon => (icon.application, icon.shown d.carry, icon.selected)) ∧
      t.dragItems = d.carry.isSome ∧
      (t.dragItems = false → Tidy ⟨0, 0, 1024, 768⟩ t.itemsBounds) :=
  shows_desk M ⟨⟨by decide, by decide⟩, by decide, by decide, by decide⟩ (by decide) _

/-- From a state in which nothing is dragged, only dragging moves items: after any clicks, in
any order and over any items, they are where they were. -/
theorem clicks_move_nothing (M : Metrics) (hscreen : Screen background)
    (hcount : applications.length ≤ (ItemOrganizer.ofBackground.cells background).capacity)
    {before after : List ComponentMouseEvent} {s t : Background} {launched : List String}
    (hload : desktopLoadItems M background applications = some s)
    (hbefore : run M background s before = some (t, launched)) (hidle : t.dragItems = false)
    (hnot : ∀ e ∈ after, ¬ (e.type = .drag ∧ e.button1 = true)) :
    ∃ u later, run M background t after = some (u, later) ∧ u.itemsBounds = t.itemsBounds := by
  obtain ⟨s', hload', hshows⟩ := Shows.loaded hscreen applications
  obtain rfl := Option.some.inj (hload.symm.trans hload')
  obtain ⟨t', hrun, hthere⟩ := hshows.run hscreen before
  obtain ⟨rfl, rfl⟩ := Prod.mk.inj (Option.some.inj (hbefore.symm.trans hrun))
  have hresting : Desk.Resting background
      (Desk.run M background (Desk.loaded M background applications) before).1 :=
    (Desk.resting_loaded hscreen hcount).run hscreen before
  have hcarry : (Desk.run M background (Desk.loaded M background applications) before).1.carry =
      none := by
    have hdrag := hthere.dragItems
    rw [hidle] at hdrag
    exact Option.isNone_iff_eq_none.mp (Option.isSome_eq_false_iff.mp hdrag.symm)
  have hstill : Desk.Still t.itemsBounds
      (Desk.run M background (Desk.loaded M background applications) before).1 :=
    ⟨hthere.itemsBounds.symm, by rw [hcarry]; nofun, hthere.sized⟩
  have htidy := hresting.2 hcarry
  rw [← hthere.itemsBounds] at htidy
  obtain ⟨u, hafter, hfinal⟩ := hthere.run hscreen after
  refine ⟨u, _, hafter, ?_⟩
  rw [hfinal.itemsBounds]
  exact (hstill.run hscreen htidy hnot).shown

/-- The two items, once they are loaded. -/
def twoItems : Background :=
  ⟨[⟨"terminal", ⟨0, 0, 100, 100⟩, false, false, ⟨0, 0⟩⟩,
    ⟨"editor", ⟨0, 100, 100, 100⟩, false, false, ⟨0, 0⟩⟩],
    false, ⟨0, 0⟩, ⟨0, 0, 1024, 768⟩, false⟩

/-- A double click on the lower one. -/
theorem clicks_move_nothing_double :
    ∃ u later, run plainMetrics ⟨0, 0, 1024, 768⟩ twoItems
        [⟨.press, ⟨30, 140⟩, true, 2⟩, ⟨.release, ⟨30, 140⟩, true, 2⟩] = some (u, later) ∧
      u.itemsBounds = twoItems.itemsBounds := by
  have hload : desktopLoadItems plainMetrics ⟨0, 0, 1024, 768⟩ ["terminal", "editor"] =
      some twoItems := rfl
  have hbefore : run plainMetrics ⟨0, 0, 1024, 768⟩ twoItems [] = some (twoItems, []) := rfl
  exact clicks_move_nothing plainMetrics
    ⟨⟨by decide, by decide⟩, by decide, by decide, by decide⟩ (by decide) hload hbefore rfl
    (by decide)

end Background

end Heartix.Desktop
