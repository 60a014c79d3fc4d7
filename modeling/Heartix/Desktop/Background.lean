import Heartix.Desktop.Placement

/-!
The mouse on the background of the desktop. A press with the left button selects the
item under the pointer and remembers, for every selected item, how far its corner is
from the pointer. Dragging puts the selected items there again, and a release hands all
items to the organizer. A press beside the items begins a band that selects what it
intersects.
-/

namespace Heartix.Desktop

structure Point where
  x : ℤ
  y : ℤ
  deriving DecidableEq, Repr

/-- The difference of two points, in `int` arithmetic. -/
def Point.minus (p q : Point) : Point :=
  ⟨(p.x - q.x).bmod (2 ^ 32), (p.y - q.y).bmod (2 ^ 32)⟩

def Rectangle.getStart (r : Rectangle) : Point := ⟨r.x, r.y⟩

/-- What the toolkit says about rectangles, and the point it constructs by default. -/
structure Metrics where
  point : Point
  contains : Rectangle → Point → Bool
  intersects : Rectangle → Rectangle → Bool
  asNormalized : Rectangle → Rectangle

structure Item where
  application : String
  bounds : Rectangle
  hover : Bool
  selected : Bool
  dragOffset : Point

inductive MouseEventType
  | move
  | press
  | drag
  | release
  | leave
  | other
  deriving DecidableEq, Repr

structure ComponentMouseEvent where
  type : MouseEventType
  position : Point
  button1 : Bool
  clickCount : ℤ

structure Background where
  items : List Item
  dragItems : Bool
  selectionStart : Point
  selectionBounds : Rectangle
  selectionVisible : Bool

/-- The last item that contains the position. -/
def pressedItem (M : Metrics) (position : Point) : List Rectangle → ℕ → Option ℕ → Option ℕ
  | [], _, pressed => pressed
  | itemBounds :: itemsBounds, i, pressed =>
      pressedItem M position itemsBounds (i + 1)
        (if M.contains itemBounds position then some i else pressed)

namespace Background

def itemsBounds (s : Background) : List Rectangle := s.items.map Item.bounds

def onMouseMove (M : Metrics) (s : Background) (position : Point) : Background :=
  { s with items := s.items.map fun item =>
      { item with hover := M.contains item.bounds position } }

def unselectAll (items : List Item) : List Item :=
  items.map fun item => { item with selected := false }

/-- The new state and the applications that are launched. -/
def onMouseLeftPress (M : Metrics) (s : Background) (position : Point) (clickCount : ℤ) :
    Background × List String :=
  match pressedItem M position s.itemsBounds 0 none with
  | some k =>
      let pressed := s.items[k]?
      let launched :=
        if clickCount = 2 then pressed.toList.map Item.application else []
      let items :=
        if pressed.all Item.selected then s.items
        else (unselectAll s.items).modify k fun item => { item with selected := true }
      let items := items.map fun item =>
        if item.selected then { item with dragOffset := position.minus item.bounds.getStart }
        else item
      ({ s with items := items, dragItems := true }, launched)
  | none => ({ s with items := unselectAll s.items, selectionStart := position }, [])

/-- The rectangle between the start of the selection and the pointer. -/
def band (M : Metrics) (start position : Point) : Rectangle :=
  let size := position.minus start
  M.asNormalized ⟨start.x, start.y, size.x, size.y⟩

def onMouseDrag (M : Metrics) (s : Background) (position : Point) : Background :=
  if s.dragItems then
    { s with items := s.items.map fun item =>
        if item.selected then
          let point := position.minus item.dragOffset
          { item with bounds := ⟨point.x, point.y, 100, 100⟩ }
        else item }
  else
    let boundsNorm := band M s.selectionStart position
    { s with
      selectionBounds := boundsNorm
      selectionVisible := true
      items := s.items.map fun item =>
        { item with selected := M.intersects boundsNorm item.bounds } }

/-- Undefined where the organizer is. -/
def organize (background : Rectangle) (s : Background) : Option Background :=
  (ItemOrganizer.ofBackground.organize s.itemsBounds background).map fun allBounds =>
    { s with
      items := s.items.zipWith (fun item bounds => { item with bounds := bounds }) allBounds }

def onMouseRelease (background : Rectangle) (s : Background) : Option Background :=
  organize background { s with dragItems := false, selectionVisible := false }

/-- The mouse listener. -/
def listen (M : Metrics) (background : Rectangle) (s : Background) (e : ComponentMouseEvent) :
    Option (Background × List String) :=
  match e.type with
  | .move => some (onMouseMove M s e.position, [])
  | .press => if e.button1 then some (onMouseLeftPress M s e.position e.clickCount)
      else some (s, [])
  | .drag => some (if e.button1 then onMouseDrag M s e.position else s, [])
  | .release => (onMouseRelease background s).map fun s => (s, [])
  | .leave => (onMouseRelease background s).map fun s => (s, [])
  | .other => some (s, [])

/-- The state after some events, and what has been launched meanwhile. -/
def run (M : Metrics) (background : Rectangle) (s : Background) :
    List ComponentMouseEvent → Option (Background × List String)
  | [] => some (s, [])
  | e :: events =>
      (listen M background s e).bind fun (s, launched) =>
        (run M background s events).map fun (s, later) => (s, launched ++ later)

/-- The item that is loaded for a file of the desktop's directory. -/
def loadItem (M : Metrics) (next : ℕ) (application : String) : Item where
  application := application
  bounds := ⟨0, ((next * 100 : ℕ) : ℤ).bmod (2 ^ 32), 100, 100⟩
  hover := false
  selected := false
  dragOffset := M.point

def desktopLoadItems (M : Metrics) (background : Rectangle) (applications : List String) :
    Option Background :=
  organize background ⟨applications.mapIdx (loadItem M), false, M.point, background, false⟩

end Background

end Heartix.Desktop
