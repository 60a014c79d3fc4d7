import Heartix.Terminal.Gui
import Heartix.Terminal.Protocol

/-!
The window as the screen of the terminal server. The server's operations have a
result on every screen, and those of the window are undefined outside its lines,
so the screen is a window that may have been lost. The server's steps are then
taken as undefined where they lose it. The window writes characters without
their colors, and its size is only reported.
-/

namespace Heartix.Terminal

structure GuiWindow where
  screen : GuiScreen
  colorForeground : ℤ
  columns : ℤ
  rows : ℤ

namespace GuiWindow

def construct (columns rows : ℤ) : GuiWindow where
  screen := GuiScreen.construct
  colorForeground := SC_WHITE
  columns := columns
  rows := rows

def onScreen (f : GuiScreen → Option GuiScreen) (w : GuiWindow) : Option GuiWindow :=
  (f w.screen).map fun screen => { w with screen := screen }

def setColorForeground (c : ℤ) (w : GuiWindow) : GuiWindow :=
  { w with colorForeground := c % 2 ^ 8 }

theorem onScreen_eq_some_iff {f : GuiScreen → Option GuiScreen} {w v : GuiWindow} :
    w.onScreen f = some v ↔ ∃ g, f w.screen = some g ∧ v = { w with screen := g } := by
  unfold onScreen
  rw [Option.map_eq_some_iff]
  exact exists_congr fun g => and_congr_right fun _ => eq_comm

end GuiWindow

def guiScreen : Screen (Option GuiWindow) where
  write c w := w.bind (GuiWindow.onScreen (GuiScreen.write c))
  remove w := w.bind (GuiWindow.onScreen GuiScreen.remove)
  clean w := w.bind (GuiWindow.onScreen GuiScreen.clean)
  flush w := w
  setCursor x y w := w.bind (GuiWindow.onScreen fun g => some (g.setCursor x y))
  getCursorX w := (w.map fun w => w.screen.cursorX).getD 0
  getCursorY w := (w.map fun w => w.screen.cursorY).getD 0
  setCursorVisible _ w := w
  setScrollAreaScreen w := w
  setScrollArea _ _ w := w
  scroll _ w := w
  getColumns w := (w.map GuiWindow.columns).getD 0
  getRows w := (w.map GuiWindow.rows).getD 0
  setColorForeground c w := w.map (GuiWindow.setColorForeground c)
  setColorBackground _ w := w
  getColorForeground w := (w.map GuiWindow.colorForeground).getD 0

def G_TERMINAL_MODE_DEFAULT : ℤ := 0

def G_PID_NONE : ℤ := -1

namespace Server

/-- The server when it has started the shell. -/
def start (w : GuiWindow) : Server GuiWindow where
  screen := w
  inputMode := G_TERMINAL_MODE_DEFAULT
  inputEcho := true
  controlProcess := G_PID_NONE
  shellStdin := []

/-- A server whose window is there. -/
def present (t : Server GuiWindow) : Server (Option GuiWindow) where
  screen := some t.screen
  inputMode := t.inputMode
  inputEcho := t.inputEcho
  controlProcess := t.controlProcess
  shellStdin := t.shellStdin

/-- Undefined where the window has been lost. -/
def kept (t : Server (Option GuiWindow)) : Option (Server GuiWindow) :=
  t.screen.map fun w =>
    { screen := w
      inputMode := t.inputMode
      inputEcho := t.inputEcho
      controlProcess := t.controlProcess
      shellStdin := t.shellStdin }

@[simp] theorem kept_present (t : Server GuiWindow) : t.present.kept = some t := rfl

theorem present_of_kept {t : Server (Option GuiWindow)} {u : Server GuiWindow}
    (h : t.kept = some u) : t = u.present := by
  obtain ⟨w, hw, rfl⟩ := Option.map_eq_some_iff.mp h
  obtain ⟨screen, inputMode, inputEcho, controlProcess, shellStdin⟩ := t
  obtain rfl : screen = some w := hw
  rfl

end Server

/-- One byte of a program's output, on a window. -/
def guiProcessOutput (isStderr : Bool) :
    StreamControlStatus × Server GuiWindow → UInt8 →
      Option (StreamControlStatus × Server GuiWindow)
  | (status, t), c =>
      (terminalProcessOutput guiScreen isStderr (status, t.present) c).bind fun (status, u) =>
        u.kept.map fun u => (status, u)

theorem guiProcessOutput_eq_some_iff {isStderr : Bool} {status status' : StreamControlStatus}
    {t u : Server GuiWindow} {c : UInt8} :
    guiProcessOutput isStderr (status, t) c = some (status', u) ↔
      terminalProcessOutput guiScreen isStderr (status, t.present) c =
        some (status', u.present) := by
  unfold guiProcessOutput
  rw [Option.bind_eq_some_iff]
  constructor
  · rintro ⟨⟨between, v⟩, hstep, hkept⟩
    obtain ⟨v', hv', heq⟩ := Option.map_eq_some_iff.mp hkept
    obtain ⟨rfl, rfl⟩ := Prod.mk.inj heq
    rw [hstep, Server.present_of_kept hv']
  · intro hstep
    exact ⟨_, hstep, rfl⟩

end Heartix.Terminal
