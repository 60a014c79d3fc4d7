import Heartix.Terminal.EchoedCells
import Heartix.Terminal.Input

/-!
The discipline of the default input mode. The buffer of the input routine, the echo on
the window and the cursor are three copies of the line that is being typed. They stay
in step as long as every backspace has an echoed character to remove at the end of the
line; the source does not ask for that.
-/

namespace Heartix.Terminal

open Runs

/-- What a key is to the default mode. -/
inductive Stroke where
  | enter
  | interrupt
  | backspace
  | char (c : UInt8)
  | silent

def stroke (charForKey : KeyInfo → UInt8) (input : KeyInfo) : Stroke :=
  if input.key = "KEY_ENTER" ∧ input.pressed then .enter
  else if input.ctrl ∧ input.key = "KEY_C" ∨ input.key = "KEY_ESC" then .interrupt
  else if input.key = "KEY_BACKSPACE" ∧ input.pressed then .backspace
  else if charForKey input ≠ 0xFF then .char (charForKey input)
  else .silent

def InputState.screen (s : InputState) : GuiScreen := s.server.screen.screen

theorem InputState.interrupt_kept (shellProcess : ℤ) (s : InputState) :
    (s.interrupt shellProcess).buffer = s.buffer ∧
      (s.interrupt shellProcess).server = s.server := by
  unfold InputState.interrupt
  split
  · exact ⟨rfl, rfl⟩
  · exact ⟨rfl, rfl⟩

/-- The server with another screen in its window. -/
def Server.showing (g : GuiScreen) (t : Server GuiWindow) : Server GuiWindow := { t with
  screen := { t.screen with screen := g } }

theorem Server.onWindow_eq (f : GuiScreen → Option GuiScreen) (t : Server GuiWindow) :
    t.onWindow f = (f t.screen.screen).map fun g => t.showing g := by
  unfold Server.onWindow GuiWindow.onScreen
  rw [Option.map_map]
  rfl

/-- A run of the input routine. Beside its state, the run records the characters typed
since the previous Enter that no backspace has cancelled, the screen after that Enter,
the cells echoed since, what was sent at each Enter, what had been typed then, and the
screens around each backspace on an empty buffer. -/
structure LineInput where
  state : InputState
  typed : List UInt8
  before : GuiScreen
  echoed : List (ℕ × ℤ)
  sent : List (List UInt8)
  lines : List (List UInt8)
  idle : List (GuiScreen × GuiScreen)

/-- A window with a document and a cursor in the range of their types. -/
structure ValidWindow where
  window : GuiWindow
  list : List ℕ
  holds : window.screen.document.Holds list
  short : window.screen.Short list
  column : IsInt window.screen.cursorX

namespace LineInput

/-- The input routine when it starts, or when nothing has been typed since an Enter. -/
def start (w : ValidWindow) (controlProcess : ℤ) (shellStdin : List UInt8) : LineInput where
  state :=
    { buffer := []
      server := { Server.start w.window with
        controlProcess := controlProcess
        shellStdin := shellStdin }
      killed := [] }
  typed := []
  before := w.window.screen
  echoed := []
  sent := []
  lines := []
  idle := []

def screen (s : LineInput) : GuiScreen := s.state.screen

def record (s : LineInput) (after : InputState) : Stroke → LineInput
  | .enter => { s with
      state := after
      typed := []
      before := after.screen
      echoed := []
      sent := s.sent ++ [after.server.shellStdin.drop s.state.server.shellStdin.length]
      lines := s.lines ++ [s.typed ++ ['\n'.toUInt8]] }
  | .interrupt => { s with state := after }
  | .backspace => { s with
      state := after
      typed := s.typed.dropLast
      idle := if s.state.buffer = [] then s.idle ++ [(s.screen, after.screen)] else s.idle }
  | .char c => { s with
      state := after
      typed := s.typed ++ [c]
      echoed :=
        if charIsUtf8 c ∧ c ≠ '\n'.toUInt8 then
          s.echoed ++ [(s.screen.row, s.screen.cursorX)]
        else s.echoed }
  | .silent => { s with state := after }

variable (charForKey : KeyInfo → UInt8) (shellProcess : ℤ)

/-- One key. -/
def exec (s : LineInput) (k : Keystroke) : Option LineInput :=
  (s.state.terminalInputRoutine charForKey shellProcess k).map fun after =>
    s.record after (stroke charForKey k.info)

/-- Each Enter has sent what was typed, the screen has changed only in echoed cells,
and no backspace on an empty buffer has changed the lines or the cursor. -/
structure Disciplined (s : LineInput) : Prop where
  sent : s.sent = s.lines
  frame : GuiScreen.AgreeOutside s.echoed s.screen s.before
  idle : ∀ p ∈ s.idle, p.2.document.texts = p.1.document.texts ∧
    p.2.cursorX = p.1.cursorX ∧ p.2.cursorY = p.1.cursorY

/-- A key that keeps the discipline. A backspace needs a character in the buffer and,
unless the line of the cursor is empty, an echoed character at the end of the line to
remove. A character that is shown needs a place where it can be echoed, and is no
newline. An Enter needs a line without a zero, and room for it in the shell's input. -/
def Keeps (s : LineInput) (k : Keystroke) : Prop :=
  match stroke charForKey k.info with
  | .enter =>
      0 ∉ s.state.buffer ∧ s.state.buffer.length + 1 < 2 ^ 31 ∧
        Suffices k.room 0 (s.state.buffer.length + 1)
  | .interrupt => True
  | .backspace => s.state.buffer ≠ [] ∧ s.screen.TakesBack s.echoed
  | .char c =>
      charIsUtf8 c → (s.screen.OnLine fun _ => c ≠ '\n'.toUInt8) ∧ s.screen.Echoes s.echoed
  | .silent => True

variable {charForKey shellProcess} {s t : LineInput} {k : Keystroke}

/-- A round of the input routine in the default mode, with echo. -/
theorem routine_eq {s : InputState} (hmode : s.server.inputMode = G_TERMINAL_MODE_DEFAULT)
    (hecho : s.server.inputEcho = true) :
    s.terminalInputRoutine charForKey shellProcess k =
      match stroke charForKey k.info with
      | .enter => (s.server.onWindow (GuiScreen.write '\n'.toUInt8)).map fun t => { s with
          buffer := []
          server := terminalWriteToShell k.room (s.buffer ++ ['\n'.toUInt8]) t }
      | .interrupt => some (s.interrupt shellProcess)
      | .backspace => (s.server.onWindow GuiScreen.backspace).map fun t => { s with
          buffer := s.buffer.dropLast
          server := t }
      | .char c => (s.server.onWindow (GuiScreen.write c)).map fun t => { s with
          buffer := s.buffer ++ [c]
          server := t }
      | .silent => some s := by
  have hechoed (c : UInt8) (s : InputState) (hs : s.server.inputEcho = true) :
      s.echo c = (s.server.onWindow (GuiScreen.write c)).map fun t => { s with server := t } :=
    if_pos hs
  have hdropLast : (if 0 < s.buffer.length then s.buffer.take (s.buffer.length - 1)
      else s.buffer) = s.buffer.dropLast := by
    rw [List.dropLast_eq_take]
    split
    · rfl
    · rw [List.length_eq_zero_iff.mp (by omega : s.buffer.length = 0)]
      rfl
  unfold InputState.terminalInputRoutine
  rw [if_pos hmode]
  unfold InputState.defaultInput stroke
  dsimp only
  split
  · rw [hechoed _ _ hecho, Option.map_map]
    rfl
  · split
    · rfl
    · split
      · rw [hdropLast]
      · split
        · exact hechoed (charForKey k.info)
            { s with buffer := s.buffer ++ [charForKey k.info] } hecho
        · rfl

/-- What a round of the input routine does to the run, by what it does to the screen. -/
def outcome (shellProcess : ℤ) (k : Keystroke) (s : LineInput) : Stroke → Option LineInput
  | .enter => (s.screen.write '\n'.toUInt8).map fun g => s.record { s.state with
      buffer := []
      server := terminalWriteToShell k.room (s.state.buffer ++ ['\n'.toUInt8])
        (s.state.server.showing g) } .enter
  | .interrupt => some (s.record (s.state.interrupt shellProcess) .interrupt)
  | .backspace => s.screen.backspace.map fun g => s.record { s.state with
      buffer := s.state.buffer.dropLast
      server := s.state.server.showing g } .backspace
  | .char c => (s.screen.write c).map fun g => s.record { s.state with
      buffer := s.state.buffer ++ [c]
      server := s.state.server.showing g } (.char c)
  | .silent => some (s.record s.state .silent)

theorem exec_eq (hmode : s.state.server.inputMode = G_TERMINAL_MODE_DEFAULT)
    (hecho : s.state.server.inputEcho = true) :
    s.exec charForKey shellProcess k =
      s.outcome shellProcess k (stroke charForKey k.info) := by
  unfold exec
  rw [routine_eq hmode hecho]
  cases stroke charForKey k.info with
  | interrupt => rfl
  | silent => rfl
  | enter =>
    dsimp only
    rw [Server.onWindow_eq, Option.map_map, Option.map_map]
    rfl
  | backspace =>
    dsimp only
    rw [Server.onWindow_eq, Option.map_map, Option.map_map]
    rfl
  | char c =>
    dsimp only
    rw [Server.onWindow_eq, Option.map_map, Option.map_map]
    rfl

/-- What a run keeps as long as its keys keep the discipline: the buffer is the line
typed since the last Enter. -/
structure Tracks (s : LineInput) : Prop where
  disciplined : s.Disciplined
  holds : ∃ list, s.screen.document.Holds list ∧ s.screen.Short list
  buffer : s.state.buffer = s.typed
  mode : s.state.server.inputMode = G_TERMINAL_MODE_DEFAULT
  echo : s.state.server.inputEcho = true
  column : IsInt s.screen.cursorX
  marked : s.screen.Marked s.echoed

theorem tracks_start (w : ValidWindow) (controlProcess : ℤ) (shellStdin : List UInt8) :
    (start w controlProcess shellStdin).Tracks where
  disciplined := ⟨rfl, .refl _ _, fun _ hp => nomatch hp⟩
  holds := ⟨w.list, w.holds, w.short⟩
  buffer := rfl
  mode := rfl
  echo := rfl
  column := w.column
  marked := fun _ _ _ hc => nomatch hc

theorem Tracks.exec_eq {x : Stroke} (h : s.Tracks) (hstroke : stroke charForKey k.info = x)
    (shellProcess : ℤ) : s.exec charForKey shellProcess k = s.outcome shellProcess k x := by
  rw [← hstroke]
  exact LineInput.exec_eq h.mode h.echo

variable (charForKey shellProcess) in
/-- The key keeps the run in step where it keeps the discipline, and breaks the
discipline elsewhere. -/
structure Decided (s : LineInput) (k : Keystroke) : Prop where
  keeps : s.Keeps charForKey k → ∃ t, s.exec charForKey shellProcess k = some t ∧ t.Tracks
  breaks : ¬ s.Keeps charForKey k →
    ∀ t, s.exec charForKey shellProcess k = some t → ¬ t.Disciplined

/-- An Enter keeps the discipline where the whole line is written to the shell. -/
theorem Tracks.enter (h : s.Tracks) (hstroke : stroke charForKey k.info = .enter) :
    s.Decided charForKey shellProcess k := by
  obtain ⟨list, hlist, hshort⟩ := h.holds
  obtain ⟨g, list', hg, hlist', hshort', hcolumn, _, _⟩ :=
    GuiScreen.write_newline hlist hshort
  have hkeeps : s.Keeps charForKey k ↔
      written k.room (s.state.buffer ++ ['\n'.toUInt8]) = s.typed ++ ['\n'.toUInt8] := by
    have hnewline : (0 : UInt8) ∉ ['\n'.toUInt8] := by decide
    have hzero : 0 ∉ s.state.buffer ++ ['\n'.toUInt8] ↔ 0 ∉ s.state.buffer := by
      rw [List.mem_append, or_iff_left hnewline]
    unfold Keeps
    rw [hstroke, ← h.buffer, written_eq_iff, hzero, List.length_append]
    rfl
  have hsent : s.sent = s.lines := h.disciplined.sent
  have hexec := h.exec_eq hstroke shellProcess
  simp only [outcome, hg, Option.map_some] at hexec
  refine ⟨fun hkeep => ⟨_, hexec, ?_⟩, fun hnot t ht hdisciplined => ?_⟩
  · refine ⟨⟨?_, .refl _ _, h.disciplined.idle⟩, ⟨list', hlist', hshort'⟩, rfl, h.mode,
      h.echo, ?_, fun _ _ _ hc => nomatch hc⟩
    · change s.sent ++ [(s.state.server.shellStdin ++ written k.room _).drop _] =
        s.lines ++ [s.typed ++ ['\n'.toUInt8]]
      rw [List.drop_left, hkeeps.mp hkeep, hsent]
    · change IsInt g.cursorX
      rw [hcolumn]
      exact ⟨by decide, by decide⟩
  · obtain rfl := Option.some.inj (hexec.symm.trans ht)
    have hafter : s.sent ++ [(s.state.server.shellStdin ++ written k.room _).drop _] =
        s.lines ++ [s.typed ++ ['\n'.toUInt8]] := hdisciplined.sent
    rw [List.drop_left, hsent] at hafter
    exact hnot (hkeeps.mpr (List.singleton_inj.mp (List.append_cancel_left hafter)))

/-- A key that leaves the server as it is. -/
theorem Tracks.of_server {after : InputState} (h : s.Tracks)
    (hbuffer : after.buffer = s.state.buffer) (hserver : after.server = s.state.server) :
    ({ s with state := after } : LineInput).Tracks := by
  obtain ⟨buffer, server, killed⟩ := after
  obtain rfl : buffer = s.state.buffer := hbuffer
  obtain rfl : server = s.state.server := hserver
  exact ⟨⟨h.disciplined.sent, h.disciplined.frame, h.disciplined.idle⟩, h.holds, h.buffer,
    h.mode, h.echo, h.column, h.marked⟩

/-- A character that is not shown is in the buffer only. -/
theorem Tracks.hidden {c : UInt8} (h : s.Tracks) (hstroke : stroke charForKey k.info = .char c)
    (hutf : ¬ charIsUtf8 c) : s.Decided charForKey shellProcess k := by
  have hexec := h.exec_eq hstroke shellProcess
  have hwrite : s.screen.write c = some s.screen := if_neg hutf
  have hechoed : (if charIsUtf8 c ∧ c ≠ '\n'.toUInt8 then
      s.echoed ++ [(s.screen.row, s.screen.cursorX)] else s.echoed) = s.echoed :=
    if_neg fun hboth => hutf hboth.1
  have hkeep : s.Keeps charForKey k := by
    unfold Keeps
    rw [hstroke]
    exact fun hyes => absurd hyes hutf
  simp only [outcome, hwrite, Option.map_some] at hexec
  refine ⟨fun _ => ⟨_, hexec, ?_⟩, fun hnot => absurd hkeep hnot⟩
  unfold record
  dsimp only
  rw [hechoed]
  exact ⟨⟨h.disciplined.sent, h.disciplined.frame, h.disciplined.idle⟩, h.holds,
    congrArg (· ++ [c]) h.buffer, h.mode, h.echo, h.column, h.marked⟩

/-- A newline that is typed as a character splits the line of the cursor. -/
theorem Tracks.newline (h : s.Tracks)
    (hstroke : stroke charForKey k.info = .char '\n'.toUInt8) :
    s.Decided charForKey shellProcess k := by
  obtain ⟨list, hlist, hshort⟩ := h.holds
  obtain ⟨g, list', hg, hlist', hshort', hx, hy, hor⟩ :=
    GuiScreen.write_newline hlist hshort
  have hexec := h.exec_eq hstroke shellProcess
  simp only [outcome, hg, Option.map_some] at hexec
  have hkeeps : s.Keeps charForKey k ↔ Document.addressed list s.screen.cursorY = none := by
    unfold Keeps
    rw [hstroke]
    cases haddressed : Document.addressed list s.screen.cursorY with
    | none => exact iff_of_true (fun _ => ⟨GuiScreen.onLine_of_none hlist haddressed _,
        GuiScreen.onLine_of_none hlist haddressed _⟩) rfl
    | some a =>
      dsimp only
      rw [GuiScreen.onLine_of_some hlist haddressed]
      exact iff_of_false (fun hchar => (hchar rfl).1 rfl) (Option.some_ne_none a)
  refine ⟨fun hkeep => ⟨_, hexec, ?_⟩, fun hnot t ht hdisciplined => ?_⟩
  · have hnone := hkeeps.mp hkeep
    have hdocument : g.document = s.screen.document := by
      rcases hor with ⟨_, hdocument⟩ | ⟨⟨a, ha⟩, _⟩
      · exact hdocument
      · rw [hnone] at ha
        cases ha
    refine ⟨⟨h.disciplined.sent, ?_, h.disciplined.idle⟩, ⟨list', hlist', hshort'⟩,
      congrArg (· ++ ['\n'.toUInt8]) h.buffer, h.mode, h.echo, ?_, ?_⟩
    · exact (GuiScreen.AgreeOutside.of_document hdocument).trans h.disciplined.frame
    · change IsInt g.cursorX
      rw [hx]
      exact ⟨by decide, by decide⟩
    · exact GuiScreen.onLine_of_none (g := g) (hdocument ▸ hlist) (hy ▸ hnone) _
  · obtain rfl := Option.some.inj (hexec.symm.trans ht)
    rcases hor with ⟨hnone, _⟩ | ⟨_, hlines⟩
    · exact hnot (hkeeps.mpr hnone)
    · have hafter : g.document.texts.length = s.before.document.texts.length :=
        hdisciplined.frame.lines
      have hbefore := h.disciplined.frame.lines
      omega

/-- A character that is shown at the cursor. -/
theorem Tracks.shown {c : UInt8} (h : s.Tracks) (hstroke : stroke charForKey k.info = .char c)
    (hutf : charIsUtf8 c) (hc : c ≠ '\n'.toUInt8) :
    s.Decided charForKey shellProcess k := by
  obtain ⟨list, hlist, hshort⟩ := h.holds
  have hexec := h.exec_eq hstroke shellProcess
  simp only [outcome] at hexec
  have hechoed : (if charIsUtf8 c ∧ c ≠ '\n'.toUInt8 then
      s.echoed ++ [(s.screen.row, s.screen.cursorX)] else s.echoed) =
      s.echoed ++ [(s.screen.row, s.screen.cursorX)] := if_pos ⟨hutf, hc⟩
  have hsub : ∀ p ∈ s.echoed, p ∈ s.echoed ++ [(s.screen.row, s.screen.cursorX)] :=
    fun p hp => List.mem_append_left _ hp
  have hkeeps : s.Keeps charForKey k ↔ s.screen.Echoes s.echoed := by
    unfold Keeps
    rw [hstroke]
    exact ⟨fun hkeep => (hkeep hutf).2, fun hechoes _ => ⟨fun _ _ => hc, hechoes⟩⟩
  refine ⟨fun hkeep => ?_, fun hnot t ht hdisciplined => ?_⟩
  · have hechoes := hkeeps.mp hkeep
    have hinside : s.screen.Inside (.write c) := fun _ _ a ha =>
      ⟨(hechoes a ha).1, Or.inl (hechoes a ha).2.1⟩
    obtain ⟨g, hg⟩ :=
      Option.isSome_iff_exists.mp ((GuiScreen.write_isSome_iff hlist c).mpr hinside)
    obtain ⟨_, hx, _, _⟩ := GuiScreen.write_char hlist hutf hc hg
    obtain ⟨hlist', hshort', hmarked, hagree⟩ :=
      GuiScreen.write_echoed hlist hshort h.marked hutf hc hg hechoes
    rw [hg, Option.map_some] at hexec
    refine ⟨_, hexec, ?_⟩
    unfold record
    dsimp only
    rw [hechoed]
    exact ⟨⟨h.disciplined.sent, hagree.trans (h.disciplined.frame.mono hsub),
      h.disciplined.idle⟩, ⟨list, hlist', hshort'⟩, congrArg (· ++ [c]) h.buffer, h.mode,
      h.echo, hx ▸ isInt_bmod _, hmarked⟩
  · obtain ⟨g, hg, rfl⟩ := Option.map_eq_some_iff.mp (hexec.symm.trans ht)
    have hframe := hdisciplined.frame
    unfold record at hframe
    dsimp only at hframe
    rw [hechoed] at hframe
    exact GuiScreen.write_unechoed hlist hshort hutf hc hg (mt hkeeps.mpr hnot)
      (hframe.trans (h.disciplined.frame.mono hsub).symm)

/-- A backspace moves the cursor, so none may be pressed on an empty buffer. -/
theorem Tracks.backspace (h : s.Tracks) (hstroke : stroke charForKey k.info = .backspace) :
    s.Decided charForKey shellProcess k := by
  obtain ⟨list, hlist, hshort⟩ := h.holds
  have hexec := h.exec_eq hstroke shellProcess
  simp only [outcome] at hexec
  have hkeeps : s.Keeps charForKey k ↔
      s.state.buffer ≠ [] ∧ s.screen.TakesBack s.echoed := by
    unfold Keeps
    rw [hstroke]
  refine ⟨fun hkeep => ?_, fun hnot t ht hdisciplined => ?_⟩
  · obtain ⟨hbuffer, htakes⟩ := hkeeps.mp hkeep
    obtain ⟨g, hg, hlist', hshort', hmarked, hagree⟩ :=
      GuiScreen.backspace_echoed hlist hshort h.column h.marked htakes
    obtain ⟨_, hx, _, _⟩ := GuiScreen.backspace_char hlist hg
    rw [hg, Option.map_some] at hexec
    refine ⟨_, hexec, ?_⟩
    unfold record
    dsimp only
    rw [if_neg hbuffer]
    exact ⟨⟨h.disciplined.sent, hagree.trans h.disciplined.frame, h.disciplined.idle⟩,
      ⟨list, hlist', hshort'⟩, congrArg List.dropLast h.buffer, h.mode, h.echo,
      hx ▸ isInt_bmod _, hmarked⟩
  · obtain ⟨g, hg, rfl⟩ := Option.map_eq_some_iff.mp (hexec.symm.trans ht)
    by_cases hbuffer : s.state.buffer = []
    · obtain ⟨_, hx, _, _⟩ := GuiScreen.backspace_char hlist hg
      have hidle := hdisciplined.idle
      unfold record at hidle
      dsimp only at hidle
      rw [if_pos hbuffer] at hidle
      have hsame : g.cursorX = s.screen.cursorX :=
        (hidle _ (List.mem_append_right _ (List.mem_singleton_self _))).2.1
      have hcolumn := h.column
      unfold IsInt at hcolumn
      rw [hsame] at hx
      rw [Int.bmod_def] at hx
      omega
    · exact GuiScreen.backspace_unechoed hlist h.column hshort h.marked hg
        (fun htakes => hnot (hkeeps.mpr ⟨hbuffer, htakes⟩))
        (hdisciplined.frame.trans h.disciplined.frame.symm)

theorem Tracks.decided (h : s.Tracks) (k : Keystroke) : s.Decided charForKey shellProcess k := by
  cases hstroke : stroke charForKey k.info with
  | enter => exact h.enter hstroke
  | backspace => exact h.backspace hstroke
  | char c =>
    by_cases hutf : charIsUtf8 c
    · by_cases hc : c = '\n'.toUInt8
      · exact h.newline (hc ▸ hstroke)
      · exact h.shown hstroke hutf hc
    · exact h.hidden hstroke hutf
  | interrupt =>
    have hexec := h.exec_eq hstroke shellProcess
    have hkeep : s.Keeps charForKey k := by
      unfold Keeps
      rw [hstroke]
      trivial
    obtain ⟨hbuffer, hserver⟩ := s.state.interrupt_kept shellProcess
    exact ⟨fun _ => ⟨_, hexec, h.of_server hbuffer hserver⟩, fun hnot => absurd hkeep hnot⟩
  | silent =>
    have hexec := h.exec_eq hstroke shellProcess
    have hkeep : s.Keeps charForKey k := by
      unfold Keeps
      rw [hstroke]
      trivial
    exact ⟨fun _ => ⟨_, hexec, h.of_server rfl rfl⟩, fun hnot => absurd hkeep hnot⟩

/-- The discipline holds along exactly the runs whose keys all keep it. -/
theorem discipline_iff (charForKey : KeyInfo → UInt8) (shellProcess : ℤ) (w : ValidWindow)
    (controlProcess : ℤ) (shellStdin : List UInt8) (keys : List Keystroke) :
    Along (exec charForKey shellProcess) Disciplined keys (start w controlProcess shellStdin) ↔
      Guarded (exec charForKey shellProcess) (Keeps charForKey) keys
        (start w controlProcess shellStdin) :=
  along_iff_guarded (I := Tracks) (fun _ h => h.disciplined)
    (fun _ k h => (h.decided k).keeps) (fun _ k h => (h.decided k).breaks) keys
    (tracks_start w controlProcess shellStdin)

end LineInput

/-- The window when the terminal starts. -/
def ValidWindow.construct (columns rows : ℤ) : ValidWindow where
  window := GuiWindow.construct columns rows
  list := [1]
  holds := Document.construct_holds
  short := fun b hb => by
    rw [List.mem_singleton.mp hb]
    exact Nat.two_pow_pos 31
  column := isInt_bmod 0

/-- A backspace as the first key moves the cursor out of the line. -/
theorem LineInput.discipline_backspace :
    ¬ ∀ (charForKey : KeyInfo → UInt8) (shellProcess : ℤ) (w : ValidWindow)
      (controlProcess : ℤ) (shellStdin : List UInt8) (keys : List Keystroke),
      Along (exec charForKey shellProcess) Disciplined keys
        (start w controlProcess shellStdin) := by
  intro h
  let k : Keystroke := ⟨⟨"KEY_BACKSPACE", true, false, false, false⟩, fun _ => 1⟩
  have hstroke : stroke (fun _ => 0xFF) k.info = .backspace := rfl
  obtain ⟨_, t, ht, hdisciplined⟩ := h (fun _ => 0xFF) 1 (.construct 80 25) G_PID_NONE [] [k]
  refine ((tracks_start _ _ _).backspace hstroke).breaks ?_ t ht hdisciplined.head
  unfold Keeps
  rw [hstroke]
  exact fun hkeep => hkeep.1 rfl

end Heartix.Terminal
