import Heartix.Gsh.LineEditor

/-!
What the calls of the line editor do on the framebuffer screen. Between two
calls the decoder is ready and the server has no answer left over. A call then
changes the screen as its operation says, and nothing else.
-/

namespace Heartix.Gsh

open Terminal FbScreen

/-- A byte that the server writes to the screen as one character. -/
def IsText (c : UInt8) : Prop :=
  c ≠ '\n'.toUInt8 ∧ c ≠ '\r'.toUInt8 ∧ c ≠ '\t'.toUInt8 ∧ c ≠ G_TERMKEY_ESC

namespace Session

def screen (s : Session) : FbScreen := s.server.screen

/-- Nothing is in progress between the shell and the server. The resolution of a
video mode has 16 bits. -/
structure Idle (s : Session) : Prop where
  ready : s.status.Ready
  onScreen : s.screen.OnScreen
  resX : s.screen.resX < 2 ^ 16
  resY : s.screen.resY < 2 ^ 16
  answered : s.server.shellStdin = []
  sound : s.client.Sound
  unread : ∃ keys : List Key, s.client.stdin = keys.flatMap Key.encode

/-- Line and caret are the same. -/
structure SameLine (s t : Session) : Prop where
  line : t.line = s.line
  caret : t.caret = s.caret

variable {s t u : Session}

theorem SameLine.trans (h : SameLine s t) (h' : SameLine t u) : SameLine s u :=
  ⟨h'.line.trans h.line, h'.caret.trans h.caret⟩

/-- A call of the client library performs its operation on the screen. -/
theorem Idle.command (h : s.Idle) (op : Operation) (hop : op.isCommand)
    (hadm : op.Admissible) :
    ∃ status, status.Ready ∧ s.command op = some { s with
      status := status
      server := op.perform fbScreen false s.server } := by
  obtain ⟨hstatus, hcount, hparameters⟩ := h.ready
  have hrest : s.status.AtRest := ⟨hstatus, hcount⟩
  obtain ⟨status, hfold, hready⟩ := foldlM_command fbScreen false s.server hop hadm hrest
  rw [hparameters, performRead_of_undisturbed fbScreen false hadm (undisturbed_zero op)] at hfold
  refine ⟨status, hready, ?_⟩
  unfold Session.command print ghshProcessOutput
  rw [hfold]
  rfl

/-- A step of the session that changes the screen and leaves the line. -/
structure Draws (s t : Session) : Prop where
  idle : t.Idle
  same : SameLine s t

theorem Idle.draws (h : s.Idle) {status : StreamControlStatus} {server : Server FbScreen}
    (hready : status.Ready) (hsize : SameSize s.screen server.screen)
    (honScreen : server.screen.OnScreen) (hanswered : server.shellStdin = []) :
    Draws s { s with
      status := status
      server := server } := by
  refine ⟨⟨hready, honScreen, ?_, ?_, hanswered, h.sound, h.unread⟩, ⟨rfl, rfl⟩⟩
  · change server.screen.resX < 2 ^ 16
    rw [hsize.resX]
    exact h.resX
  · change server.screen.resY < 2 ^ 16
    rw [hsize.resY]
    exact h.resY

theorem foldlM_print {text : List UInt8} (htext : ∀ c ∈ text, IsText c)
    {status : StreamControlStatus} (hstatus : status.status = .text) (t : Server FbScreen) :
    text.foldlM (processOutput fbScreen false) (status, t) =
      some (status, t.onScreen fun u => text.foldl (fun u c => u.write c) u) := by
  induction text generalizing t with
  | nil => rfl
  | cons c text ih =>
    obtain ⟨_, hcr, htab, hesc⟩ := htext c List.mem_cons_self
    have hstep : processOutput fbScreen false (status, t) c =
        some (status, t.onScreen fun u => u.write c) := by
      unfold processOutput processText
      dsimp only
      rw [hstatus]
      dsimp only
      rw [if_neg hcr, if_neg htab, if_neg hesc]
      rfl
    rw [List.foldlM_cons, hstep, Option.bind_eq_bind, Option.bind_some,
      ih (fun d hd => htext d (List.mem_cons_of_mem c hd))]
    rfl

/-- The server after a text. -/
def printed (text : List UInt8) (server : Server FbScreen) : Server FbScreen :=
  server.onScreen fun u => text.foldl (fun u c => u.write c) u

theorem Idle.printed (h : s.Idle) {text : List UInt8} (htext : ∀ c ∈ text, IsText c)
    {status : StreamControlStatus} (hready : status.Ready) :
    Draws s { s with
        status := status
        server := Session.printed text s.server } ∧
      Written s.screen (Session.printed text s.server).screen text := by
  have hwritten := h.onScreen.writeText (fun c hc => (htext c hc).1)
  exact ⟨h.draws hready hwritten.size hwritten.onScreen h.answered, hwritten⟩

theorem Idle.print (h : s.Idle) {text : List UInt8} (htext : ∀ c ∈ text, IsText c) :
    ∃ t, s.print text = some t ∧ Draws s t ∧ Written s.screen t.screen text := by
  obtain ⟨hdraws, hwritten⟩ := h.printed htext h.ready
  refine ⟨_, ?_, hdraws, hwritten⟩
  unfold Session.print ghshProcessOutput
  rw [foldlM_print htext h.ready.1]
  rfl

theorem Idle.setCursor (h : s.Idle) {x y : ℤ} (hx : Parameter x) (hy : Parameter y) :
    ∃ t, s.command (.setCursor x y) = some t ∧ Draws s t ∧
      Moved s.screen t.screen (s.screen.number x y) := by
  obtain ⟨status, hready, hcommand⟩ := h.command (.setCursor x y) rfl ⟨hx, hy⟩
  have hmoved := h.onScreen.setCursor hx.1 hy.1
  exact ⟨_, hcommand, h.draws hready hmoved.size hmoved.onScreen h.answered, hmoved⟩

/-- The size of the screen in cells. -/
theorem Idle.bounds (h : s.Idle) : s.screen.columns < 2 ^ 13 ∧ s.screen.rows < 2 ^ 12 := by
  have hwidth := h.onScreen.width
  have hheight := h.onScreen.height
  have hresX := h.resX
  have hresY := h.resY
  unfold bitmapFontCharWidth at hwidth
  unfold bitmapFontCharHeight at hheight
  omega

/-- The column of a place near the cursor is a parameter. -/
theorem Idle.parameter_column (h : s.Idle) {n : ℤ} (hn : 0 ≤ s.screen.cursorX + n)
    (hn' : n < 2 ^ 26) : Parameter (s.screen.cursorX + n) := by
  obtain ⟨hcolumns, _⟩ := h.bounds
  have hlt := h.onScreen.cursorX_lt
  exact ⟨hn, by omega⟩

theorem Idle.parameter_row (h : s.Idle) : Parameter s.screen.cursorY := by
  obtain ⟨_, hrows⟩ := h.bounds
  have hlt := h.onScreen.cursorY_lt
  exact ⟨h.onScreen.cursorY_nonneg, by omega⟩

/-- A small number stays as it is in `int` arithmetic. -/
theorem bmod_eq {n : ℤ} (h : -2 ^ 31 ≤ n) (h' : n < 2 ^ 31) : n.bmod (2 ^ 32) = n :=
  Int.bmod_eq_of_le (by omega) (by omega)

theorem Idle.moveCursor (h : s.Idle) {dx : ℤ} (hdx : -2 ^ 31 ≤ dx) (hdx' : dx ≤ 1) :
    ∃ u, fbScreen.moveCursor dx 0 s.screen = u ∧
      Moved s.screen u (s.screen.number (max 0 (s.screen.cursorX + dx)) s.screen.cursorY) := by
  obtain ⟨hcolumns, hrows⟩ := h.bounds
  have hx := h.onScreen.cursorX_nonneg
  have hx' := h.onScreen.cursorX_lt
  have hy := h.onScreen.cursorY_nonneg
  have hy' := h.onScreen.cursorY_lt
  refine ⟨_, rfl, ?_⟩
  change Moved s.screen (s.screen.setCursor ((s.screen.cursorX + dx).bmod (2 ^ 32))
    ((s.screen.cursorY + 0).bmod (2 ^ 32))) _
  rw [Int.add_zero, bmod_eq (by omega) (by omega), bmod_eq (by omega) (by omega)]
  by_cases hfront : s.screen.cursorX + dx < 0
  · rw [setCursor_of_neg hfront, max_eq_left (Int.le_of_lt hfront)]
    exact h.onScreen.setCursor (Int.le_refl 0) hy
  · rw [max_eq_right (Int.not_lt.mp hfront)]
    exact h.onScreen.setCursor (Int.not_lt.mp hfront) hy

/-- The cursor is at most in the first column. -/
theorem Idle.moveCursorBack (h : s.Idle) {n : ℤ} (hn : Parameter n) :
    ∃ t, s.command (.moveCursorBack n) = some t ∧ Draws s t ∧
      Moved s.screen t.screen
        (s.screen.number (max 0 (s.screen.cursorX - n)) s.screen.cursorY) := by
  obtain ⟨status, hready, hcommand⟩ := h.command (.moveCursorBack n) rfl hn
  obtain ⟨hnonneg, hlt⟩ := hn
  obtain ⟨u, hu, hmoved⟩ := h.moveCursor (show -2 ^ 31 ≤ -n by omega) (by omega)
  subst hu
  exact ⟨_, hcommand, h.draws hready hmoved.size hmoved.onScreen h.answered, hmoved⟩

theorem Idle.moveCursorForward (h : s.Idle) :
    ∃ t, s.command (.moveCursorForward 1) = some t ∧ Draws s t ∧
      Moved s.screen t.screen (s.screen.number (s.screen.cursorX + 1) s.screen.cursorY) := by
  obtain ⟨status, hready, hcommand⟩ := h.command (.moveCursorForward 1) rfl parameter_one
  obtain ⟨u, hu, hmoved⟩ := h.moveCursor (show -2 ^ 31 ≤ (1 : ℤ) by omega) (by omega)
  have hx := h.onScreen.cursorX_nonneg
  rw [max_eq_right (by omega)] at hmoved
  subst hu
  exact ⟨_, hcommand, h.draws hready hmoved.size hmoved.onScreen h.answered, hmoved⟩

theorem Idle.remove (h : s.Idle) :
    ∃ t, s.command .remove = some t ∧ Draws s t ∧ t.screen = s.screen.remove := by
  obtain ⟨status, hready, hcommand⟩ := h.command .remove rfl trivial
  obtain ⟨hsize, honScreen, _⟩ := h.onScreen.remove
  exact ⟨_, hcommand, h.draws hready hsize honScreen h.answered, rfl⟩

/-- The sign of a negative column ends the sequence, and the rest is text. -/
theorem foldlM_setCursor_neg_one {status : StreamControlStatus} (hrest : status.AtRest) {y : ℤ}
    (hy : 0 ≤ y) (t : Server FbScreen) :
    ∃ status', status'.Ready ∧
      (Operation.setCursor (-1) y).encode.foldlM (processOutput fbScreen false) (status, t) =
        ['1'.toUInt8, 'f'.toUInt8].foldlM (processOutput fbScreen false) (status', t) := by
  have hencode : (Operation.setCursor (-1) y).encode =
      G_TERMKEY_ESC :: '['.toUInt8 :: (Decimal.signedText y ++
        ';'.toUInt8 :: '-'.toUInt8 :: ['1'.toUInt8, 'f'.toUInt8]) := rfl
  have hmax : 0 < TERMINAL_STREAM_CONTROL_MAX_PARAMETERS := by decide
  let status₁ : StreamControlStatus := { status with
    status := .withinVt100
    parameterCount := (0 + 1 + 1 : ℤ).bmod (2 ^ 32)
    parameters := status.parameters.set 0 (carried status.parameters[0] y) }
  have hfinish : ∃ status', processFinish fbScreen status₁ t '-'.toUInt8 = some (status', t) ∧
      status'.Ready := ready_of_vt100 rfl rfl
  obtain ⟨status', hfinish, hready⟩ := hfinish
  refine ⟨status', hready, ?_⟩
  rw [hencode, foldlM_opening .vt100 hrest, List.foldlM_append,
    foldlM_signedText hy (by exact Or.inl rfl) hmax (by exact Or.inr ⟨hrest.2, rfl⟩),
    Option.bind_eq_bind, Option.bind_some, List.foldlM_cons,
    processOutput_separator (by exact Or.inl rfl), Option.bind_eq_bind, Option.bind_some,
    List.foldlM_cons, processOutput_finish (by exact Or.inl rfl) (by decide) (by decide)]
  change (processFinish fbScreen status₁ t '-'.toUInt8).bind _ = _
  rw [hfinish]
  rfl

theorem Idle.setCursor_neg_one (h : s.Idle) {y : ℤ} (hy : 0 ≤ y) :
    ∃ t, s.command (.setCursor (-1) y) = some t ∧ Draws s t ∧
      Written s.screen t.screen ['1'.toUInt8, 'f'.toUInt8] := by
  have htext : ∀ c ∈ ['1'.toUInt8, 'f'.toUInt8], IsText c := by
    simp only [List.mem_cons, List.not_mem_nil, or_false, forall_eq_or_imp, forall_eq]
    unfold IsText
    decide
  obtain ⟨status, hready, hfold⟩ :=
    foldlM_setCursor_neg_one ⟨h.ready.1, h.ready.2.1⟩ hy s.server
  obtain ⟨hdraws, hwritten⟩ := h.printed htext hready
  refine ⟨_, ?_, hdraws, hwritten⟩
  unfold Session.command Session.print ghshProcessOutput
  rw [hfold, foldlM_print htext hready.1]
  rfl

/-- The position is reported, whatever is typed in the meantime. -/
theorem Idle.getCursor (h : s.Idle) (typed : List Key) :
    ∃ t, s.getCursor typed = some ((s.screen.cursorY, s.screen.cursorX), t) ∧
      Draws s t ∧ t.screen = s.screen := by
  obtain ⟨hstatus, hcount, hparameters⟩ := h.ready
  have hx := h.onScreen.cursorX_nonneg
  have hx' := h.onScreen.cursorX_lt
  have hy := h.onScreen.cursorY_nonneg
  have hy' := h.onScreen.cursorY_lt
  obtain ⟨hcolumns, hrows⟩ := h.bounds
  obtain ⟨x, hnatX⟩ := Int.eq_ofNat_of_zero_le hx
  obtain ⟨y, hnatY⟩ := Int.eq_ofNat_of_zero_le hy
  have hrequest : terminalCommand "[6n" [] =
      G_TERMKEY_ESC :: '['.toUInt8 :: (Decimal.signedText 6 ++ ['n'.toUInt8]) := by
    decide +kernel
  let queried : StreamControlStatus := { s.status with
    status := .withinVt100
    parameterCount := 1
    parameters := s.status.parameters.set 0 (carried s.status.parameters[0] 6) }
  have hsix : queried.parameters[0] = 6 := by
    change (s.status.parameters.set 0 (carried s.status.parameters[0] 6))[0] = 6
    rw [hparameters]
    decide +kernel
  let answer := response '[' s.screen.cursorY s.screen.cursorX 'R'
  have hanswer : processSequenceVt100 fbScreen { queried with controlCharacter := 'n'.toUInt8 }
      s.server = some { s.server with shellStdin := answer } := by
    have hstdin : s.server.writeToShell answer = { s.server with shellStdin := answer } := by
      unfold Server.writeToShell
      rw [h.answered, List.nil_append]
    rw [← hstdin]
    exact if_pos hsix
  have hfinish : ∃ status, processFinish fbScreen queried s.server 'n'.toUInt8 =
      some (status, { s.server with shellStdin := answer }) ∧ status.Ready :=
    ready_of_vt100 rfl hanswer
  obtain ⟨status, hfinish, hready⟩ := hfinish
  have hprint : s.print (terminalCommand "[6n" []) = some { s with
      status := status
      server := { s.server with shellStdin := answer } } := by
    unfold Session.print ghshProcessOutput
    rw [hrequest, decode_one (by decide) .vt100 ⟨hstatus, hcount⟩ (by decide) (by decide)]
    rw [hfinish]
    rfl
  obtain ⟨keys, hkeys⟩ := h.unread
  have hstdin : ((s.client.arrive typed).receive answer).stdin =
      (keys ++ typed).flatMap Key.encode ++ response '[' y x 'R' := by
    change s.client.stdin ++ typed.flatMap Key.encode ++ answer = _
    rw [hkeys, List.flatMap_append, ← hnatY, ← hnatX]
  obtain ⟨r, client, hquery, hempty, _, _, hsound, _, hvalue⟩ := Client.query_spec
    (s := (s.client.arrive typed).receive answer) h.sound "[6n" '[' 'R' hstdin
    ⟨by decide, by decide⟩ ⟨by decide, by decide, by decide⟩
  have hr : r = (s.screen.cursorY, s.screen.cursorX) := by
    rw [hvalue (by omega) (by omega) (by decide), hnatX, hnatY]
  refine ⟨{ s with
    status := status
    server := { s.server with shellStdin := [] }
    client := client }, ?_, ⟨⟨hready, h.onScreen, h.resX, h.resY, rfl, hsound, [], hempty⟩,
      rfl, rfl⟩, rfl⟩
  unfold Session.getCursor
  rw [hprint]
  dsimp only
  unfold Client.getCursor
  rw [hquery, hr]
  rfl

theorem Idle.edit (h : s.Idle) (line : List UInt8) (caret : ℕ) :
    { s with
      line := line
      caret := caret }.Idle :=
  ⟨h.ready, h.onScreen, h.resX, h.resY, h.answered, h.sound, h.unread⟩

/-- The branch for a character. The cursor comes to the cell behind it exactly
if the line's end does not come to the last cell. -/
theorem Idle.insert (h : s.Idle) {c : UInt8} (hc : IsText c)
    (hafter : ∀ b ∈ s.line.drop s.caret, IsText b) (typed : List Key) :
    ∃ t, s.insert c typed = some t ∧
      Draws { s with
        line := s.line.take s.caret ++ c :: s.line.drop s.caret
        caret := s.caret + 1 } t ∧
      (s.screen.position + (s.line.drop s.caret).length + 1 < s.screen.bottom →
        Redrawn s.screen t.screen
          (overlay s.screen.position (c :: s.line.drop s.caret) s.screen.cell) ∧
        t.screen.position = s.screen.position + 1) ∧
      (s.screen.bottom ≤ s.screen.position + (s.line.drop s.caret).length + 1 →
        s.screen.position + 1 < t.screen.position) := by
  have hx := h.onScreen.cursorX_nonneg
  have hpx := h.parameter_column (show 0 ≤ s.screen.cursorX + 1 by omega) (by omega)
  have hpy := h.parameter_row
  obtain ⟨s₁, hrun₁, hdraws₁, hscreen₁⟩ := h.getCursor typed
  obtain ⟨s₂, hrun₂, hdraws₂, hwritten₂⟩ := hdraws₁.idle.print
    (show ∀ b ∈ [c], IsText b from fun b hb => by rw [List.mem_singleton.mp hb]; exact hc)
  obtain ⟨s₃, hrun₃, hdraws₃, hmoved₃⟩ := (hdraws₂.idle.edit
    (s.line.take s.caret ++ c :: s.line.drop s.caret) (s.caret + 1)).setCursor hpx hpy
  obtain ⟨s₄, hrun₄, hdraws₄, hwritten₄⟩ := hdraws₃.idle.print hafter
  obtain ⟨t, hrun₅, hdraws₅, hmoved₅⟩ := hdraws₄.idle.setCursor hpx hpy
  have hsame₂ : SameLine s s₂ := hdraws₁.same.trans hdraws₂.same
  have hsame := (hdraws₃.same.trans hdraws₄.same).trans hdraws₅.same
  rw [hscreen₁] at hwritten₂
  refine ⟨t, ?_, ⟨hdraws₅.idle, hsame.line, hsame.caret⟩,
    h.onScreen.inserted hwritten₂ hmoved₃ hwritten₄ hmoved₅⟩
  unfold Session.insert
  simp only [hrun₁, hrun₂, Option.bind_eq_bind, Option.bind_some, hsame₂.line, hsame₂.caret]
  rw [hrun₃, Option.bind_some, hrun₄, Option.bind_some, hrun₅]

theorem Idle.removes_one (h : s.Idle) :
    ∃ t, s.removes 1 = some t ∧ Draws s t ∧ t.screen = s.screen.remove := by
  obtain ⟨t, hrun, hdraws, hscreen⟩ := h.remove
  refine ⟨t, ?_, hdraws, hscreen⟩
  unfold removes
  rw [hrun]
  rfl

/-- The body of the branch, with no tab in front of the caret. -/
theorem backspace_eq (hcaret : 0 < s.caret) (hle : s.caret ≤ s.line.length)
    (htab : s.line.getD (s.caret - 1) 0 ≠ '\t'.toUInt8) (typed : List Key) :
    s.backspace typed = (s.getCursor typed).bind fun (pos, t) =>
      ({ t with
        line := t.line.take (t.caret - 1) ++ s.line.drop s.caret
        caret := t.caret - 1 }.command (.setCursor (pos.2 - 1) pos.1)).bind fun t =>
      (t.print (s.line.drop s.caret)).bind fun t =>
      (t.removes 1).bind fun t => t.command (.setCursor (pos.2 - 1) pos.1) := by
  unfold Session.backspace
  rw [if_pos ⟨Nat.lt_of_lt_of_le hcaret hle, hcaret⟩]
  simp only [if_neg htab, Nat.cast_one, Option.bind_eq_bind]

/-- The branch for the backspace key, with the cursor not in the first column. -/
theorem Idle.backspace (h : s.Idle) (hcaret : 0 < s.caret) (hle : s.caret ≤ s.line.length)
    (htab : s.line.getD (s.caret - 1) 0 ≠ '\t'.toUInt8)
    (hafter : ∀ b ∈ s.line.drop s.caret, IsText b) (hx : 0 < s.screen.cursorX)
    (hroom : s.screen.position + (s.line.drop s.caret).length < s.screen.bottom)
    (typed : List Key) :
    ∃ t, s.backspace typed = some t ∧
      Draws { s with
        line := s.line.take (s.caret - 1) ++ s.line.drop s.caret
        caret := s.caret - 1 } t ∧
      Redrawn s.screen t.screen
        (overlay (s.screen.position - 1) (s.line.drop s.caret ++ [blank]) s.screen.cell) ∧
      t.screen.position = s.screen.position - 1 := by
  have hpx : Parameter (s.screen.cursorX - 1) := h.parameter_column (by omega) (by omega)
  have hpy := h.parameter_row
  obtain ⟨s₁, hrun₁, hdraws₁, hscreen₁⟩ := h.getCursor typed
  obtain ⟨s₂, hrun₂, hdraws₂, hmoved₂⟩ := (hdraws₁.idle.edit
    (s.line.take (s.caret - 1) ++ s.line.drop s.caret) (s.caret - 1)).setCursor hpx hpy
  obtain ⟨s₃, hrun₃, hdraws₃, hwritten₃⟩ := hdraws₂.idle.print hafter
  obtain ⟨s₄, hrun₄, hdraws₄, hscreen₄⟩ := hdraws₃.idle.removes_one
  obtain ⟨t, hrun₅, hdraws₅, hmoved₅⟩ := hdraws₄.idle.setCursor hpx hpy
  have hsame := ((hdraws₂.same.trans hdraws₃.same).trans hdraws₄.same).trans hdraws₅.same
  have hmoved₂ : Moved s₁.screen s₂.screen
      (s₁.screen.number (s.screen.cursorX - 1) s.screen.cursorY) := hmoved₂
  rw [hscreen₁] at hmoved₂
  refine ⟨t, ?_, ⟨hdraws₅.idle, hsame.line, hsame.caret⟩,
    hwritten₃.deleted hroom hmoved₂ hscreen₄ hmoved₅⟩
  rw [backspace_eq hcaret hle htab, hrun₁, Option.bind_some]
  dsimp only
  rw [hdraws₁.same.line, hdraws₁.same.caret, hrun₂, Option.bind_some, hrun₃, Option.bind_some,
    hrun₄, Option.bind_some, hrun₅]

/-- The branch for the backspace key, with the cursor in the first column: two
characters are printed for each of the two positions. -/
theorem Idle.backspace_first (h : s.Idle) (hcaret : 0 < s.caret) (hle : s.caret ≤ s.line.length)
    (htab : s.line.getD (s.caret - 1) 0 ≠ '\t'.toUInt8)
    (hafter : ∀ b ∈ s.line.drop s.caret, IsText b) (hx : s.screen.cursorX = 0)
    (typed : List Key) :
    ∃ t, s.backspace typed = some t ∧ t.caret = s.caret - 1 ∧
      t.screen.position = s.screen.position + (s.line.drop s.caret).length + 4 := by
  have hpy := h.parameter_row
  obtain ⟨s₁, hrun₁, hdraws₁, hscreen₁⟩ := h.getCursor typed
  obtain ⟨s₂, hrun₂, hdraws₂, hwritten₂⟩ := (hdraws₁.idle.edit
    (s.line.take (s.caret - 1) ++ s.line.drop s.caret) (s.caret - 1)).setCursor_neg_one hpy.1
  obtain ⟨s₃, hrun₃, hdraws₃, hwritten₃⟩ := hdraws₂.idle.print hafter
  obtain ⟨s₄, hrun₄, hdraws₄, hscreen₄⟩ := hdraws₃.idle.removes_one
  obtain ⟨t, hrun₅, hdraws₅, hwritten₅⟩ := hdraws₄.idle.setCursor_neg_one hpy.1
  have hsame := ((hdraws₂.same.trans hdraws₃.same).trans hdraws₄.same).trans hdraws₅.same
  refine ⟨t, ?_, hsame.caret, ?_⟩
  · rw [backspace_eq hcaret hle htab, hrun₁, Option.bind_some]
    dsimp only
    rw [hdraws₁.same.line, hdraws₁.same.caret, hx, Int.zero_sub, hrun₂, Option.bind_some, hrun₃,
      Option.bind_some, hrun₄, Option.bind_some, hrun₅]
  · have hwritten₂ : Written s₁.screen s₂.screen ['1'.toUInt8, 'f'.toUInt8] := hwritten₂
    rw [hscreen₁] at hwritten₂
    have hposition₄ : s₄.screen.position = s₃.screen.position := by
      rw [hscreen₄]
      exact hwritten₃.onScreen.remove.2.2.1
    have htwo : ['1'.toUInt8, 'f'.toUInt8].length = 2 := rfl
    have hposition := hwritten₅.position
    rw [hposition₄, hwritten₃.position, hwritten₂.position, htwo] at hposition
    omega

/-- The branch for a key that completes, with one completion. What is completed
is overwritten from its first cell on, or from the first cell of the row. -/
theorem Idle.complete (h : s.Idle) {files : Files} {completion : List UInt8}
    (hcompletion : gshAutocomplete files s.toComplete = [completion])
    (htext : ∀ b ∈ completion ++ s.line.drop s.caret, IsText b)
    (hback : Parameter s.toComplete.length) (hshort : completion.length < 2 ^ 26)
    (typed : List Key) {start : ℤ}
    (hstart : start = s.screen.position - s.screen.cursorX +
      max 0 (s.screen.cursorX - s.toComplete.length)) :
    ∃ t, s.complete files typed = some t ∧
      Draws { s with
        line := s.line.take (s.caret - s.toComplete.length) ++ completion ++ s.line.drop s.caret
        caret := s.caret - s.toComplete.length + completion.length } t ∧
      (start + (completion ++ s.line.drop s.caret).length < s.screen.bottom →
        Redrawn s.screen t.screen
          (overlay start (completion ++ s.line.drop s.caret) s.screen.cell) ∧
        t.screen.position = start + completion.length) ∧
      (s.screen.bottom ≤ start + (completion ++ s.line.drop s.caret).length →
        start + completion.length < t.screen.position) := by
  have hx := h.onScreen.cursorX_nonneg
  obtain ⟨s₁, hrun₁, hdraws₁, hmoved₁⟩ := (h.edit
    (s.line.take (s.caret - s.toComplete.length) ++ completion ++ s.line.drop s.caret)
    (s.caret - s.toComplete.length)).moveCursorBack hback
  obtain ⟨s₂, hrun₂, hdraws₂, hscreen₂⟩ := hdraws₁.idle.getCursor typed
  obtain ⟨s₃, hrun₃, hdraws₃, hwritten₃⟩ := (hdraws₂.idle.edit s₂.line
    (s.caret - s.toComplete.length + completion.length)).print htext
  have hx₁ := hdraws₁.idle.onScreen.cursorX_nonneg
  have hpx := hdraws₁.idle.parameter_column
    (show 0 ≤ s₁.screen.cursorX + completion.length by omega) (by omega)
  obtain ⟨t, hrun₄, hdraws₄, hmoved₄⟩ :=
    hdraws₃.idle.setCursor hpx hdraws₁.idle.parameter_row
  have hsame := hdraws₃.same.trans hdraws₄.same
  have hmoved₁ : Moved s.screen s₁.screen (s.screen.number
      (max 0 (s.screen.cursorX - s.toComplete.length)) s.screen.cursorY) := hmoved₁
  have hplace : s.screen.number (max 0 (s.screen.cursorX - s.toComplete.length))
      s.screen.cursorY = start := by
    unfold FbScreen.position FbScreen.number at hstart
    unfold FbScreen.number
    omega
  rw [hplace] at hmoved₁
  have hwritten₃ : Written s₂.screen s₃.screen (completion ++ s.line.drop s.caret) := hwritten₃
  rw [hscreen₂] at hwritten₃
  refine ⟨t, ?_, ⟨hdraws₄.idle,
    hsame.line.trans (hdraws₁.same.trans hdraws₂.same).line, hsame.caret⟩,
    h.onScreen.replaced (by omega) (by rw [List.length_append]; omega) hmoved₁ hwritten₃ hmoved₄⟩
  unfold Session.complete
  simp only [hcompletion, Option.bind_eq_bind]
  rw [hrun₁, Option.bind_some, hrun₂, Option.bind_some]
  dsimp only
  rw [hrun₃, Option.bind_some, hrun₄]

end Session

end Heartix.Gsh
