import Heartix.Stdio.Stream

/-!
Flushing a stream. A write flush offers the buffered bytes to `impl_write` until
they are gone or a call is refused; a read flush moves the file offset back over
what was read ahead. The equations at the end say everything a flush can do to
the stream, so that later proofs never unfold the loops.
-/

namespace Heartix.Stdio

open PartialTransfer

variable {W : Type}

/-- The loop around `impl_write` in `__fflush_write_unlocked` and
`__fwrite_unlocked`: `rest` is what lies between `done` and `total`. It returns
0 or EOF and the bytes that were not written. -/
def writeLoop (K : Kernel W) (done : ℕ) (rest : List UInt8) (s : State W) :
    ℤ × List UInt8 × State W :=
  if _ : rest = [] then (0, [], s)
  else
    match implWrite K done rest s with
    | (some 0, s) => (EOF, rest, s.setEof)
    | (none, s) => (EOF, rest, s.setError)
    | (some (n + 1), s) => writeLoop K (done + (n + 1)) (rest.drop (n + 1)) s
termination_by rest.length
decreasing_by
  have hpos := List.length_pos_of_ne_nil ‹¬rest = []›
  simp only [List.length_drop]
  omega

/-- `__fflush_write_unlocked`. -/
def fflushWriteUnlocked (K : Kernel W) (s : State W) : ℤ × State W :=
  if s.stream.flagDirectionWrite = false then (0, s)
  else if s.stream.mode.write = false then (EOF, s.setError)
  else if s.stream.implWrite = false then (EOF, s.setError)
  else
    match writeLoop K 0 s.stream.pending s with
    | (res, rest, s) =>
        (res, { s with stream := { s.stream with
          flagDirectionWrite := false
          bufferedBytesWrite := rest.length } })

/-- Moving the file offset back over the bytes read ahead but not delivered. -/
def restorePosition (K : Kernel W) (current : ℤ) (s : State W) : State W :=
  if 0 ≤ current then
    let buffered := s.stream.bufferedBytesRead - s.stream.bufferedBytesReadOffset
    let restored : ℤ := if current < buffered then 0 else current - buffered
    match implSeek K restored .seekSet s with
    | (r, s) => if r < 0 then s.setError else s
  else s

/-- `__fflush_read_unlocked`. -/
def fflushReadUnlocked (K : Kernel W) (s : State W) : ℤ × State W :=
  if s.stream.flagDirectionRead = false then (0, s)
  else if s.stream.mode.read = false then (EOF, s.setError)
  else
    match (if s.stream.implSeek = true then implSeek K 0 .seekCur s else (-1, s)) with
    | (current, s) =>
        let s := restorePosition K current s
        (0, { s with stream := { s.stream with
          bufferedBytesRead := 0
          bufferedBytesReadOffset := 0
          flagDirectionRead := false } })

/-- `__fflush_unlocked`. -/
def fflushUnlocked (K : Kernel W) (s : State W) : ℤ × State W :=
  match (if s.stream.flagDirectionRead = true then fflushReadUnlocked K s else (0, s)) with
  | (r, s) =>
      if r = EOF then (EOF, s)
      else match (if s.stream.flagDirectionWrite = true then fflushWriteUnlocked K s
                  else (0, s)) with
        | (r, s) => if r = EOF then (EOF, s) else (0, s)

/-- The callers test the direction before they flush; so do the flushes. -/
@[simp] theorem ite_fflushReadUnlocked (K : Kernel W) (s : State W) :
    (if s.stream.flagDirectionRead = true then fflushReadUnlocked K s else (0, s)) =
      fflushReadUnlocked K s := by
  cases h : s.stream.flagDirectionRead <;> simp [fflushReadUnlocked, h]

@[simp] theorem ite_fflushWriteUnlocked (K : Kernel W) (s : State W) :
    (if s.stream.flagDirectionWrite = true then fflushWriteUnlocked K s else (0, s)) =
      fflushWriteUnlocked K s := by
  cases h : s.stream.flagDirectionWrite <;> simp [fflushWriteUnlocked, h]

/-- The loop is a transfer; it changes the indicators and the history only. -/
theorem writeLoop_eq (K : Kernel W) (done : ℕ) (rest : List UInt8) (s : State W) :
    ∃ left calls eof error w,
      writeLoop K done rest s = (if left = [] then 0 else EOF, left,
        ⟨{ s.stream with flagEof := eof, flagError := error,
                         writes := s.stream.writes ++ calls }, w⟩) ∧
      Transfer done rest left calls := by
  induction hlen : rest.length using Nat.strong_induction_on generalizing done rest s with
  | h n ih =>
    subst hlen
    unfold writeLoop
    by_cases hrest : rest = []
    · subst hrest
      refine ⟨[], [], s.stream.flagEof, s.stream.flagError, s.world, ?_, .done done⟩
      simp
    · rw [dif_neg hrest]
      unfold implWrite
      rcases K.write s.stream.fileDescriptor rest s.world with ⟨_ | ⟨_ | n, hn⟩, w⟩
      · refine ⟨rest, [⟨done, []⟩], s.stream.flagEof, true, w, ?_, .refused done hrest⟩
        simp [State.setError, hrest]
      · refine ⟨rest, [⟨done, []⟩], true, s.stream.flagError, w, ?_, .refused done hrest⟩
        simp [State.setEof, hrest]
      · have hpos := List.length_pos_of_ne_nil hrest
        obtain ⟨left, calls, eof, error, w', heq, htransfer⟩ :=
          ih _ (by simp only [List.length_drop]; omega) (done + (n + 1)) (rest.drop (n + 1))
            ⟨{ s.stream with writes := s.stream.writes ++ [⟨done, rest.take (n + 1)⟩] }, w⟩ rfl
        refine ⟨left, ⟨done, rest.take (n + 1)⟩ :: calls, eof, error, w', ?_,
          .step (Nat.succ_pos n) hrest htransfer⟩
        simpa using heq

/-- A write flush is skipped, is not permitted, or is a transfer of the pending
bytes. After a transfer the direction is gone whatever its outcome. -/
theorem fflushWriteUnlocked_cases (K : Kernel W) (s : State W) :
    (s.stream.flagDirectionWrite = false ∧ fflushWriteUnlocked K s = (0, s)) ∨
    (s.stream.flagDirectionWrite = true ∧
      (s.stream.mode.write = false ∨ s.stream.implWrite = false) ∧
      fflushWriteUnlocked K s = (EOF, s.setError)) ∨
    (s.stream.flagDirectionWrite = true ∧ s.stream.mode.write = true ∧
      s.stream.implWrite = true ∧ ∃ left calls eof error w,
        fflushWriteUnlocked K s = (if left = [] then 0 else EOF,
          ⟨{ s.stream with flagEof := eof, flagError := error,
                           writes := s.stream.writes ++ calls,
                           flagDirectionWrite := false,
                           bufferedBytesWrite := left.length }, w⟩) ∧
        Transfer 0 s.stream.pending left calls) := by
  unfold fflushWriteUnlocked
  cases hdir : s.stream.flagDirectionWrite with
  | false => exact Or.inl ⟨rfl, rfl⟩
  | true =>
    right
    cases hmode : s.stream.mode.write with
    | false => exact Or.inl ⟨rfl, Or.inl rfl, rfl⟩
    | true =>
      cases himpl : s.stream.implWrite with
      | false => exact Or.inl ⟨rfl, Or.inr rfl, rfl⟩
      | true =>
        right
        obtain ⟨left, calls, eof, error, w, heq, htransfer⟩ :=
          writeLoop_eq K 0 s.stream.pending s
        refine ⟨rfl, rfl, rfl, left, calls, eof, error, w, ?_, htransfer⟩
        simp [heq]

theorem implSeek_eq (K : Kernel W) (offset : ℤ) (whence : Whence) (s : State W) :
    ∃ result w, implSeek K offset whence s = (result, { s with world := w }) :=
  ⟨_, _, rfl⟩

theorem restorePosition_eq (K : Kernel W) (current : ℤ) (s : State W) :
    ∃ error w, restorePosition K current s =
      ⟨{ s.stream with flagError := error }, w⟩ := by
  unfold restorePosition
  by_cases hcurrent : 0 ≤ current
  · rw [if_pos hcurrent]
    dsimp only
    generalize (if current < _ then (0 : ℤ) else _) = restored
    obtain ⟨result, w, heq⟩ := implSeek_eq K restored .seekSet s
    rw [heq]
    by_cases hresult : result < 0
    · exact ⟨true, w, by simp [hresult, State.setError]⟩
    · exact ⟨s.stream.flagError, w, by simp [hresult]⟩
  · rw [if_neg hcurrent]
    exact ⟨s.stream.flagError, s.world, rfl⟩

/-- A read flush is skipped, is not permitted, or empties the read buffer. It
never touches what is pending for writing. -/
theorem fflushReadUnlocked_cases (K : Kernel W) (s : State W) :
    (s.stream.flagDirectionRead = false ∧ fflushReadUnlocked K s = (0, s)) ∨
    (s.stream.flagDirectionRead = true ∧ s.stream.mode.read = false ∧
      fflushReadUnlocked K s = (EOF, s.setError)) ∨
    (s.stream.flagDirectionRead = true ∧ s.stream.mode.read = true ∧ ∃ error w,
      fflushReadUnlocked K s = (0,
        ⟨{ s.stream with flagError := error, bufferedBytesRead := 0,
                         bufferedBytesReadOffset := 0,
                         flagDirectionRead := false }, w⟩)) := by
  unfold fflushReadUnlocked
  cases hdir : s.stream.flagDirectionRead with
  | false => exact Or.inl ⟨rfl, rfl⟩
  | true =>
    right
    cases hmode : s.stream.mode.read with
    | false => exact Or.inl ⟨rfl, rfl, rfl⟩
    | true =>
      right
      refine ⟨rfl, rfl, ?_⟩
      cases himpl : s.stream.implSeek with
      | false =>
        obtain ⟨error, w, heq⟩ := restorePosition_eq K (-1) s
        refine ⟨error, w, ?_⟩
        simp [heq]
      | true =>
        obtain ⟨current, w, hseek⟩ := implSeek_eq K 0 .seekCur s
        obtain ⟨error, w', heq⟩ := restorePosition_eq K current { s with world := w }
        refine ⟨error, w', ?_⟩
        simp [hseek, heq]

theorem fflushWriteUnlocked_result (K : Kernel W) {s t : State W} {r : ℤ}
    (heq : fflushWriteUnlocked K s = (r, t)) : r = 0 ∨ r = EOF := by
  rcases fflushWriteUnlocked_cases K s with
    ⟨_, hcase⟩ | ⟨_, _, hcase⟩ | ⟨_, _, _, left, _, _, _, _, hcase, _⟩
  · exact Or.inl (Prod.mk.inj (heq.symm.trans hcase)).1
  · exact Or.inr (Prod.mk.inj (heq.symm.trans hcase)).1
  · have hr := (Prod.mk.inj (heq.symm.trans hcase)).1
    by_cases hleft : left = []
    · exact Or.inl (hr.trans (if_pos hleft))
    · exact Or.inr (hr.trans (if_neg hleft))

theorem fflushReadUnlocked_result (K : Kernel W) {s t : State W} {r : ℤ}
    (heq : fflushReadUnlocked K s = (r, t)) : r = 0 ∨ r = EOF := by
  rcases fflushReadUnlocked_cases K s with ⟨_, hcase⟩ | ⟨_, _, hcase⟩ | ⟨_, _, _, _, hcase⟩
  · exact Or.inl (Prod.mk.inj (heq.symm.trans hcase)).1
  · exact Or.inr (Prod.mk.inj (heq.symm.trans hcase)).1
  · exact Or.inl (Prod.mk.inj (heq.symm.trans hcase)).1

/-- A flush is a read flush, and a write flush after it unless that has failed. -/
theorem fflushUnlocked_cases (K : Kernel W) (s : State W) :
    (fflushUnlocked K s).2 = (fflushReadUnlocked K s).2 ∨
      (fflushUnlocked K s).2 = (fflushWriteUnlocked K (fflushReadUnlocked K s).2).2 := by
  unfold fflushUnlocked
  rw [ite_fflushReadUnlocked]
  obtain ⟨r, t⟩ := fflushReadUnlocked K s
  dsimp only
  by_cases hr : r = EOF
  · left
    rw [if_pos hr]
  · right
    rw [if_neg hr, ite_fflushWriteUnlocked]
    obtain ⟨r', u⟩ := fflushWriteUnlocked K t
    dsimp only
    by_cases hr' : r' = EOF
    · rw [if_pos hr']
    · rw [if_neg hr']

theorem fflushReadUnlocked_notReading (K : Kernel W) {s : State W}
    (h : s.stream.flagDirectionRead = false) : fflushReadUnlocked K s = (0, s) := by
  simp [fflushReadUnlocked, h]

theorem fflushUnlocked_notReading (K : Kernel W) {s : State W}
    (h : s.stream.flagDirectionRead = false) :
    fflushUnlocked K s = fflushWriteUnlocked K s := by
  unfold fflushUnlocked
  rw [ite_fflushReadUnlocked, fflushReadUnlocked_notReading K h]
  simp only [zero_ne_EOF, if_false]
  rw [ite_fflushWriteUnlocked]
  rcases hwrite : fflushWriteUnlocked K s with ⟨r, t⟩
  rcases fflushWriteUnlocked_result K hwrite with rfl | rfl
  · simp
  · simp

/-- Without the write direction a flush is a read flush. -/
theorem fflushUnlocked_notWriting (K : Kernel W) {s : State W}
    (h : s.stream.flagDirectionWrite = false) :
    (fflushUnlocked K s).2 = (fflushReadUnlocked K s).2 := by
  have hdir : (fflushReadUnlocked K s).2.stream.flagDirectionWrite = false := by
    rcases fflushReadUnlocked_cases K s with ⟨_, hcase⟩ | ⟨_, _, hcase⟩ | ⟨_, _, _, _, hcase⟩
    · rw [hcase]
      exact h
    · rw [hcase]
      exact h
    · rw [hcase]
      exact h
  unfold fflushUnlocked
  rw [ite_fflushReadUnlocked]
  generalize fflushReadUnlocked K s = result at hdir ⊢
  obtain ⟨r, t⟩ := result
  dsimp only at hdir ⊢
  by_cases hr : r = EOF
  · rw [if_pos hr]
  · simp [hr, hdir]

end Heartix.Stdio
