import Heartix.Stdio.Access

/-!
The indicators are written by reading and writing and read by `feof` and
`ferror` alone: a stream with other indicators answers the same, does the same
to the world, and ends as the same stream but for the indicators.
-/

namespace Heartix.Stdio

variable {W : Type}

/-- The stream with other indicators. -/
abbrev State.marked (s : State W) (eof error : Bool) : State W :=
  { s with stream := { s.stream with flagEof := eof, flagError := error } }

/-- The calls that read or write. -/
def Op.Transfers : Op → Prop
  | .fgetc => True
  | .fread _ _ => True
  | .fputc _ => True
  | .fwrite _ _ _ => True
  | _ => False

section Marked

variable (K : Kernel W) (eof error : Bool)

theorem implWrite_marked (done : ℕ) (bytes : List UInt8) (s : State W) :
    implWrite K done bytes (s.marked eof error) =
      ((implWrite K done bytes s).1, (implWrite K done bytes s).2.marked eof error) := by
  unfold implWrite
  rcases K.write s.stream.fileDescriptor bytes s.world with ⟨_ | n, w⟩
  · rfl
  · rfl

theorem implRead_marked (len : ℕ) (s : State W) :
    implRead K len (s.marked eof error) =
      ((implRead K len s).1, (implRead K len s).2.marked eof error) := by
  unfold implRead
  rcases K.read s.stream.fileDescriptor len s.world with ⟨_ | bytes, w⟩
  · rfl
  · rfl

theorem setvbufUnlocked_marked (s : State W) :
    setvbufUnlocked K none .iofbf BUFSIZ (s.marked eof error) =
      ((setvbufUnlocked K none .iofbf BUFSIZ s).1,
        (setvbufUnlocked K none .iofbf BUFSIZ s).2.marked eof error) := by
  have hrelease : releaseBuffer K (s.marked eof error) = (releaseBuffer K s).marked eof error := by
    unfold releaseBuffer
    dsimp only
    split
    · rfl
    · rfl
  unfold setvbufUnlocked
  rw [hrelease]
  dsimp only
  rcases K.malloc _ (releaseBuffer K s).world with ⟨_ | ⟨address, memory⟩, w⟩
  · rfl
  · rfl

theorem ensureBuffer_marked (s : State W) :
    ensureBuffer K (s.marked eof error) =
      ((ensureBuffer K s).1, (ensureBuffer K s).2.marked eof error) := by
  unfold ensureBuffer setdefbufUnlocked
  rw [setvbufUnlocked_marked]
  rcases setvbufUnlocked K none .iofbf BUFSIZ s with ⟨r, t⟩
  dsimp only
  rw [setvbufUnlocked_marked]
  rcases setvbufUnlocked K none .iofbf BUFSIZ t with ⟨r', u⟩
  dsimp only
  split
  · rfl
  · split
    · rfl
    · split
      · rfl
      · rfl

theorem writeLoop_marked (done : ℕ) (rest : List UInt8) (s : State W) :
    ∃ eof' error', writeLoop K done rest (s.marked eof error) =
      ((writeLoop K done rest s).1, (writeLoop K done rest s).2.1,
        (writeLoop K done rest s).2.2.marked eof' error') := by
  induction hlen : rest.length using Nat.strong_induction_on generalizing done rest s with
  | h n ih =>
    subst hlen
    unfold writeLoop
    by_cases hrest : rest = []
    · rw [dif_pos hrest, dif_pos hrest]
      exact ⟨eof, error, rfl⟩
    · rw [dif_neg hrest, dif_neg hrest, implWrite_marked]
      have hpos := List.length_pos_of_ne_nil hrest
      rcases implWrite K done rest s with ⟨_ | _ | n, t⟩
      · exact ⟨eof, true, rfl⟩
      · exact ⟨true, error, rfl⟩
      · exact ih _ (by simp only [List.length_drop]; omega) _ _ t rfl

theorem fflushWriteUnlocked_marked (s : State W) :
    ∃ eof' error', fflushWriteUnlocked K (s.marked eof error) =
      ((fflushWriteUnlocked K s).1, (fflushWriteUnlocked K s).2.marked eof' error') := by
  obtain ⟨eof', error', hloop⟩ := writeLoop_marked K eof error 0 s.stream.pending s
  have hpending : (s.marked eof error).stream.pending = s.stream.pending := rfl
  unfold fflushWriteUnlocked
  rw [hpending, hloop]
  rcases writeLoop K 0 s.stream.pending s with ⟨res, rest, t⟩
  dsimp only
  split
  · exact ⟨eof, error, rfl⟩
  · split
    · exact ⟨eof, true, rfl⟩
    · split
      · exact ⟨eof, true, rfl⟩
      · exact ⟨eof', error', rfl⟩

theorem implSeek_marked (offset : ℤ) (whence : Whence) (s : State W) :
    implSeek K offset whence (s.marked eof error) =
      ((implSeek K offset whence s).1, (implSeek K offset whence s).2.marked eof error) := rfl

theorem restorePosition_marked (current : ℤ) (s : State W) :
    ∃ error', restorePosition K current (s.marked eof error) =
      (restorePosition K current s).marked eof error' := by
  unfold restorePosition
  by_cases hcurrent : 0 ≤ current
  · rw [if_pos hcurrent, if_pos hcurrent]
    dsimp only
    generalize (if current < _ then (0 : ℤ) else _) = restored
    rw [implSeek_marked]
    rcases implSeek K restored .seekSet s with ⟨r, t⟩
    dsimp only
    split
    · exact ⟨true, rfl⟩
    · exact ⟨error, rfl⟩
  · rw [if_neg hcurrent, if_neg hcurrent]
    exact ⟨error, rfl⟩

theorem fflushReadUnlocked_marked (s : State W) :
    ∃ error', fflushReadUnlocked K (s.marked eof error) =
      ((fflushReadUnlocked K s).1, (fflushReadUnlocked K s).2.marked eof error') := by
  unfold fflushReadUnlocked
  rw [implSeek_marked]
  rcases hseek : (if s.stream.implSeek = true then implSeek K 0 .seekCur s else (-1, s)) with
    ⟨current, t⟩
  have hseek' : (if (s.marked eof error).stream.implSeek = true then
      ((implSeek K 0 .seekCur s).1, (implSeek K 0 .seekCur s).2.marked eof error)
      else (-1, s.marked eof error)) = (current, t.marked eof error) := by
    split at hseek
    · rename_i himpl
      rw [if_pos himpl, hseek]
    · rename_i himpl
      rw [if_neg himpl]
      obtain ⟨rfl, rfl⟩ := Prod.mk.inj hseek
      rfl
  obtain ⟨error', hrestore⟩ := restorePosition_marked K eof error current t
  rw [hseek']
  dsimp only
  rw [hrestore]
  split
  · exact ⟨error, rfl⟩
  · split
    · exact ⟨true, rfl⟩
    · exact ⟨error', rfl⟩

theorem makeRoom_marked (s : State W) :
    ∃ eof' error', makeRoom K (s.marked eof error) =
      ((makeRoom K s).1, (makeRoom K s).2.marked eof' error') := by
  obtain ⟨error₁, hread⟩ := fflushReadUnlocked_marked K eof error s
  unfold makeRoom
  rw [ite_fflushReadUnlocked, ite_fflushReadUnlocked, hread]
  rcases fflushReadUnlocked K s with ⟨r, t⟩
  obtain ⟨eof₂, error₂, hwrite⟩ := fflushWriteUnlocked_marked K eof error₁ t
  dsimp only
  rw [hwrite]
  rcases fflushWriteUnlocked K t with ⟨r', u⟩
  dsimp only
  split
  · exact ⟨eof, error₁, rfl⟩
  · show ∃ eof' error', (if t.stream.bufferedBytesWrite = t.stream.bufferSize then _ else _) = _
    split
    · split
      · exact ⟨eof₂, error₂, rfl⟩
      · exact ⟨eof₂, error₂, rfl⟩
    · exact ⟨eof, error₁, rfl⟩

theorem fwriteUnbuffered_marked (ptr : List UInt8) (size : ℕ) (s : State W) :
    ∃ eof' error', fwriteUnbuffered K ptr size (s.marked eof error) =
      ((fwriteUnbuffered K ptr size s).1,
        (fwriteUnbuffered K ptr size s).2.marked eof' error') := by
  obtain ⟨eof', error', hloop⟩ := writeLoop_marked K false error 0 ptr
    { s with stream := { s.stream with flagDirectionWrite := true, flagEof := false } }
  unfold fwriteUnbuffered
  by_cases himpl : s.stream.implWrite = false
  · rw [if_pos himpl, if_pos himpl]
    exact ⟨eof, true, rfl⟩
  · rw [if_neg himpl, if_neg himpl]
    dsimp only at hloop ⊢
    rw [hloop]
    generalize writeLoop K 0 ptr _ = result
    obtain ⟨r, left, t⟩ := result
    dsimp only
    split
    · exact ⟨eof', error', rfl⟩
    · exact ⟨eof', error', rfl⟩

theorem storeByte_marked (c8 : UInt8) (s : State W) :
    storeByte c8 (s.marked eof error) =
      (storeByte c8 s).map fun t => t.marked eof error := by
  unfold storeByte FILE.bufferSize
  by_cases hroom : s.stream.bufferedBytesWrite < s.stream.buffer.length
  · rw [if_pos hroom, if_pos hroom]
    rfl
  · rw [if_neg hroom, if_neg hroom]
    rfl

theorem fputcUnlocked_marked (c : ℤ) (s : State W) :
    ∃ eof' error', fputcUnlocked K c (s.marked eof error) =
      (fputcUnlocked K c s).map fun (r, t) => (r, t.marked eof' error') := by
  unfold fputcUnlocked
  dsimp only
  rw [ensureBuffer_marked]
  rcases ensureBuffer K s with ⟨r, t⟩
  dsimp only
  by_cases hr : r = EOF
  · rw [if_pos hr, if_pos hr]
    exact ⟨eof, error, rfl⟩
  · rw [if_neg hr, if_neg hr]
    by_cases hmode : t.stream.bufferMode = .ionbf
    · rw [if_pos hmode, if_pos hmode]
      by_cases hwrite : t.stream.mode.write = false
      · rw [if_pos hwrite, if_pos hwrite]
        exact ⟨eof, true, rfl⟩
      · rw [if_neg hwrite, if_neg hwrite]
        obtain ⟨eof', error', hdirect⟩ := fwriteUnbuffered_marked K eof error [toByte c] 1 t
        rw [hdirect]
        rcases fwriteUnbuffered K [toByte c] 1 t with ⟨n, u⟩
        dsimp only
        split
        · exact ⟨eof', error', rfl⟩
        · exact ⟨eof', error', rfl⟩
    · rw [if_neg hmode, if_neg hmode]
      obtain ⟨eof₁, error₁, hroom⟩ := makeRoom_marked K eof error t
      rw [hroom]
      rcases makeRoom K t with ⟨r₁, u⟩
      dsimp only
      by_cases hr₁ : r₁ = EOF
      · rw [if_pos hr₁, if_pos hr₁]
        exact ⟨eof₁, error₁, rfl⟩
      · rw [if_neg hr₁, if_neg hr₁, storeByte_marked]
        rcases storeByte (toByte c) u with _ | v
        · exact ⟨eof, error, rfl⟩
        · obtain ⟨eof₂, error₂, hflush⟩ := fflushWriteUnlocked_marked K eof₁ error₁ v
          dsimp only [Option.map_some]
          rw [hflush]
          rcases fflushWriteUnlocked K v with ⟨r₂, w⟩
          dsimp only
          split
          · split
            · exact ⟨eof₂, error₂, rfl⟩
            · exact ⟨eof₂, error₂, rfl⟩
          · exact ⟨eof₁, error₁, rfl⟩

theorem fwriteLoop_marked (size nmemb done : ℕ) (ptr : List UInt8) (s : State W) :
    ∃ eof' error', fwriteLoop K size nmemb done ptr (s.marked eof error) =
      (fwriteLoop K size nmemb done ptr s).map fun (n, t) => (n, t.marked eof' error') := by
  induction ptr generalizing eof error done s with
  | nil => exact ⟨eof, error, rfl⟩
  | cons b ptr ih =>
    obtain ⟨eof₁, error₁, hput⟩ := fputcUnlocked_marked K eof error b.toNat s
    unfold fwriteLoop
    rw [hput]
    rcases fputcUnlocked K b.toNat s with _ | ⟨r, t⟩
    · exact ⟨eof, error, rfl⟩
    · dsimp only [Option.map_some]
      by_cases hr : r = EOF
      · rw [if_pos hr, if_pos hr]
        exact ⟨eof₁, error₁, rfl⟩
      · rw [if_neg hr, if_neg hr]
        exact ih eof₁ error₁ (done + 1) t

theorem fwriteUnlocked_marked (ptr : List UInt8) (size nmemb : ℕ) (s : State W) :
    ∃ eof' error', fwriteUnlocked K ptr size nmemb (s.marked eof error) =
      (fwriteUnlocked K ptr size nmemb s).map fun (n, t) => (n, t.marked eof' error') := by
  unfold fwriteUnlocked
  by_cases hzero : size = 0 ∨ nmemb = 0
  · rw [if_pos hzero, if_pos hzero]
    exact ⟨eof, error, rfl⟩
  · rw [if_neg hzero, if_neg hzero]
    by_cases hwrite : s.stream.mode.write = false
    · rw [if_pos hwrite, if_pos hwrite]
      exact ⟨eof, true, rfl⟩
    · rw [if_neg hwrite, if_neg hwrite, ensureBuffer_marked]
      rcases ensureBuffer K s with ⟨r, t⟩
      dsimp only
      by_cases hr : r = EOF
      · rw [if_pos hr, if_pos hr]
        exact ⟨eof, error, rfl⟩
      · rw [if_neg hr, if_neg hr]
        by_cases hmode : t.stream.bufferMode = .ionbf
        · rw [if_pos hmode, if_pos hmode]
          obtain ⟨eof', error', hdirect⟩ := fwriteUnbuffered_marked K eof error ptr size t
          rw [hdirect]
          exact ⟨eof', error', rfl⟩
        · rw [if_neg hmode, if_neg hmode]
          exact fwriteLoop_marked K eof error size nmemb 0 ptr t

theorem readLoop_marked (left : ℕ) (s : State W) :
    ∃ eof' error', readLoop K left (s.marked eof error) =
      ((readLoop K left s).1, (readLoop K left s).2.marked eof' error') := by
  induction left using Nat.strong_induction_on generalizing s with
  | h left ih =>
    unfold readLoop
    by_cases hleft : left = 0
    · rw [dif_pos hleft, dif_pos hleft]
      exact ⟨eof, error, rfl⟩
    · rw [dif_neg hleft, dif_neg hleft, implRead_marked]
      rcases implRead K left s with ⟨_ | _ | ⟨b, bytes⟩, t⟩
      · exact ⟨eof, true, rfl⟩
      · exact ⟨true, error, rfl⟩
      · obtain ⟨eof', error', hloop⟩ := ih (left - (bytes.length + 1)) (by omega) t
        dsimp only
        rw [hloop]
        exact ⟨eof', error', rfl⟩

theorem freadUnbuffered_marked (size nmemb : ℕ) (s : State W) :
    ∃ eof' error', freadUnbuffered K size nmemb (s.marked eof error) =
      ((freadUnbuffered K size nmemb s).1, (freadUnbuffered K size nmemb s).2.1,
        (freadUnbuffered K size nmemb s).2.2.marked eof' error') := by
  obtain ⟨eof', error', hloop⟩ := readLoop_marked K false error (size * nmemb)
    { s with stream := { s.stream with flagDirectionRead := true, flagEof := false } }
  unfold freadUnbuffered
  by_cases himpl : s.stream.implRead = false
  · rw [if_pos himpl, if_pos himpl]
    exact ⟨eof, true, rfl⟩
  · rw [if_neg himpl, if_neg himpl]
    dsimp only at hloop ⊢
    rw [hloop]
    exact ⟨eof', error', rfl⟩

theorem fillBuffer_marked (s : State W) :
    ∃ eof' error', fillBuffer K (s.marked eof error) =
      ((fillBuffer K s).1, (fillBuffer K s).2.marked eof' error') := by
  unfold fillBuffer FILE.bufferSize
  dsimp only
  generalize (if ungetPreservedSpace ≥ s.stream.buffer.length then 0
    else ungetPreservedSpace) = space
  rw [implRead_marked]
  rcases implRead K (s.stream.buffer.length - space) s with ⟨_ | _ | ⟨b, bytes⟩, t⟩
  · exact ⟨eof, true, rfl⟩
  · exact ⟨true, error, rfl⟩
  · exact ⟨eof, error, rfl⟩

theorem takeByte_marked (s : State W) :
    takeByte (s.marked eof error) =
      (takeByte s).map fun (c, t) => (c, t.marked eof error) := by
  unfold takeByte
  dsimp only
  rcases s.stream.buffer[s.stream.bufferedBytesReadOffset]? with _ | b
  · rfl
  · rfl

theorem readBuffered_marked (s : State W) :
    ∃ eof' error', readBuffered K (s.marked eof error) =
      (readBuffered K s).map fun (c, t) => (c, t.marked eof' error') := by
  unfold readBuffered
  by_cases hempty : s.stream.bufferedBytesReadOffset ≥ s.stream.bufferedBytesRead
  · rw [if_pos hempty, if_pos hempty]
    obtain ⟨eof', error', hfill⟩ := fillBuffer_marked K eof error s
    rw [hfill]
    rcases fillBuffer K s with ⟨r, t⟩
    dsimp only
    split
    · exact ⟨eof', error', rfl⟩
    · exact ⟨eof', error', takeByte_marked eof' error' t⟩
  · rw [if_neg hempty, if_neg hempty]
    exact ⟨eof, error, takeByte_marked eof error s⟩

theorem fgetcUnlocked_marked (s : State W) :
    ∃ eof' error', fgetcUnlocked K (s.marked eof error) =
      (fgetcUnlocked K s).map fun (c, t) => (c, t.marked eof' error') := by
  unfold fgetcUnlocked
  rw [ensureBuffer_marked]
  rcases ensureBuffer K s with ⟨r, t⟩
  dsimp only
  by_cases hr : r = EOF
  · rw [if_pos hr, if_pos hr]
    exact ⟨eof, error, rfl⟩
  · rw [if_neg hr, if_neg hr]
    by_cases hmode : t.stream.bufferMode = .ionbf
    · rw [if_pos hmode, if_pos hmode]
      by_cases hread : t.stream.mode.read = false
      · rw [if_pos hread, if_pos hread]
        exact ⟨eof, true, rfl⟩
      · rw [if_neg hread, if_neg hread]
        obtain ⟨eof', error', hdirect⟩ := freadUnbuffered_marked K eof error 1 1 t
        rw [hdirect]
        rcases freadUnbuffered K 1 1 t with ⟨n, bytes, u⟩
        dsimp only
        split
        · exact ⟨eof', error', rfl⟩
        · rcases bytes with _ | ⟨b, bytes⟩
          · exact ⟨eof', error', rfl⟩
          · exact ⟨eof', error', rfl⟩
    · rw [if_neg hmode, if_neg hmode]
      by_cases hdir : t.stream.flagDirectionWrite = true
      · obtain ⟨eof₁, error₁, hflush⟩ := fflushWriteUnlocked_marked K eof error t
        simp only [hdir, if_true, hflush]
        rcases fflushWriteUnlocked K t with ⟨r₁, u⟩
        dsimp only
        by_cases hr₁ : r₁ = EOF
        · rw [if_pos hr₁, if_pos hr₁]
          exact ⟨eof₁, error₁, rfl⟩
        · rw [if_neg hr₁, if_neg hr₁]
          exact readBuffered_marked K eof₁ error₁ { u with stream := { u.stream with
            flagDirectionWrite := false, flagDirectionRead := true } }
      · simp only [hdir]
        exact readBuffered_marked K eof error { t with stream := { t.stream with
          flagDirectionWrite := false, flagDirectionRead := true } }

theorem freadLoop_marked (size nmemb left : ℕ) (bytes : List UInt8) (s : State W) :
    ∃ eof' error', freadLoop K size nmemb left bytes (s.marked eof error) =
      (freadLoop K size nmemb left bytes s).map
        fun (n, stored, t) => (n, stored, t.marked eof' error') := by
  induction left generalizing eof error bytes s with
  | zero => exact ⟨eof, error, rfl⟩
  | succ left ih =>
    obtain ⟨eof₁, error₁, hget⟩ := fgetcUnlocked_marked K eof error s
    unfold freadLoop
    rw [hget]
    rcases fgetcUnlocked K s with _ | ⟨c, t⟩
    · exact ⟨eof, error, rfl⟩
    · dsimp only [Option.map_some]
      by_cases hc : c = EOF
      · rw [if_pos hc, if_pos hc]
        exact ⟨eof₁, error₁, rfl⟩
      · rw [if_neg hc, if_neg hc]
        exact ih eof₁ error₁ (bytes ++ [toByte c]) t

theorem freadUnlocked_marked (size nmemb : ℕ) (s : State W) :
    ∃ eof' error', freadUnlocked K size nmemb (s.marked eof error) =
      (freadUnlocked K size nmemb s).map
        fun (n, stored, t) => (n, stored, t.marked eof' error') := by
  unfold freadUnlocked
  by_cases hzero : size = 0 ∨ nmemb = 0
  · rw [if_pos hzero, if_pos hzero]
    exact ⟨eof, error, rfl⟩
  · rw [if_neg hzero, if_neg hzero]
    by_cases hread : s.stream.mode.read = false
    · rw [if_pos hread, if_pos hread]
      exact ⟨eof, true, rfl⟩
    · rw [if_neg hread, if_neg hread, ensureBuffer_marked]
      rcases ensureBuffer K s with ⟨r, t⟩
      dsimp only
      by_cases hr : r = EOF
      · rw [if_pos hr, if_pos hr]
        exact ⟨eof, error, rfl⟩
      · rw [if_neg hr, if_neg hr]
        by_cases hmode : t.stream.bufferMode = .ionbf
        · rw [if_pos hmode, if_pos hmode]
          obtain ⟨eof', error', hdirect⟩ := freadUnbuffered_marked K eof error size nmemb t
          rw [hdirect]
          exact ⟨eof', error', rfl⟩
        · rw [if_neg hmode, if_neg hmode]
          exact freadLoop_marked K eof error size nmemb (size * nmemb) [] t

/-- No call that reads or writes looks at the indicators. -/
theorem exec_marked {op : Op} (hop : op.Transfers) (s : State W) :
    ∃ eof' error', op.exec K (s.marked eof error) =
      (op.exec K s).map fun (ret, t) => (ret, t.marked eof' error') := by
  cases op with
  | fgetc =>
    obtain ⟨eof', error', heq⟩ := fgetcUnlocked_marked K eof error s
    refine ⟨eof', error', ?_⟩
    simp only [Op.exec, heq, Option.map_map]
    rfl
  | fread size nmemb =>
    obtain ⟨eof', error', heq⟩ := freadUnlocked_marked K eof error size nmemb s
    refine ⟨eof', error', ?_⟩
    simp only [Op.exec, heq, Option.map_map]
    rfl
  | fputc c =>
    obtain ⟨eof', error', heq⟩ := fputcUnlocked_marked K eof error c s
    refine ⟨eof', error', ?_⟩
    simp only [Op.exec, heq, Option.map_map]
    rfl
  | fwrite size nmemb ptr =>
    obtain ⟨eof', error', heq⟩ := fwriteUnlocked_marked K eof error ptr.toList size nmemb s
    refine ⟨eof', error', ?_⟩
    simp only [Op.exec, heq, Option.map_map]
    rfl
  | _ => exact absurd hop id

end Marked

end Heartix.Stdio
