import Heartix.Stdio.Shows

/-!
Every operation of a stream does to the cursor it shows what the operation of
the same name does to a cursor, and answers the same. Pushing back is the one
operation that can be refused: the buffer may have no room left.
-/

namespace Heartix.Stdio

open Overwrite PartialTransfer

variable {W : Type} {K : Kernel W} {fd : ℤ} {F : SeekableFile K fd} {s t : State W} {c : Cursor}

/-- A stream that is not written may turn to reading. -/
theorem Shows.turn (h : Shows F s c) (hset : s.stream.flagBufferSet = true)
    (hdir : s.stream.flagDirectionWrite = false) {direction : Bool}
    (hdirection : direction = false) (eof : Bool) :
    Shows F { s with stream := { s.stream with
      flagDirectionWrite := direction, flagDirectionRead := true, flagEof := eof } } c where
  sound := ⟨⟨h.sound.write_le, h.sound.offset_le, h.sound.read_le⟩, h.sound.buffered,
    fun hc => by simp [hset] at hc⟩
  fd_eq := h.fd_eq
  readable := h.readable
  canWrite := h.canWrite
  canSeek := h.canSeek
  canTell := h.canTell
  file_eq := h.file_eq
  position_eq := h.position_eq
  ahead := h.ahead
  writing := fun hne => absurd (h.pending_eq_nil hdir) hne
  reading _ := rfl
  oneWay := fun hc => by simp [hdirection] at hc

/-- Delivering the next unread byte moves the cursor over it. -/
theorem Shows.takeByte (h : Shows F s c) (hdir : s.stream.flagDirectionRead = true)
    (hne : s.stream.unread ≠ []) :
    ∃ t, takeByte s = some (c.getc.1, t) ∧ Shows F t c.getc.2 := by
  have hset : s.stream.flagBufferSet = true := by
    by_contra hunset
    have hnone := (h.sound.unused (by simpa using hunset)).2.2.1
    simp [hdir] at hnone
  have hmore : s.stream.bufferedBytesReadOffset < s.stream.bufferedBytesRead := by
    by_contra hge
    exact hne ((FILE.unread_eq_nil_iff h.sound.toBounds).mpr (by omega))
  obtain ⟨r, t, htake, hsound⟩ := takeByte_sound h.sound hset hmore
  obtain ⟨b, rest, hcons⟩ := List.exists_cons_of_ne_nil hne
  obtain ⟨hbyte, hrest⟩ := takeByte_cons hcons
  have hdirW := h.notWriting hdir
  have hpending := h.pending_eq_nil hdirW
  have hfile := h.file_eq
  have hposition := h.position_eq
  rw [hpending, FlatFile.write_nil] at hfile
  rw [hpending, hcons, List.length_nil, List.length_cons] at hposition
  obtain ⟨rfl, rfl⟩ := Prod.mk.inj (Option.some.inj (hbyte.symm.trans htake))
  have hshow : ∀ pushed ahead, rest = pushed ++ ahead →
      ahead.length ≤ F.offset s.world →
      (F.file s.world).read (F.offset s.world - ahead.length) ahead.length = ahead →
      Shows F { s with stream := { s.stream with
        bufferedBytesReadOffset := s.stream.bufferedBytesReadOffset + 1 } }
        { c with position := c.position + 1, pushed := pushed } := by
    intro pushed ahead hsplit hle hread
    exact {
      sound := hsound
      fd_eq := h.fd_eq
      readable := h.readable
      canWrite := h.canWrite
      canSeek := h.canSeek
      canTell := h.canTell
      file_eq := h.file_eq
      position_eq := by
        show c.position + 1 = (F.offset s.world : ℤ) + s.stream.pending.length - _
        rw [hrest, hpending, List.length_nil, hposition]
        push_cast
        omega
      ahead := ⟨ahead, hrest.trans hsplit, hle, hread⟩
      writing := h.writing
      reading := fun _ => hdir
      oneWay := h.oneWay }
  obtain ⟨ahead, hsplit, hle, hread⟩ := h.ahead
  rw [hcons] at hsplit
  cases hpushed : c.pushed with
  | nil =>
    rw [hpushed, List.nil_append] at hsplit
    subst hsplit
    rw [List.length_cons] at hle hread
    obtain ⟨hlt, hcell, hread'⟩ := FlatFile.cell_of_read_eq_cons hle hread
    have hnat : c.position.toNat = F.offset s.world - (rest.length + 1) := by omega
    have hgetc : c.getc = ((b.toNat : ℤ), { c with position := c.position + 1 }) := by
      unfold Cursor.getc
      rw [hpushed]
      dsimp only
      rw [if_pos (by rw [hfile]; omega), hnat, hfile, hcell]
    rw [hgetc]
    refine ⟨_, htake, ?_⟩
    have hnext := hshow [] rest rfl (by omega) hread'
    rwa [← hpushed] at hnext
  | cons p pushed =>
    rw [hpushed, List.cons_append] at hsplit
    obtain ⟨rfl, hrest'⟩ := List.cons.inj hsplit
    have hgetc : c.getc =
        ((b.toNat : ℤ), { c with position := c.position + 1, pushed := pushed }) := by
      unfold Cursor.getc
      rw [hpushed]
    rw [hgetc]
    exact ⟨_, htake, hshow pushed ahead hrest' hle hread⟩

/-- Filling the empty buffer does not move the cursor; at the end of the file
there is nothing to fill it with. -/
theorem Shows.fillBuffer (h : Shows F s c) (hset : s.stream.flagBufferSet = true)
    (hdir : s.stream.flagDirectionRead = true) (hnil : s.stream.unread = []) :
    ∃ r t, fillBuffer K s = (r, t) ∧ t.stream.flagDirectionRead = true ∧
      (r = EOF ∧ c.getc = (EOF, c) ∧ Shows F t c ∨
       r = 0 ∧ t.stream.unread ≠ [] ∧ Shows F t c) := by
  have hdirW := h.notWriting hdir
  have hpending := h.pending_eq_nil hdirW
  have hnone := (FILE.pending_eq_nil_iff h.sound.toBounds).mp hpending
  have hpushed := h.pushed_eq_nil hnil
  have hfile := h.file_eq
  have hposition := h.position_eq
  rw [hpending, FlatFile.write_nil] at hfile
  rw [hpending, hnil, List.length_nil] at hposition
  obtain ⟨r, t, heq, hsound, _⟩ := fillBuffer_sound K h.sound hset
  refine ⟨r, t, heq, ?_⟩
  obtain ⟨len, hlen, hcases⟩ := fillBuffer_cases K h.sound hset
  obtain ⟨n, bytes, w, hread, hn, hbytes, hfileW, hoffsetW⟩ := F.read_spec len s.world hlen
  rw [h.fd_eq, hread] at hcases
  rcases hcases with ⟨_, hcall, _⟩ | ⟨_, _, hcall, hempty, hfill⟩ |
    ⟨_, _, buffer, stop, start, hne, hcall, hfill, hunread, _⟩
  · cases (Prod.mk.inj hcall).1
  · obtain ⟨hsome, rfl⟩ := Prod.mk.inj hcall
    obtain rfl := Option.some.inj hsome
    obtain ⟨rfl, rfl⟩ := Prod.mk.inj (hfill.symm.trans heq)
    rw [hempty] at hbytes hoffsetW
    refine ⟨hdir, Or.inl ⟨rfl, ?_, ?_⟩⟩
    · have hend : (F.file s.world).size ≤ F.offset s.world := by
        have hzero := congrArg List.length hbytes
        rw [FlatFile.length_read, List.length_nil] at hzero
        omega
      unfold Cursor.getc
      rw [hpushed]
      dsimp only
      rw [if_neg (by rw [hfile]; omega)]
    · exact h.of_eq hsound rfl rfl rfl rfl rfl hfileW hoffsetW
  · obtain ⟨hsome, rfl⟩ := Prod.mk.inj hcall
    obtain rfl := Option.some.inj hsome
    obtain ⟨rfl, rfl⟩ := Prod.mk.inj (hfill.symm.trans heq)
    refine ⟨hdir, Or.inr ⟨rfl, ?_, ?_⟩⟩
    · show (buffer.take stop).drop start ≠ []
      rw [hunread]
      exact hne
    · exact {
        sound := hsound
        fd_eq := h.fd_eq
        readable := h.readable
        canWrite := h.canWrite
        canSeek := h.canSeek
        canTell := h.canTell
        file_eq := by
          show c.file = (F.file w).write (F.offset w) (buffer.take s.stream.bufferedBytesWrite)
          rw [hnone, List.take_zero, FlatFile.write_nil, hfileW, hfile]
        position_eq := by
          show c.position = (F.offset w : ℤ) +
            (buffer.take s.stream.bufferedBytesWrite).length -
              ((buffer.take stop).drop start).length
          rw [hunread, hnone, List.take_zero, List.length_nil, hposition, hoffsetW]
          push_cast
          omega
        ahead := by
          refine ⟨bytes.val, ?_, ?_, ?_⟩
          · rw [hpushed]
            exact hunread
          · show bytes.val.length ≤ F.offset w
            omega
          · show (F.file w).read (F.offset w - bytes.val.length) bytes.val.length = _
            rw [hoffsetW, Nat.add_sub_cancel, hfileW, hbytes]
            exact FlatFile.read_length_self _ _ _
        writing := by
          intro hpend
          exfalso
          apply hpend
          show buffer.take s.stream.bufferedBytesWrite = []
          rw [hnone, List.take_zero]
        reading := fun _ => hdir
        oneWay := h.oneWay }

/-- A byte of the buffer, which is filled if necessary. -/
theorem Shows.readBuffered (h : Shows F s c) (hset : s.stream.flagBufferSet = true)
    (hdir : s.stream.flagDirectionRead = true) :
    ∃ t, readBuffered K s = some (c.getc.1, t) ∧ Shows F t c.getc.2 := by
  unfold Stdio.readBuffered
  by_cases hempty : s.stream.bufferedBytesReadOffset ≥ s.stream.bufferedBytesRead
  · have hnil := (FILE.unread_eq_nil_iff h.sound.toBounds).mpr hempty
    obtain ⟨r, t, hfill, hdirT, hres⟩ := h.fillBuffer hset hdir hnil
    rw [if_pos hempty, hfill]
    dsimp only
    rcases hres with ⟨rfl, hgetc, ht⟩ | ⟨rfl, hne, ht⟩
    · rw [if_pos rfl, hgetc]
      exact ⟨t, rfl, ht⟩
    · rw [if_neg zero_ne_EOF]
      exact ht.takeByte hdirT hne
  · rw [if_neg hempty]
    apply h.takeByte hdir
    intro hnil
    exact hempty ((FILE.unread_eq_nil_iff h.sound.toBounds).mp hnil)

/-- `fgetc` reads the next byte of the cursor. -/
theorem Shows.fgetc (h : Shows F s c) :
    ∃ t, fgetcUnlocked K s = some (c.getc.1, t) ∧ Shows F t c.getc.2 := by
  obtain ⟨s₁, hensure, h₁, hset₁, _⟩ := h.ensureBuffer
  obtain ⟨s₂, hflush, h₂, hdir₂, hpending₂, _, _, hset₂, _⟩ := h₁.fflushWrite
  have hmode := (h₁.sound.buffered hset₁).1
  have h₃ := h₂.turn (hset₂.trans hset₁) hdir₂ rfl s₂.stream.flagEof
  unfold fgetcUnlocked
  simp only [hensure, zero_ne_EOF, if_false, hmode]
  rw [ite_fflushWriteUnlocked, hflush]
  simp only [zero_ne_EOF, if_false]
  exact h₃.readBuffered (hset₂.trans hset₁) rfl

/-- The unread bytes after a byte has been put back in front of them. -/
theorem FILE.unread_putBack {f : FILE} (h : f.Bounds) (hoffset : f.bufferedBytesReadOffset ≠ 0)
    (b : UInt8) :
    ((f.buffer.set (f.bufferedBytesReadOffset - 1) b).take f.bufferedBytesRead).drop
      (f.bufferedBytesReadOffset - 1) = b :: f.unread := by
  have hle := h.offset_le
  have hread := h.read_le
  unfold bufferSize at hread
  have hcount : f.bufferedBytesRead - (f.bufferedBytesReadOffset - 1) =
      f.bufferedBytesRead - f.bufferedBytesReadOffset + 1 := by omega
  have hnext : f.bufferedBytesReadOffset - 1 + 1 = f.bufferedBytesReadOffset := by omega
  rw [set_eq_overwrite (by omega), List.drop_take, drop_overwrite (by omega), hcount]
  simp only [List.length_cons, List.length_nil, Nat.zero_add, List.cons_append,
    List.nil_append, List.take_succ_cons, hnext]
  rw [unread, List.drop_take]

/-- Moving the buffered bytes to the end of the buffer keeps them. -/
theorem FILE.unread_shiftRight {f : FILE} (h : f.Bounds)
    (hoffset : f.bufferedBytesReadOffset = 0) : (shiftRight f).unread = f.unread := by
  have hread := h.read_le
  unfold bufferSize at hread
  have hlen : (f.buffer.take f.bufferedBytesRead).length = f.bufferedBytesRead := by
    rw [List.length_take]
    omega
  have hblock := drop_take_overwrite (l := f.buffer)
    (Nat.sub_le f.buffer.length f.bufferedBytesRead) (f.buffer.take f.bufferedBytesRead)
  rw [hlen] at hblock
  simp only [unread, shiftRight, bufferSize, hoffset, Nat.sub_zero, List.drop_zero]
  exact hblock

/-- Storing a byte in front of the unread ones steps the cursor back. -/
theorem Shows.putBack (h : Shows F s c) (hset : s.stream.flagBufferSet = true)
    (hdir : s.stream.flagDirectionRead = true)
    (hoffset : s.stream.bufferedBytesReadOffset ≠ 0) (b : UInt8) :
    ∃ t, putBack b s = some ((b.toNat : ℤ), t) ∧ Shows F t (c.ungetc b) := by
  obtain ⟨r, t, hput, hsound⟩ := putBack_sound h.sound b hset
  have hunread := FILE.unread_putBack h.sound.toBounds hoffset b
  have hpending := h.pending_eq_nil (h.notWriting hdir)
  have hzero := (FILE.pending_eq_nil_iff h.sound.toBounds).mp hpending
  have hfile := h.file_eq
  have hposition := h.position_eq
  rw [hpending, FlatFile.write_nil] at hfile
  rw [hpending, List.length_nil] at hposition
  have heq := hput
  unfold Stdio.putBack at heq
  dsimp only at heq
  split at heq
  · obtain ⟨rfl, rfl⟩ := Prod.mk.inj (Option.some.inj heq)
    refine ⟨_, hput, ?_⟩
    exact {
      sound := hsound
      fd_eq := h.fd_eq
      readable := h.readable
      canWrite := h.canWrite
      canSeek := h.canSeek
      canTell := h.canTell
      file_eq := by
        show c.file = (F.file s.world).write (F.offset s.world)
          ((s.stream.buffer.set _ b).take s.stream.bufferedBytesWrite)
        rw [hzero, List.take_zero, FlatFile.write_nil, hfile]
      position_eq := by
        show c.position - 1 = (F.offset s.world : ℤ) +
          ((s.stream.buffer.set _ b).take s.stream.bufferedBytesWrite).length -
          (((s.stream.buffer.set (s.stream.bufferedBytesReadOffset - 1) b).take
            s.stream.bufferedBytesRead).drop (s.stream.bufferedBytesReadOffset - 1)).length
        rw [hzero, List.take_zero, List.length_nil, hunread, List.length_cons, hposition]
        push_cast
        omega
      ahead := by
        obtain ⟨ahead, hsplit, hle, hread⟩ := h.ahead
        refine ⟨ahead, ?_, hle, hread⟩
        show _ = (b :: c.pushed) ++ ahead
        rw [List.cons_append, ← hsplit]
        exact hunread
      writing := by
        intro hne
        exfalso
        apply hne
        show (s.stream.buffer.set _ b).take s.stream.bufferedBytesWrite = []
        rw [hzero, List.take_zero]
      reading := fun _ => hdir
      oneWay := h.oneWay }
  · cases heq

/-- A buffer full of unread bytes refuses another one; otherwise there is room
before them, or room is made. -/
theorem Shows.unreadBuffered (h : Shows F s c) (hset : s.stream.flagBufferSet = true)
    (hdir : s.stream.flagDirectionRead = true) (b : UInt8) :
    ∃ t, unreadBuffered b s = some (if s.stream.Full then EOF else (b.toNat : ℤ), t) ∧
      Shows F t (if s.stream.Full then c else c.ungetc b) := by
  have hbounds := h.sound.toBounds
  have hlen := FILE.length_unread hbounds
  have hread := hbounds.read_le
  have hle := hbounds.offset_le
  unfold Stdio.unreadBuffered
  by_cases hoffset : s.stream.bufferedBytesReadOffset = 0
  · rw [if_pos hoffset]
    by_cases hfull : s.stream.Full
    · have hlength := hfull.2
      rw [if_pos hfull, if_pos hfull, if_pos (by omega)]
      exact ⟨s, rfl, h⟩
    · have hroom : s.stream.unread.length ≠ s.stream.bufferSize := fun heq => hfull ⟨hset, heq⟩
      rw [if_neg hfull, if_neg hfull, if_neg (by omega)]
      have hshift : Shows F ({ s with stream := shiftRight s.stream } : State W) c := by
        have hunread := FILE.unread_shiftRight hbounds hoffset
        have hpending := h.pending_eq_nil (h.notWriting hdir)
        have hpending' : (shiftRight s.stream).pending = s.stream.pending := by
          rw [hpending]
          show (shiftRight s.stream).buffer.take s.stream.bufferedBytesWrite = []
          rw [(FILE.pending_eq_nil_iff hbounds).mp hpending, List.take_zero]
        exact h.of_eq (shiftRight_sound h.sound hset) rfl hpending' hunread rfl rfl rfl rfl
      apply hshift.putBack hset hdir
      show s.stream.bufferSize - (s.stream.bufferedBytesRead -
        s.stream.bufferedBytesReadOffset) ≠ 0
      omega
  · have hfull : ¬ s.stream.Full := by
      rintro ⟨_, hlength⟩
      omega
    rw [if_neg hoffset, if_neg hfull, if_neg hfull]
    exact h.putBack hset hdir hoffset b

/-- `ungetc` steps the cursor back, unless the buffer is full of unread bytes or
the byte is EOF. -/
theorem Shows.ungetc (h : Shows F s c) (byte : ℤ) :
    ∃ t, fungetcUnlocked K byte s =
        some (if byte = EOF ∨ s.stream.Full then EOF else ((toByte byte).toNat : ℤ), t) ∧
      Shows F t (if byte = EOF ∨ s.stream.Full then c else c.ungetc (toByte byte)) := by
  obtain ⟨s₁, hensure, h₁, hset₁, _, hsame, hfresh, _⟩ := h.ensureBuffer
  obtain ⟨s₂, hflush, h₂, hdir₂, _, hunread₂, hbuffer₂, hset₂, _⟩ := h₁.fflushWrite
  have hmode := (h₁.sound.buffered hset₁).1
  have h₃ := h₂.turn (hset₂.trans hset₁) hdir₂ hdir₂ false
  have hfull₁ : s₁.stream.Full ↔ s.stream.Full := by
    cases hset : s.stream.flagBufferSet with
    | true => rw [hsame hset]
    | false =>
      constructor
      · rintro ⟨_, hlength⟩
        have hpos := (h₁.sound.buffered hset₁).2
        rw [hfresh hset, List.length_nil] at hlength
        omega
      · rintro ⟨hc, _⟩
        simp [hset] at hc
  have hfull₂ : s₂.stream.Full ↔ s.stream.Full := by
    rw [← hfull₁]
    unfold FILE.Full FILE.bufferSize
    rw [hset₂, hunread₂, hbuffer₂]
  unfold fungetcUnlocked
  simp only [hensure, zero_ne_EOF, if_false, hmode]
  rw [ite_fflushWriteUnlocked, hflush]
  simp only [zero_ne_EOF, if_false]
  by_cases hbyte : byte = EOF
  · simp only [hbyte, true_or, if_true]
    exact ⟨_, rfl, h₃⟩
  · obtain ⟨t, hunget, ht⟩ := h₃.unreadBuffered (hset₂.trans hset₁) rfl (toByte byte)
    have hfull₃ : ({ s₂.stream with
        flagDirectionRead := true, flagEof := false } : FILE).Full ↔ s.stream.Full := hfull₂
    simp only [hbyte, false_or, if_false]
    simp only [hfull₃] at hunget ht
    exact ⟨t, hunget, ht⟩

/-- Making room for a byte: nothing is read ahead any more, and the buffer is
not full. -/
theorem Shows.makeRoom (h : Shows F s c) (hset : s.stream.flagBufferSet = true)
    (hsafe : Restorable F s) :
    ∃ t, makeRoom K s = (0, t) ∧ Shows F t c.settle ∧ t.stream.flagBufferSet = true ∧
      t.stream.flagDirectionRead = false ∧
      t.stream.bufferedBytesWrite < t.stream.bufferSize := by
  obtain ⟨s₁, hread, h₁, hdir₁, _, _, hset₁, _⟩ := h.fflushRead hsafe
  have hle := h₁.sound.write_le
  unfold Stdio.makeRoom
  rw [ite_fflushReadUnlocked, hread]
  dsimp only
  rw [if_neg zero_ne_EOF]
  by_cases hfull : s₁.stream.bufferedBytesWrite = s₁.stream.bufferSize
  · obtain ⟨s₂, hwrite, h₂, _, hpending, _, _, hset₂, _, hdir₂⟩ := h₁.fflushWrite
    have hset' : s₂.stream.flagBufferSet = true := hset₂.trans (hset₁.trans hset)
    have hpos := (h₂.sound.buffered hset').2
    have hzero := (FILE.pending_eq_nil_iff h₂.sound.toBounds).mp hpending
    rw [if_pos hfull, hwrite]
    dsimp only
    rw [if_neg zero_ne_EOF]
    exact ⟨s₂, rfl, h₂, hset', hdir₂.trans hdir₁, by omega⟩
  · rw [if_neg hfull]
    exact ⟨s₁, rfl, h₁, hset₁.trans hset, hdir₁, by omega⟩

@[simp] theorem Cursor.settle_settle (c : Cursor) : c.settle.settle = c.settle := by
  simp [Cursor.settle]

theorem Cursor.putc_settle (c : Cursor) (b : UInt8) : c.settle.putc b = c.putc b := by
  unfold Cursor.putc
  rw [Cursor.settle_settle]
  rfl

/-- Storing a byte overwrites the file at the cursor. -/
theorem Shows.storeByte (h : Shows F s c) (hset : s.stream.flagBufferSet = true)
    (hdir : s.stream.flagDirectionRead = false) (hmode : s.stream.mode.write = true)
    (hroom : s.stream.bufferedBytesWrite < s.stream.bufferSize) (b : UInt8) :
    ∃ t, storeByte b s = some t ∧ Shows F t (c.putc b) ∧ t.stream.flagBufferSet = true := by
  obtain ⟨t, hstore, hsound, hset', hdir'⟩ := storeByte_sound h.sound b hset hroom
  have hunread := h.unread_eq_nil hdir
  have hpending := storeByte_pending hstore
  have hposition := h.position_eq
  rw [hunread, List.length_nil] at hposition
  have hnat : c.position.toNat = F.offset s.world + s.stream.pending.length := by omega
  refine ⟨t, hstore, ?_, hset'⟩
  have heq := hstore
  unfold Stdio.storeByte at heq
  rw [if_pos hroom] at heq
  obtain rfl := Option.some.inj heq
  have hempty : ((s.stream.buffer.set s.stream.bufferedBytesWrite b).take
      s.stream.bufferedBytesRead).drop s.stream.bufferedBytesReadOffset = [] := by
    have hle := (FILE.unread_eq_nil_iff h.sound.toBounds).mp hunread
    apply List.drop_eq_nil_of_le
    rw [List.length_take]
    omega
  exact {
    sound := hsound
    fd_eq := h.fd_eq
    readable := h.readable
    canWrite := h.canWrite
    canSeek := h.canSeek
    canTell := h.canTell
    file_eq := by
      rw [hpending]
      show c.file.write c.settle.position.toNat [b] = _
      rw [h.settle_eq hunread, hnat, h.file_eq, FlatFile.write_write]
    position_eq := by
      rw [hpending]
      show c.settle.position + 1 = (F.offset s.world : ℤ) + (s.stream.pending ++ [b]).length -
        (((s.stream.buffer.set s.stream.bufferedBytesWrite b).take
          s.stream.bufferedBytesRead).drop s.stream.bufferedBytesReadOffset).length
      rw [hempty, h.settle_eq hunread, hposition, List.length_append, List.length_nil,
        List.length_singleton]
      push_cast
      omega
    ahead := ⟨[], hempty, Nat.zero_le _, FlatFile.read_zero _ _⟩
    writing := fun _ => rfl
    reading := fun hne => absurd hempty hne
    oneWay := fun _ => ⟨rfl, hmode⟩ }

/-- `fputc` overwrites the file at the cursor after it has settled. -/
theorem Shows.fputc (h : Shows F s c) (hmode : s.stream.mode.write = true)
    (hsafe : Restorable F s) (byte : ℤ) :
    ∃ t, fputcUnlocked K byte s = some (((toByte byte).toNat : ℤ), t) ∧
      Shows F t (c.putc (toByte byte)) := by
  obtain ⟨s₁, hensure, h₁, hset₁, _, _, _, hsafe₁⟩ := h.ensureBuffer
  obtain ⟨s₂, hroom, h₂, hset₂, hdir₂, hlt⟩ := h₁.makeRoom hset₁ (hsafe₁ hsafe)
  have hhandle : s₂.stream.handle = s.stream.handle := by
    have hmake := FILE.handle_of_record (makeRoom_record K s₁)
    have hget := FILE.handle_of_record (ensureBuffer_record K s)
    rw [hroom] at hmake
    rw [hensure] at hget
    exact hmake.trans hget
  have hmode₂ : s₂.stream.mode.write = true := by
    rw [FILE.mode_eq hhandle]
    exact hmode
  obtain ⟨s₃, hstore, h₃, hset₃⟩ := h₂.storeByte hset₂ hdir₂ hmode₂ hlt (toByte byte)
  rw [Cursor.putc_settle] at h₃
  unfold fputcUnlocked
  simp only [hensure, zero_ne_EOF, if_false, (h₁.sound.buffered hset₁).1, hroom, hstore]
  by_cases hline : s₃.stream.bufferMode = .iolbf ∧ toByte byte = newline
  · obtain ⟨s₄, hflush, h₄, _⟩ := h₃.fflushWrite
    rw [if_pos hline, hflush]
    dsimp only
    rw [if_neg zero_ne_EOF]
    exact ⟨s₄, rfl, h₄⟩
  · rw [if_neg hline]
    exact ⟨s₃, rfl, h₃⟩

/-- The loops of `fread` are the ones of the cursor. -/
theorem Shows.freadLoop (h : Shows F s c) {size nmemb left : ℕ} (hsize : 0 < size)
    {bytes : List UInt8} (htotal : bytes.length + left = size * nmemb) :
    ∃ t, freadLoop K size nmemb left bytes s =
        some ((c.getBytes left bytes).1.length / size, (c.getBytes left bytes).1, t) ∧
      Shows F t (c.getBytes left bytes).2 := by
  induction left generalizing bytes s c with
  | zero =>
    rw [Nat.add_zero] at htotal
    refine ⟨s, ?_, h⟩
    show some (nmemb, bytes, s) = some (bytes.length / size, bytes, s)
    rw [htotal, Nat.mul_div_cancel_left _ hsize]
  | succ left ih =>
    obtain ⟨t, hgetc, ht⟩ := h.fgetc
    unfold Stdio.freadLoop Cursor.getBytes
    simp only [hgetc]
    by_cases hend : c.getc.1 = EOF
    · rw [if_pos hend, if_pos hend]
      exact ⟨t, rfl, ht⟩
    · rw [if_neg hend, if_neg hend]
      apply ih ht
      rw [List.length_append, List.length_singleton]
      omega

/-- `fread` reads from the cursor until the file ends. -/
theorem Shows.fread (h : Shows F s c) (size nmemb : ℕ) :
    ∃ t, freadUnlocked K size nmemb s =
        some ((c.getBytes (size * nmemb) []).1.length / size,
          (c.getBytes (size * nmemb) []).1, t) ∧
      Shows F t (c.getBytes (size * nmemb) []).2 := by
  unfold freadUnlocked
  by_cases hzero : size = 0 ∨ nmemb = 0
  · have hmul : size * nmemb = 0 := Nat.mul_eq_zero.mpr hzero
    rw [if_pos hzero, hmul]
    exact ⟨s, by simp [Cursor.getBytes], h⟩
  · obtain ⟨t, hensure, ht, hset, _⟩ := h.ensureBuffer
    rw [if_neg hzero, if_neg (by simp [h.readable]), hensure]
    simp only [zero_ne_EOF, if_false, (ht.sound.buffered hset).1]
    exact ht.freadLoop (by omega) (by simp)

/-- Nothing is in the buffer, neither to be read nor to be written. -/
def FILE.Emptied (f : FILE) : Prop := f.unread = [] ∧ f.pending = []

instance (f : FILE) : Decidable f.Emptied := by
  unfold FILE.Emptied
  infer_instance

/-- With an empty buffer the cursor is where the kernel is. -/
theorem Shows.position_of_emptied (h : Shows F s c) (hempty : s.stream.Emptied) :
    c.position = F.offset s.world := by
  rw [h.position_eq, hempty.1, hempty.2]
  simp

theorem Shows.file_of_emptied (h : Shows F s c) (hempty : s.stream.Emptied) :
    c.file = F.file s.world := by
  rw [h.file_eq, hempty.2, FlatFile.write_nil]

/-- With an empty buffer the cursor follows the kernel's offset. -/
theorem Shows.moved (h : Shows F s c) (hempty : s.stream.Emptied) {w : W} {target : ℤ}
    (htarget : 0 ≤ target) (hfile : F.file w = F.file s.world)
    (hoffset : F.offset w = target.toNat) : Shows F { s with world := w } (c.moveTo target) where
  sound := h.sound
  fd_eq := h.fd_eq
  readable := h.readable
  canWrite := h.canWrite
  canSeek := h.canSeek
  canTell := h.canTell
  file_eq := by
    show c.file = (F.file w).write (F.offset w) s.stream.pending
    rw [hempty.2, FlatFile.write_nil, hfile, h.file_of_emptied hempty]
  position_eq := by
    show target = (F.offset w : ℤ) + s.stream.pending.length - s.stream.unread.length
    rw [hempty.1, hempty.2, hoffset, List.length_nil]
    omega
  ahead := ⟨[], hempty.1, Nat.zero_le _, FlatFile.read_zero _ _⟩
  writing := h.writing
  reading := h.reading
  oneWay := h.oneWay

end Heartix.Stdio
