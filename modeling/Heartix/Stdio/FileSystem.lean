import Heartix.Lib.FileTable
import Heartix.Stdio.Cursor
import Heartix.Stdio.Fclose

/-!
Streams over the files of a kernel. The kernel may transfer as little as it
likes and fail whenever it likes; what it reports is what happened. An output
stream has then put into its file exactly the bytes accepted, and an input
stream has delivered the bytes of its file up to those it still holds.
-/

namespace Heartix.Stdio

open PartialTransfer Overwrite FileTable

variable {W : Type}

/-- The files behind the descriptors of a kernel, and what its calls do to them. -/
structure FileSystem (K : Kernel W) where
  table : W → FileTable String ℤ UInt8
  write_none : ∀ fd bytes w w', K.write fd bytes w = (none, w') → table w' = table w
  write_some : ∀ fd bytes w n w', K.write fd bytes w = (some n, w') →
    table w' = (table w).write fd (bytes.take n)
  read_none : ∀ fd len w w', K.read fd len w = (none, w') → table w' = table w
  read_some : ∀ fd len w bytes w', K.read fd len w = (some bytes, w') →
    table w' = (table w).advance fd bytes.val.length
  read_bytes : ∀ fd len w bytes w' name offset, K.read fd len w = (some bytes, w') → 0 < len →
    (table w).position fd = some (name, offset) →
    ∃ n, 0 < n ∧ bytes.val = ((table w).content name).read offset n
  lseek_spec : ∀ fd distance whence w, ∃ offset,
    table (K.lseek fd distance whence w).2 = (table w).moveTo fd offset
  close_spec : ∀ fd w, table (K.close fd w).2 = table w ∨
    table (K.close fd w).2 = (table w).close fd
  openFile_none : ∀ name flags w w', K.openFile name flags w = (-1, w') → table w' = table w
  openFile_some : ∀ name flags w fd w', K.openFile name flags w = (fd, w') → fd ≠ -1 →
    (table w).position fd = none ∧ table w' = (table w).openAt fd name flags.truncate
  malloc_spec : ∀ len w, table (K.malloc len w).2 = table w
  free_spec : ∀ address w, table (K.free address w) = table w
  mutexInitialize_spec : ∀ w, table (K.mutexInitialize w).2 = table w

namespace FileSystem

variable {K : Kernel W} {D : FileSystem K} {name : String} {t₀ : FileTable String ℤ UInt8}
  {s t : State W}

/-- The stream is open at the end of the file `name`, which holds the bytes it
has written and no others. The rest is as it was in `t₀`. -/
structure Output (D : FileSystem K) (name : String) (t₀ : FileTable String ℤ UInt8)
    (s : State W) : Prop where
  position : (D.table s.world).position s.stream.fileDescriptor =
    some (name, s.stream.accepted.length)
  content : (D.table s.world).content name = FlatFile.ofList s.stream.accepted
  others : SameExcept name s.stream.fileDescriptor t₀ (D.table s.world)

/-- The stream has delivered the bytes `given` of the file `name` and holds the
next ones up to the offset. Every file is as it was in `t₀`. -/
structure Input (D : FileSystem K) (name : String) (t₀ : FileTable String ℤ UInt8)
    (given : List UInt8) (s : State W) : Prop where
  position : ∃ offset, (D.table s.world).position s.stream.fileDescriptor = some (name, offset) ∧
    given ++ s.stream.unread = (t₀.content name).read 0 offset
  content : (D.table s.world).content = t₀.content
  others : SameExcept name s.stream.fileDescriptor t₀ (D.table s.world)
  sound : s.stream.Sound
  readable : s.stream.mode.read = true
  notWriting : s.stream.flagDirectionWrite = false

theorem setvbufUnlocked_table (D : FileSystem K) (buf : Option (ℕ × List UInt8))
    (mode : BufferMode) (size : ℕ) (s : State W) :
    D.table (setvbufUnlocked K buf mode size s).2.world = D.table s.world := by
  have hrelease : D.table (releaseBuffer K s).world = D.table s.world := by
    unfold releaseBuffer
    split
    · exact D.free_spec _ _
    · rfl
  unfold setvbufUnlocked
  dsimp only
  cases buf with
  | some memory => exact hrelease
  | none =>
    dsimp only
    generalize (if size = 0 then BUFSIZ
      else if size < BUFSIZMIN then BUFSIZMIN else size) = len
    have hmalloc := D.malloc_spec len (releaseBuffer K s).world
    generalize K.malloc len (releaseBuffer K s).world = result at hmalloc ⊢
    obtain ⟨_ | memory, w⟩ := result
    · exact hmalloc.trans hrelease
    · exact hmalloc.trans hrelease

theorem ensureBuffer_table (D : FileSystem K) {r : ℤ} (heq : ensureBuffer K s = (r, t)) :
    D.table t.world = D.table s.world := by
  unfold ensureBuffer at heq
  split at heq
  · obtain ⟨-, rfl⟩ := Prod.mk.inj heq
    rfl
  · unfold setdefbufUnlocked at heq
    have hfirst := D.setvbufUnlocked_table none .iofbf BUFSIZ s
    generalize setvbufUnlocked K none .iofbf BUFSIZ s = result at heq hfirst
    obtain ⟨r₁, s₁⟩ := result
    dsimp only at heq hfirst
    have hsecond := D.setvbufUnlocked_table none .iofbf BUFSIZ s₁
    generalize setvbufUnlocked K none .iofbf BUFSIZ s₁ = result at heq hsecond
    obtain ⟨r₂, s₂⟩ := result
    dsimp only at heq hsecond
    split at heq
    · obtain ⟨-, rfl⟩ := Prod.mk.inj heq
      exact hfirst
    · split at heq
      · obtain ⟨-, rfl⟩ := Prod.mk.inj heq
        exact hsecond.trans hfirst
      · obtain ⟨-, rfl⟩ := Prod.mk.inj heq
        exact hsecond.trans hfirst

/-- A read flush only moves the offset of its descriptor. -/
theorem fflushReadUnlocked_table (D : FileSystem K) (name : String) (s : State W) :
    SameExcept name s.stream.fileDescriptor (D.table s.world)
      (D.table (fflushReadUnlocked K s).2.world) := by
  have hseek : ∀ (offset : ℤ) (whence : Whence) (s : State W),
      SameExcept name s.stream.fileDescriptor (D.table s.world)
        (D.table (implSeek K offset whence s).2.world) ∧
      (implSeek K offset whence s).2.stream = s.stream := by
    intro offset whence s
    obtain ⟨moved, hmoved⟩ := D.lseek_spec s.stream.fileDescriptor offset whence s.world
    refine ⟨?_, rfl⟩
    show SameExcept name _ _ (D.table (K.lseek s.stream.fileDescriptor offset whence s.world).2)
    rw [hmoved]
    exact sameExcept_moveTo _ _ _ _
  have hrestore : ∀ (current : ℤ) (s : State W),
      SameExcept name s.stream.fileDescriptor (D.table s.world)
        (D.table (restorePosition K current s).world) := by
    intro current s
    unfold restorePosition
    split
    · dsimp only
      generalize (if current < _ then (0 : ℤ) else _) = restored
      obtain ⟨hsame, _⟩ := hseek restored .seekSet s
      generalize implSeek K restored .seekSet s = result at hsame ⊢
      obtain ⟨r, u⟩ := result
      dsimp only at hsame ⊢
      split
      · exact hsame
      · exact hsame
    · exact .refl _
  unfold fflushReadUnlocked
  split
  · exact .refl _
  · split
    · exact .refl _
    · have hcurrent : ∀ result : ℤ × State W,
          (if s.stream.implSeek = true then implSeek K 0 .seekCur s else (-1, s)) = result →
          SameExcept name s.stream.fileDescriptor (D.table s.world) (D.table result.2.world) ∧
          result.2.stream = s.stream := by
        intro result hresult
        split at hresult
        · rw [← hresult]
          exact hseek 0 .seekCur s
        · rw [← hresult]
          exact ⟨.refl _, rfl⟩
      generalize (if s.stream.implSeek = true then implSeek K 0 .seekCur s else (-1, s)) =
        result at hcurrent ⊢
      obtain ⟨current, u⟩ := result
      obtain ⟨hsame, hstream⟩ := hcurrent _ rfl
      have hmoved := hrestore current u
      dsimp only at hsame hstream ⊢
      rw [hstream] at hmoved
      exact hsame.trans hmoved

namespace Output

theorem of_eq (h : D.Output name t₀ s)
    (hfd : t.stream.fileDescriptor = s.stream.fileDescriptor)
    (hwrites : t.stream.writes = s.stream.writes)
    (htable : D.table t.world = D.table s.world) : D.Output name t₀ t where
  position := by rw [htable, hfd, FILE.accepted, hwrites]; exact h.position
  content := by rw [htable, FILE.accepted, hwrites]; exact h.content
  others := by rw [htable, hfd]; exact h.others

/-- A call of `impl_write` appends to the file what it accepts. -/
theorem implWrite (h : D.Output name t₀ s) {done : ℕ} {bytes : List UInt8} {n : Option ℕ}
    (heq : Stdio.implWrite K done bytes s = (n, t)) : D.Output name t₀ t := by
  unfold Stdio.implWrite at heq
  rcases hcall : K.write s.stream.fileDescriptor bytes s.world with ⟨_ | k, w⟩
  · rw [hcall] at heq
    obtain ⟨-, rfl⟩ := Prod.mk.inj heq
    have htable := D.write_none _ _ _ _ hcall
    have haccepted : s.stream.accepted ++ takenOf [⟨done, ([] : List UInt8)⟩] =
        s.stream.accepted := List.append_nil _
    constructor
    · rw [FILE.accepted_of_writes rfl, haccepted, htable]
      exact h.position
    · rw [FILE.accepted_of_writes rfl, haccepted, htable]
      exact h.content
    · rw [htable]
      exact h.others
  · rw [hcall] at heq
    obtain ⟨-, rfl⟩ := Prod.mk.inj heq
    have htable := D.write_some _ _ _ _ _ hcall
    have haccepted : takenOf [⟨done, bytes.take k⟩] = bytes.take k := List.append_nil _
    constructor
    · rw [FILE.accepted_of_writes rfl, haccepted, htable, List.length_append]
      exact position_write h.position _
    · rw [FILE.accepted_of_writes rfl, haccepted, htable]
      exact content_write_end h.position h.content _
    · rw [htable]
      exact h.others.trans (sameExcept_write h.position _)

theorem writeLoop (h : D.Output name t₀ s) {done : ℕ} {rest left : List UInt8} {r : ℤ}
    (heq : Stdio.writeLoop K done rest s = (r, left, t)) : D.Output name t₀ t := by
  induction hlen : rest.length using Nat.strong_induction_on generalizing done rest s with
  | h n ih =>
    subst hlen
    unfold Stdio.writeLoop at heq
    by_cases hrest : rest = []
    · rw [dif_pos hrest] at heq
      obtain ⟨-, -, rfl⟩ := by simpa using heq
      exact h
    · rw [dif_neg hrest] at heq
      rcases hcall : Stdio.implWrite K done rest s with ⟨_ | _ | k, u⟩
      · simp only [hcall, Prod.mk.injEq] at heq
        obtain ⟨-, -, rfl⟩ := heq
        exact (h.implWrite hcall).of_eq rfl rfl rfl
      · simp only [hcall, Prod.mk.injEq] at heq
        obtain ⟨-, -, rfl⟩ := heq
        exact (h.implWrite hcall).of_eq rfl rfl rfl
      · simp only [hcall] at heq
        have hpos := List.length_pos_of_ne_nil hrest
        exact ih _ (by rw [List.length_drop]; omega) (h.implWrite hcall) heq rfl

theorem fflushWriteUnlocked (h : D.Output name t₀ s) {r : ℤ}
    (heq : Stdio.fflushWriteUnlocked K s = (r, t)) : D.Output name t₀ t := by
  unfold Stdio.fflushWriteUnlocked at heq
  split at heq
  · obtain ⟨-, rfl⟩ := Prod.mk.inj heq
    exact h
  · split at heq
    · obtain ⟨-, rfl⟩ := Prod.mk.inj heq
      exact h.of_eq rfl rfl rfl
    · split at heq
      · obtain ⟨-, rfl⟩ := Prod.mk.inj heq
        exact h.of_eq rfl rfl rfl
      · rcases hloop : Stdio.writeLoop K 0 s.stream.pending s with ⟨res, rest, u⟩
        simp only [hloop] at heq
        obtain ⟨-, rfl⟩ := Prod.mk.inj heq
        exact (h.writeLoop hloop).of_eq rfl rfl rfl

theorem ensureBuffer (h : D.Output name t₀ s) {r : ℤ}
    (heq : Stdio.ensureBuffer K s = (r, t)) : D.Output name t₀ t := by
  have htable := D.ensureBuffer_table heq
  rcases ensureBuffer_cases K s with
    ⟨_, hcase⟩ | ⟨_, _, hcase⟩ | ⟨_, _, _, _, _, hcase⟩
  · obtain ⟨-, rfl⟩ := Prod.mk.inj (hcase.symm.trans heq)
    exact h
  · obtain ⟨-, rfl⟩ := Prod.mk.inj (hcase.symm.trans heq)
    exact h.of_eq rfl rfl htable
  · obtain ⟨-, rfl⟩ := Prod.mk.inj (hcase.symm.trans heq)
    exact h.of_eq rfl rfl htable

theorem makingRoom (h : D.Output name t₀ s) (hdir : s.stream.flagDirectionRead = false) {r : ℤ}
    (hroom : MakingRoom K s r t) : D.Output name t₀ t := by
  have hskip := fflushReadUnlocked_notReading K hdir
  cases hroom with
  | denied hread =>
    obtain ⟨-, rfl⟩ := Prod.mk.inj (hskip.symm.trans hread)
    exact h
  | free hread _ =>
    obtain ⟨-, rfl⟩ := Prod.mk.inj (hskip.symm.trans hread)
    exact h
  | flushed hread _ hwrite =>
    obtain ⟨-, rfl⟩ := Prod.mk.inj (hskip.symm.trans hread)
    exact h.fflushWriteUnlocked hwrite

theorem storeByte (h : D.Output name t₀ s) {c8 : UInt8}
    (heq : Stdio.storeByte c8 s = some t) : D.Output name t₀ t := by
  unfold Stdio.storeByte at heq
  split at heq
  · obtain rfl := Option.some.inj heq
    exact h.of_eq rfl rfl rfl
  · cases heq

/-- `fputc` on a stream that has not been read from. -/
theorem fputcUnlocked (h : D.Output name t₀ s) (hs : s.stream.Sound)
    (hdir : s.stream.flagDirectionRead = false) {c r : ℤ}
    (heq : Stdio.fputcUnlocked K c s = some (r, t)) : D.Output name t₀ t := by
  have hensured : ∀ {r : ℤ} {u : State W}, Stdio.ensureBuffer K s = (r, u) →
      D.Output name t₀ u ∧ u.stream.flagDirectionRead = false := by
    intro r u hensure
    refine ⟨h.ensureBuffer hensure, ?_⟩
    rcases ensureBuffer_cases K s with
      ⟨_, hcase⟩ | ⟨_, _, hcase⟩ | ⟨_, _, _, _, _, hcase⟩
    · obtain ⟨-, rfl⟩ := Prod.mk.inj (hcase.symm.trans hensure)
      exact hdir
    · obtain ⟨-, rfl⟩ := Prod.mk.inj (hcase.symm.trans hensure)
      exact hdir
    · obtain ⟨-, rfl⟩ := Prod.mk.inj (hcase.symm.trans hensure)
      exact hdir
  cases fputcUnlocked_putting K (fun hset => (hs.buffered hset).1) heq with
  | noBuffer hensure => exact (hensured hensure).1
  | noRoom hensure hroom =>
    obtain ⟨hout, hdir'⟩ := hensured hensure
    exact hout.makingRoom hdir' hroom
  | stored hensure hroom hstore =>
    obtain ⟨hout, hdir'⟩ := hensured hensure
    exact (hout.makingRoom hdir' hroom).storeByte hstore
  | flushed hensure hroom hstore hflush =>
    obtain ⟨hout, hdir'⟩ := hensured hensure
    exact ((hout.makingRoom hdir' hroom).storeByte hstore).fflushWriteUnlocked hflush

end Output

/-- A buffered output stream to which no write has been refused; its user has
written the bytes `sent`. -/
structure Sending (D : FileSystem K) (name : String) (t₀ : FileTable String ℤ UInt8)
    (mode : ModeFlags) (sent : List UInt8) (s : State W) : Prop extends D.Output name t₀ s where
  sound : s.stream.Sound
  live : s.stream.Live mode
  kept : s.stream.Kept
  stored : s.stream.stored = sent

namespace Sending

variable {mode : ModeFlags} {sent : List UInt8}

/-- Step lemma: a byte that `fputc` takes is sent. -/
theorem fputcUnlocked (h : D.Sending name t₀ mode sent s) {c r : ℤ}
    (heq : Stdio.fputcUnlocked K c s = some (r, t)) (hr : r ≠ EOF) :
    D.Sending name t₀ mode (sent ++ [toByte c]) t where
  toOutput := h.toOutput.fputcUnlocked h.sound h.kept.notReading heq
  sound := fputcUnlocked_sound_of_some K h.sound heq
  live := (fputcUnlocked_live K h.sound h.live heq).resolve_right fun hst => hr hst.1
  kept := fputcUnlocked_kept K h.sound h.kept heq
  stored := by
    obtain ⟨l, hstored, hl⟩ := fputcUnlocked_stored K h.sound heq
    rw [hstored, h.stored, hl.resolve_left hr]

/-- The loop of `fwrite` sends every byte or reports fewer. -/
theorem fwriteLoop (h : D.Sending name t₀ mode sent s) {ptr : List UInt8} {done n : ℕ}
    (heq : Stdio.fwriteLoop K 1 (done + ptr.length) done ptr s = some (n, t))
    (hn : n = done + ptr.length) : D.Sending name t₀ mode (sent ++ ptr) t := by
  induction ptr generalizing done s sent with
  | nil =>
    obtain ⟨-, rfl⟩ := Prod.mk.inj (Option.some.inj heq)
    rwa [List.append_nil]
  | cons b ptr ih =>
    unfold Stdio.fwriteLoop at heq
    rcases hput : Stdio.fputcUnlocked K b.toNat s with _ | ⟨r, u⟩
    · simp [hput] at heq
    · simp only [hput] at heq
      rw [List.length_cons] at heq hn
      by_cases hr : r = EOF
      · rw [if_pos hr] at heq
        obtain ⟨hdone, -⟩ := Prod.mk.inj (Option.some.inj heq)
        rw [Nat.div_one] at hdone
        omega
      · rw [if_neg hr] at heq
        have hnext := h.fputcUnlocked hput hr
        have htotal : done + (ptr.length + 1) = done + 1 + ptr.length := by omega
        rw [htotal] at heq
        have hrest := ih hnext heq (by omega)
        rwa [toByte_toNat, List.append_assoc] at hrest

/-- `fwrite` of a block of bytes sends them all or reports another number. -/
theorem fwriteUnlocked (h : D.Sending name t₀ mode sent s) {ptr : List UInt8} {n : ℕ}
    (hlen : ptr.length < SIZE_MAX)
    (heq : Stdio.fwriteUnlocked K ptr 1 ptr.length s = some (n, t)) (hn : n = ptr.length) :
    D.Sending name t₀ mode (sent ++ ptr) t := by
  unfold Stdio.fwriteUnlocked at heq
  by_cases hzero : 1 = 0 ∨ ptr.length = 0
  · rw [if_pos hzero] at heq
    obtain ⟨-, rfl⟩ := Prod.mk.inj (Option.some.inj heq)
    have hnil : ptr = [] := List.length_eq_zero_iff.mp (hzero.resolve_left (by decide))
    rwa [hnil, List.append_nil]
  · rw [if_neg hzero, if_neg (by simp [h.kept.writable])] at heq
    obtain ⟨r, u, hensure, hu, hres⟩ := ensureBuffer_sound K h.sound
    simp only [hensure] at heq
    rcases hres with ⟨rfl, _, _⟩ | ⟨rfl, hset, _, _⟩
    · rw [if_pos rfl] at heq
      obtain ⟨hmax, -⟩ := Prod.mk.inj (Option.some.inj heq)
      omega
    · rw [if_neg zero_ne_EOF, if_neg (hu.buffered hset).1] at heq
      have hready : D.Sending name t₀ mode sent u :=
        { toOutput := h.toOutput.ensureBuffer hensure
          sound := hu
          live := ensureBuffer_live K h.sound h.live hensure
          kept := ensureBuffer_kept K h.sound h.kept hensure
          stored := (ensureBuffer_stored K hensure).trans h.stored }
      rw [← Nat.zero_add ptr.length] at heq
      exact hready.fwriteLoop heq (by omega)

end Sending

namespace Input

variable {given : List UInt8}

theorem of_eq (h : D.Input name t₀ given s) (hsound : t.stream.Sound)
    (hhandle : t.stream.handle = s.stream.handle) (hunread : t.stream.unread = s.stream.unread)
    (hdir : t.stream.flagDirectionWrite = false) (htable : D.table t.world = D.table s.world) :
    D.Input name t₀ given t where
  position := by
    rw [htable, FILE.fileDescriptor_eq hhandle, hunread]
    exact h.position
  content := by rw [htable]; exact h.content
  others := by rw [htable, FILE.fileDescriptor_eq hhandle]; exact h.others
  sound := hsound
  readable := by rw [FILE.mode_eq hhandle]; exact h.readable
  notWriting := hdir

/-- Filling the empty buffer fails, meets the end of the file, or reads on. -/
theorem fillBuffer (h : D.Input name t₀ given s) (hset : s.stream.flagBufferSet = true)
    (hnil : s.stream.unread = []) {r : ℤ} (heq : Stdio.fillBuffer K s = (r, t)) :
    D.Input name t₀ given t ∧ t.stream.flagBufferSet = true ∧
      (r = EOF ∧ (t.stream.flagError = true ∨ given = (t₀.content name).bytes) ∨
       r = 0 ∧ t.stream.unread ≠ []) := by
  obtain ⟨r', t', heq', hsound, -⟩ := fillBuffer_sound K h.sound hset
  obtain ⟨rfl, rfl⟩ := Prod.mk.inj (heq'.symm.trans heq)
  obtain ⟨offset, hoffset, hgiven⟩ := h.position
  rw [hnil, List.append_nil] at hgiven
  obtain ⟨len, hlen, ⟨w, hcall, hfill⟩ | ⟨bytes, w, hcall, hempty, hfill⟩ |
    ⟨bytes, w, buffer, stop, start, hne, hcall, hfill, hunread, _⟩⟩ :=
      fillBuffer_cases K h.sound hset
  · obtain ⟨rfl, rfl⟩ := Prod.mk.inj (hfill.symm.trans heq)
    refine ⟨?_, hset, Or.inl ⟨rfl, Or.inl rfl⟩⟩
    exact h.of_eq hsound rfl rfl h.notWriting (D.read_none _ _ _ _ hcall)
  · obtain ⟨rfl, rfl⟩ := Prod.mk.inj (hfill.symm.trans heq)
    have htable := D.read_some _ _ _ _ _ hcall
    obtain ⟨n, hn, hbytes⟩ := D.read_bytes _ _ _ _ _ _ _ hcall hlen hoffset
    rw [hempty, h.content] at hbytes
    rw [hempty, List.length_nil] at htable
    have hend : (t₀.content name).size ≤ offset := by
      have hzero := congrArg List.length hbytes
      rw [FlatFile.length_read, List.length_nil] at hzero
      omega
    refine ⟨?_, hset, Or.inl ⟨rfl, Or.inr ?_⟩⟩
    · apply h.of_eq hsound rfl rfl h.notWriting
      exact htable.trans (advance_zero _ _)
    · rw [hgiven, FlatFile.read_all _ hend]
  · obtain ⟨rfl, rfl⟩ := Prod.mk.inj (hfill.symm.trans heq)
    have htable := D.read_some _ _ _ _ _ hcall
    obtain ⟨n, hn, hbytes⟩ := D.read_bytes _ _ _ _ _ _ _ hcall hlen hoffset
    rw [h.content] at hbytes
    refine ⟨?_, hset, Or.inr ⟨rfl, ?_⟩⟩
    · exact {
        position := by
          refine ⟨offset + bytes.val.length, ?_, ?_⟩
          · show (D.table w).position s.stream.fileDescriptor = _
            rw [htable]
            exact position_advance hoffset _
          · show given ++ (buffer.take stop).drop start = _
            have hread : (t₀.content name).read offset bytes.val.length = bytes.val := by
              rw [hbytes]
              exact FlatFile.read_length_self _ _ _
            rw [hunread, ← FlatFile.read_append, Nat.zero_add, hread, hgiven]
        content := by
          show (D.table w).content = t₀.content
          rw [htable, content_advance, h.content]
        others := by
          show SameExcept name s.stream.fileDescriptor t₀ (D.table w)
          rw [htable]
          exact h.others.trans (sameExcept_advance _ _ _ _)
        sound := hsound
        readable := h.readable
        notWriting := h.notWriting }
    · show (buffer.take stop).drop start ≠ []
      rw [hunread]
      exact hne

/-- Delivering a byte of the buffer. -/
theorem takeByte (h : D.Input name t₀ given s) (hset : s.stream.flagBufferSet = true)
    (hne : s.stream.unread ≠ []) {r : ℤ} (heq : Stdio.takeByte s = some (r, t)) :
    t.stream.flagBufferSet = true ∧ ∃ b : UInt8, r = b.toNat ∧
      D.Input name t₀ (given ++ [b]) t := by
  have hmore : s.stream.bufferedBytesReadOffset < s.stream.bufferedBytesRead := by
    by_contra hle
    exact hne ((FILE.unread_eq_nil_iff h.sound.toBounds).mpr (by omega))
  obtain ⟨r', t', heq', hsound⟩ := takeByte_sound h.sound hset hmore
  obtain ⟨rfl, rfl⟩ := Prod.mk.inj (Option.some.inj (heq'.symm.trans heq))
  obtain ⟨b, rest, hcons⟩ := List.exists_cons_of_ne_nil hne
  obtain ⟨htake, hrest⟩ := takeByte_cons hcons
  obtain ⟨rfl, rfl⟩ := Prod.mk.inj (Option.some.inj (htake.symm.trans heq))
  refine ⟨hset, b, rfl, ?_⟩
  obtain ⟨offset, hoffset, hgiven⟩ := h.position
  rw [hcons] at hgiven
  exact {
    position := by
      refine ⟨offset, hoffset, ?_⟩
      dsimp only
      rw [hrest, List.append_assoc]
      exact hgiven
    content := h.content
    others := h.others
    sound := hsound
    readable := h.readable
    notWriting := h.notWriting }

theorem readBuffered (h : D.Input name t₀ given s) (hset : s.stream.flagBufferSet = true)
    {r : ℤ} (heq : Stdio.readBuffered K s = some (r, t)) :
    t.stream.flagBufferSet = true ∧
      (r = EOF ∧ D.Input name t₀ given t ∧
        (t.stream.flagError = true ∨ given = (t₀.content name).bytes) ∨
       ∃ b : UInt8, r = b.toNat ∧ D.Input name t₀ (given ++ [b]) t) := by
  have hbounds := h.sound.toBounds
  unfold Stdio.readBuffered at heq
  by_cases hempty : s.stream.bufferedBytesReadOffset ≥ s.stream.bufferedBytesRead
  · rw [if_pos hempty] at heq
    have hnil := (FILE.unread_eq_nil_iff hbounds).mpr hempty
    rcases hfill : Stdio.fillBuffer K s with ⟨r₁, u⟩
    simp only [hfill] at heq
    obtain ⟨hu, hset', ⟨rfl, hend⟩ | ⟨rfl, hne⟩⟩ := h.fillBuffer hset hnil hfill
    · rw [if_pos rfl] at heq
      obtain ⟨rfl, rfl⟩ := Prod.mk.inj (Option.some.inj heq)
      exact ⟨hset', Or.inl ⟨rfl, hu, hend⟩⟩
    · rw [if_neg zero_ne_EOF] at heq
      obtain ⟨hset'', hbyte⟩ := hu.takeByte hset' hne heq
      exact ⟨hset'', Or.inr hbyte⟩
  · rw [if_neg hempty] at heq
    have hne : s.stream.unread ≠ [] := fun hnil =>
      hempty ((FILE.unread_eq_nil_iff hbounds).mp hnil)
    obtain ⟨hset', hbyte⟩ := h.takeByte hset hne heq
    exact ⟨hset', Or.inr hbyte⟩

/-- Step lemma: `fgetc` delivers the next byte of the file, or there is none, or
an error is on record. -/
theorem fgetcUnlocked (h : D.Input name t₀ given s) (hset : s.stream.flagBufferSet = true)
    {r : ℤ} (heq : Stdio.fgetcUnlocked K s = some (r, t)) :
    t.stream.flagBufferSet = true ∧
      (r = EOF ∧ D.Input name t₀ given t ∧
        (t.stream.flagError = true ∨ given = (t₀.content name).bytes) ∨
       ∃ b : UInt8, r = b.toNat ∧ D.Input name t₀ (given ++ [b]) t) := by
  have hensure : ensureBuffer K s = (0, s) := if_pos hset
  have hflush : fflushWriteUnlocked K s = (0, s) := if_pos h.notWriting
  unfold Stdio.fgetcUnlocked at heq
  simp only [hensure, zero_ne_EOF, if_false, (h.sound.buffered hset).1] at heq
  rw [ite_fflushWriteUnlocked, hflush] at heq
  simp only [zero_ne_EOF, if_false] at heq
  have hturned : D.Input name t₀ given { s with stream := { s.stream with
      flagDirectionWrite := false, flagDirectionRead := true } } := by
    refine h.of_eq ⟨⟨h.sound.write_le, h.sound.offset_le, h.sound.read_le⟩, h.sound.buffered,
      fun hc => ?_⟩ rfl rfl rfl rfl
    rw [hset] at hc
    cases hc
  exact hturned.readBuffered hset heq

/-- The loop of `fread` delivers as many bytes as asked for, unless the file
ends or an error is on record. -/
theorem freadLoop (h : D.Input name t₀ given s) (hset : s.stream.flagBufferSet = true)
    {left n : ℕ} {bytes out : List UInt8}
    (heq : Stdio.freadLoop K 1 (bytes.length + left) left bytes s = some (n, out, t)) :
    ∃ more, out = bytes ++ more ∧ n = out.length ∧ n ≤ bytes.length + left ∧
      D.Input name t₀ (given ++ more) t ∧
      (n < bytes.length + left →
        t.stream.flagError = true ∨ given ++ more = (t₀.content name).bytes) := by
  induction left generalizing bytes s given with
  | zero =>
    obtain ⟨rfl, hpair⟩ := Prod.mk.inj (Option.some.inj heq)
    obtain ⟨rfl, rfl⟩ := Prod.mk.inj hpair
    refine ⟨[], by simp, by simp, by simp, by simpa using h, fun hlt => ?_⟩
    omega
  | succ left ih =>
    unfold Stdio.freadLoop at heq
    rcases hgetc : Stdio.fgetcUnlocked K s with _ | ⟨c, u⟩
    · simp [hgetc] at heq
    · simp only [hgetc] at heq
      obtain ⟨hset', ⟨rfl, hu, hend⟩ | ⟨b, rfl, hu⟩⟩ := h.fgetcUnlocked hset hgetc
      · rw [if_pos rfl, Nat.div_one] at heq
        obtain ⟨rfl, hpair⟩ := Prod.mk.inj (Option.some.inj heq)
        obtain ⟨rfl, rfl⟩ := Prod.mk.inj hpair
        refine ⟨[], by simp, rfl, by omega, by simpa using hu, fun _ => ?_⟩
        rwa [List.append_nil]
      · rw [if_neg (toNat_ne_EOF b), toByte_toNat] at heq
        have htotal : bytes.length + (left + 1) = (bytes ++ [b]).length + left := by
          rw [List.length_append, List.length_singleton]
          omega
        rw [htotal] at heq
        obtain ⟨more, hout, hn, hle, ht, hshort⟩ := ih hu hset' heq
        refine ⟨b :: more, ?_, hn, ?_, ?_, ?_⟩
        · rw [hout, List.append_assoc]
          rfl
        · rwa [htotal]
        · rwa [List.append_assoc] at ht
        · rw [htotal]
          rwa [List.append_assoc] at hshort

/-- `fread` of single bytes on a stream that may not have a buffer yet. -/
theorem freadUnlocked (h : D.Input name t₀ given s) {nmemb n : ℕ} (hpos : 0 < nmemb)
    {bytes : List UInt8} (heq : Stdio.freadUnlocked K 1 nmemb s = some (n, bytes, t)) :
    D.Input name t₀ (given ++ bytes) t ∧
      (n = SIZE_MAX ∧ bytes = [] ∨ n = bytes.length ∧ n ≤ nmemb ∧
        (n < nmemb → t.stream.flagError = true ∨
          given ++ bytes = (t₀.content name).bytes)) := by
  unfold Stdio.freadUnlocked at heq
  rw [if_neg (by omega), if_neg (by simp [h.readable])] at heq
  obtain ⟨r, u, hensure, hu, hres⟩ := ensureBuffer_sound K h.sound
  have htable := D.ensureBuffer_table hensure
  have hready : u.stream.handle = s.stream.handle ∧ u.stream.unread = s.stream.unread ∧
      u.stream.flagDirectionWrite = false := by
    rcases ensureBuffer_cases K s with
      ⟨_, hcase⟩ | ⟨_, _, hcase⟩ | ⟨hunset, _, _, _, _, hcase⟩
    · obtain ⟨-, rfl⟩ := Prod.mk.inj (hcase.symm.trans hensure)
      exact ⟨rfl, rfl, h.notWriting⟩
    · obtain ⟨-, rfl⟩ := Prod.mk.inj (hcase.symm.trans hensure)
      exact ⟨rfl, rfl, h.notWriting⟩
    · obtain ⟨-, rfl⟩ := Prod.mk.inj (hcase.symm.trans hensure)
      obtain ⟨_, hread, _, _⟩ := h.sound.unused hunset
      refine ⟨rfl, ?_, h.notWriting⟩
      simp [FILE.unread, attachBuffer, hread]
  obtain ⟨hhandle, hunread, hdir⟩ := hready
  have hinput := h.of_eq hu hhandle hunread hdir htable
  simp only [hensure] at heq
  rcases hres with ⟨rfl, _, _⟩ | ⟨rfl, hset, _, _⟩
  · rw [if_pos rfl] at heq
    obtain ⟨rfl, hpair⟩ := Prod.mk.inj (Option.some.inj heq)
    obtain ⟨rfl, rfl⟩ := Prod.mk.inj hpair
    rw [List.append_nil]
    exact ⟨hinput, Or.inl ⟨rfl, rfl⟩⟩
  · rw [if_neg zero_ne_EOF, if_neg (hu.buffered hset).1, Nat.one_mul] at heq
    have htotal : ([] : List UInt8).length + nmemb = nmemb := Nat.zero_add nmemb
    have hloop : Stdio.freadLoop K 1 (([] : List UInt8).length + nmemb) nmemb [] u =
        some (n, bytes, t) := by
      rw [htotal]
      exact heq
    obtain ⟨more, rfl, hn, hle, ht, hshort⟩ := hinput.freadLoop hset hloop
    rw [htotal] at hle hshort
    exact ⟨ht, Or.inr ⟨hn, hle, hshort⟩⟩

/-- What another stream has done to another file does not matter. -/
theorem rebase (h : D.Input name t₀ given s) {other : String} {fd : ℤ} {w : W}
    (hsame : SameExcept other fd (D.table s.world) (D.table w)) (hname : name ≠ other)
    (hfd : s.stream.fileDescriptor ≠ fd) : D.Input name (D.table w) given ⟨s.stream, w⟩ where
  position := by
    obtain ⟨offset, hoffset, hgiven⟩ := h.position
    refine ⟨offset, (hsame.position _ hfd).trans hoffset, ?_⟩
    rw [hsame.content name hname, h.content]
    exact hgiven
  content := rfl
  others := .refl _
  sound := h.sound
  readable := h.readable
  notWriting := h.notWriting

end Input

theorem Sending.rebase {mode : ModeFlags} {sent : List UInt8}
    (h : D.Sending name t₀ mode sent s) {other : String} {fd : ℤ} {w : W}
    (hsame : SameExcept other fd (D.table s.world) (D.table w)) (hname : name ≠ other)
    (hfd : s.stream.fileDescriptor ≠ fd) :
    D.Sending name (D.table w) mode sent ⟨s.stream, w⟩ where
  position := (hsame.position _ hfd).trans h.position
  content := (hsame.content name hname).trans h.content
  others := .refl _
  sound := h.sound
  live := h.live
  kept := h.kept
  stored := h.stored

/-- After the flush, closing a stream changes no file and concerns its
descriptor only. -/
theorem closeStream_table (D : FileSystem K) (name : String) (s : State W) :
    (D.table (closeStream K s).2.world).content =
        (D.table (fflushUnlocked K s).2.world).content ∧
      SameExcept name s.stream.fileDescriptor (D.table (fflushUnlocked K s).2.world)
        (D.table (closeStream K s).2.world) := by
  have hhandle := FILE.handle_of_record (fflushUnlocked_record K s)
  unfold closeStream
  generalize fflushUnlocked K s = result at hhandle ⊢
  obtain ⟨_, u⟩ := result
  dsimp only at hhandle ⊢
  rw [← FILE.fileDescriptor_eq hhandle]
  have hclose : (D.table (implClose K u).2.world).content = (D.table u.world).content ∧
      SameExcept name u.stream.fileDescriptor (D.table u.world)
        (D.table (implClose K u).2.world) := by
    show (D.table (K.close u.stream.fileDescriptor u.world).2).content = _ ∧
      SameExcept _ _ _ (D.table (K.close u.stream.fileDescriptor u.world).2)
    rcases D.close_spec u.stream.fileDescriptor u.world with hsame | hclosed
    · rw [hsame]
      exact ⟨rfl, .refl _⟩
    · rw [hclosed]
      exact ⟨rfl, sameExcept_close _ _ _⟩
  generalize implClose K u = result at hclose ⊢
  obtain ⟨r, v⟩ := result
  dsimp only at hclose ⊢
  split
  · exact hclose
  · dsimp only
    split
    · rw [D.free_spec]
      exact hclose
    · exact hclose

/-- Closing an input stream concerns its descriptor only. -/
theorem Input.closeStream {given : List UInt8} (h : D.Input name t₀ given s) :
    SameExcept name s.stream.fileDescriptor t₀ (D.table (Stdio.closeStream K s).2.world) := by
  have hread := D.fflushReadUnlocked_table name s
  obtain ⟨_, hclose⟩ := D.closeStream_table name s
  rw [fflushUnlocked_notWriting K h.notWriting] at hclose
  exact (h.others.trans hread).trans hclose

/-- When an output stream is closed, its file holds the bytes sent exactly if
the last flush is refused nothing. -/
theorem Sending.closeStream_iff {mode : ModeFlags} {sent : List UInt8}
    (h : D.Sending name t₀ mode sent s) :
    ((D.table (Stdio.closeStream K s).2.world).content name).bytes = sent ↔
      Accepted (finalWrites K s) := by
  have hflush := fflushUnlocked_notReading K h.kept.notReading
  have hout : D.Output name t₀ (fflushUnlocked K s).2 := by
    rw [hflush]
    exact h.toOutput.fflushWriteUnlocked rfl
  obtain ⟨hcontent, _⟩ := D.closeStream_table name s
  rw [hcontent, hout.content, FlatFile.bytes_ofList]
  unfold finalWrites
  rw [hflush]
  have hheld := h.live.held
  rw [h.stored] at hheld
  rcases fflushWriteUnlocked_cases K s with
    ⟨hdir, hcase⟩ | ⟨_, hnot, _⟩ | ⟨_, _, _, left, calls, eof, error, w, hcase, htransfer⟩
  · rw [FILE.pending_eq_nil (h.live.empty hdir), List.append_nil] at hheld
    rw [hcase, hheld]
    simp [Accepted]
  · simp [h.kept.writable, h.kept.impl] at hnot
  · rw [hcase]
    dsimp only
    rw [FILE.accepted_of_writes rfl, List.drop_left, ← htransfer.left_eq_nil_iff, ← hheld,
      ← htransfer.taken_append_left, List.append_cancel_left_eq]
    exact List.self_eq_append_right

end FileSystem

end Heartix.Stdio
