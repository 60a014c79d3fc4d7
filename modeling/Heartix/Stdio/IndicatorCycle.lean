import Heartix.Stdio.Replies
import Heartix.Stdio.Program

/-!
The life cycle of the indicators. What they ought to show is kept beside the run:
the end of file that a read met since it was last cleared, and the failures since
then. The stream shows something else once there is something to clear, because
`__fdopen_static` gives no stream an `impl_clearerr`; and in a few other steps,
which a condition on each step leaves out.
-/

namespace Heartix.Stdio

open Runs

variable {W : Type}

/-- `feof`, with the `impl_eof` that every stream has. -/
def feof (f : FILE) : ℤ := if f.flagEof = true then 1 else 0

/-- `ferror`, with the `impl_error` that every stream has. -/
def ferror (f : FILE) : ℤ := if f.flagError = true then 1 else 0

/-- The calls on a stream that set or clear its indicators. -/
inductive IndicatorOp
  | access (op : Op)
  | clearerr
  | rewind

def IndicatorOp.exec (K : Kernel W) (s : State W) : IndicatorOp → Option (Ret × State W)
  | .access op => op.exec K s
  | .clearerr => some (⟨0, []⟩, clearerrUnlocked s)
  | .rewind => some (⟨0, []⟩, Stdio.rewind K s)

instance (f : FILE) : Decidable f.HeldToWrite :=
  inferInstanceAs (Decidable (f.flagDirectionWrite = true ∧ f.mode.write = false))

instance (f : FILE) : Decidable f.HeldToRead :=
  inferInstanceAs (Decidable (f.flagDirectionRead = true ∧ f.mode.read = false))

instance (c8 : UInt8) (f : FILE) : Decidable (f.DeniesByte c8) :=
  inferInstanceAs (Decidable (f.HeldToRead ∨ f.bufferedBytesWrite = f.bufferSize ∧ f.HeldToWrite ∨
    f.bufferMode = .iolbf ∧ c8 = newline ∧ f.mode.write = false))

/-- The mode does not permit the transfer, or a flush that has to come first. A byte
of a buffered stream moves between the caller and the buffer, which needs no
permission; a stream without buffer takes no byte back. -/
def Op.Denied (f : FILE) : Op → Prop
  | .fgetc => f.Unbuffered ∧ f.mode.read = false ∨ ¬ f.Unbuffered ∧ f.HeldToWrite
  | .fread size nmemb =>
      ¬ (size = 0 ∨ nmemb = 0) ∧ (f.mode.read = false ∨ ¬ f.Unbuffered ∧ f.HeldToWrite)
  | .ungetc _ => f.Unbuffered ∨ f.HeldToWrite
  | .fputc c => f.Unbuffered ∧ f.mode.write = false ∨ ¬ f.Unbuffered ∧ f.DeniesByte (toByte c)
  | .fwrite size nmemb _ =>
      ¬ (size = 0 ∨ nmemb = 0) ∧ (f.mode.write = false ∨ ¬ f.Unbuffered ∧ f.HeldToRead)
  | .fflush => f.HeldToRead ∨ f.HeldToWrite

instance (f : FILE) (op : Op) : Decidable (op.Denied f) := by
  cases op <;> dsimp only [Op.Denied] <;> infer_instance

/-- The call moves its bytes between the caller and the kernel. -/
def Op.Direct (f : FILE) : Op → Prop
  | .fgetc => f.Unbuffered
  | .fread size nmemb => ¬ (size = 0 ∨ nmemb = 0) ∧ f.Unbuffered
  | .fputc _ => f.Unbuffered
  | .fwrite size nmemb _ => ¬ (size = 0 ∨ nmemb = 0) ∧ f.Unbuffered
  | _ => False

/-- A successful `ungetc`. -/
def Op.tookBack (ret : Ret) : Op → Bool
  | .ungetc _ => ret.value ≠ EOF
  | _ => false

/-- What a stream of `fopen` or `fdopen` keeps. -/
structure FILE.Standard (f : FILE) : Prop where
  read : f.implRead = true
  write : f.implWrite = true
  clearerr : f.implClearerr = false
  idle : f.flagBufferSet = false →
    f.flagDirectionRead = false ∧ f.flagDirectionWrite = false ∧ f.bufferMode = .ionbf

/-- The stream with a buffer, after the check most operations start with. -/
structure Equipped (s u : State (W × List Reply)) : Prop where
  silent : Silent s u
  set : u.stream.flagBufferSet = true
  read : u.stream.implRead = true
  write : u.stream.implWrite = true
  mode : u.stream.mode = s.stream.mode
  unbuffered : u.stream.Unbuffered ↔ s.stream.Unbuffered
  heldToWrite : u.stream.HeldToWrite ↔ s.stream.HeldToWrite
  heldToRead : u.stream.HeldToRead ↔ s.stream.HeldToRead
  deniesByte : ∀ c8, u.stream.DeniesByte c8 ↔ s.stream.DeniesByte c8
  takesBack : (s.stream.flagBufferSet = true → s.stream.TakesBack) → u.stream.TakesBack

section Equipped

variable {K : Kernel W} {s t u : State (W × List Reply)}

/-- Without a buffer nothing is held. -/
theorem FILE.Standard.free {f : FILE} (h : f.Standard) (hunset : f.flagBufferSet = false) :
    ¬ f.Unbuffered ∧ ¬ f.HeldToWrite ∧ ¬ f.HeldToRead ∧ ∀ c8, ¬ f.DeniesByte c8 := by
  obtain ⟨hread, hwrite, hmode⟩ := h.idle hunset
  simp [FILE.Unbuffered, FILE.DeniesByte, FILE.HeldToRead, FILE.HeldToWrite, hread, hwrite, hmode,
    hunset]

/-- A buffer is there, or allocated, or there is no memory for it. -/
theorem FILE.Standard.ensure (hs : s.stream.Standard) :
    (∃ u, ensureBuffer K.recorded s = (EOF, u) ∧ Silent s u ∧ u.stream = s.stream ∧
      s.stream.flagBufferSet = false) ∨
    ∃ u, ensureBuffer K.recorded s = (0, u) ∧ Equipped s u := by
  have hsilent := ensureBuffer_silent K s
  rcases ensureBuffer_cases K.recorded s with
    ⟨hset, hcase⟩ | ⟨hunset, w, hcase⟩ | ⟨hunset, address, memory, w, hlen, hcase⟩
  · exact Or.inr ⟨s, hcase, silent_of_eq rfl rfl rfl, hset, hs.read, hs.write, rfl, Iff.rfl,
      Iff.rfl, Iff.rfl, fun _ => Iff.rfl, fun h => h hset⟩
  · rw [hcase] at hsilent
    exact Or.inl ⟨_, hcase, hsilent, rfl, hunset⟩
  · right
    rw [hcase] at hsilent
    obtain ⟨hread, hwrite, -⟩ := hs.idle hunset
    obtain ⟨hunbuffered, htoWrite, htoRead, hdenies⟩ := hs.free hunset
    refine ⟨_, hcase, hsilent, rfl, hs.read, hs.write, rfl, iff_of_false ?_ hunbuffered,
      Iff.rfl, Iff.rfl, fun c8 => iff_of_false ?_ (hdenies c8), fun _ _ => ?_⟩
    · simp [FILE.Unbuffered, attachBuffer]
    · simp [FILE.DeniesByte, FILE.HeldToRead, FILE.HeldToWrite, attachBuffer, hread, hwrite]
    · show 0 < memory.length
      rw [hlen]
      decide

theorem Equipped.buffered (h : Equipped s u) (hbuffered : ¬ s.stream.Unbuffered) :
    u.stream.Buffered :=
  ⟨h.set, fun hmode => hbuffered (h.unbuffered.mp ⟨h.set, hmode⟩), h.write⟩

theorem Equipped.ensure (h : Equipped s u) : ensureBuffer K.recorded u = (0, u) := if_pos h.set

/-- Clearing an indicator before the check or after it. -/
theorem Equipped.marked (h : Equipped s u) :
    Silent (s.marked false s.stream.flagError) (u.marked false u.stream.flagError) :=
  ⟨h.silent.log, by simp, h.silent.error⟩

end Equipped

/-- What a call does to the indicators. It adds to them; a call without a buffer, and
an `ungetc` that is not stopped, clear that of the end of file first. -/
inductive Op.Marks (s t : State (W × List Reply)) (ret : Ret) (op : Op) (replies : List Reply) :
    Prop
  | added (hnoted : Noted s t replies (op.Denied s.stream)) (hfailed : op.tookBack ret = false)
  | direct (hnoted : Noted (s.marked false s.stream.flagError) t replies (op.Denied s.stream))
      (hdirect : op.Direct s.stream) (hpermitted : ¬ op.Denied s.stream)
  | ungetc {c : ℤ} (hop : op = .ungetc c) (hreplies : replies = [])
      (hsilent : Silent (s.marked false s.stream.flagError) t)
      (hpermitted : ¬ op.Denied s.stream)
      (htaken : c ≠ EOF → (s.stream.flagBufferSet = true → s.stream.TakesBack) →
        ret.value ≠ EOF)

section Calls

variable {K : Kernel W} {s t : State (W × List Reply)} {ret : Ret}

theorem fgetcUnlocked_marks {c : ℤ} (hs : s.stream.Standard)
    (heq : fgetcUnlocked K.recorded s = some (c, t)) :
    ∃ replies, Op.fgetc.Marks s t ⟨c, []⟩ replies := by
  rcases hs.ensure (K := K) with ⟨u, hensure, hsilent, hu, hunset⟩ | ⟨u, hensure, hu⟩
  · unfold fgetcUnlocked at heq
    simp only [hensure, if_true] at heq
    obtain ⟨rfl, rfl⟩ := Prod.mk.inj (Option.some.inj heq)
    obtain ⟨hunbuffered, hfree, -⟩ := hs.free hunset
    exact ⟨[], .added (hsilent.of_iff (by simp [Op.Denied, hunbuffered, hfree])) rfl⟩
  · by_cases hdirect : s.stream.Unbuffered
    · have hmode := (hu.unbuffered.mpr hdirect).2
      unfold fgetcUnlocked at heq
      simp only [hensure, zero_ne_EOF, if_false, hmode, if_true] at heq
      by_cases hread : u.stream.mode.read = false
      · rw [if_pos hread] at heq
        obtain ⟨rfl, rfl⟩ := Prod.mk.inj (Option.some.inj heq)
        have hdenied : Op.fgetc.Denied s.stream := Or.inl ⟨hdirect, hu.mode ▸ hread⟩
        exact ⟨[], .added (hu.silent.after_silent (noted_setError u hdenied)) rfl⟩
      · rw [if_neg hread] at heq
        have hpermitted : ¬ Op.fgetc.Denied s.stream := by
          rw [hu.mode] at hread
          simp [Op.Denied, hdirect, hread]
        obtain ⟨replies, hnoted⟩ := freadUnbuffered_noted K 1 1 hu.read
        generalize freadUnbuffered K.recorded 1 1 u = result at hnoted heq
        obtain ⟨n, bytes, v⟩ := result
        have ht : t = v := by
          dsimp only at heq
          split at heq
          · exact (Prod.mk.inj (Option.some.inj heq)).2.symm
          · split at heq
            · cases heq
            · exact (Prod.mk.inj (Option.some.inj heq)).2.symm
        subst ht
        exact ⟨replies, .direct ((hu.marked.after_silent hnoted).of_iff (by simp [hpermitted]))
          hdirect hpermitted⟩
    · have hbuffered := hu.buffered hdirect
      have hagain : fgetcUnlocked K.recorded s = fgetcUnlocked K.recorded u := by
        unfold fgetcUnlocked
        rw [hensure, hu.ensure]
      rw [hagain] at heq
      obtain ⟨⟨replies, hnoted⟩, -⟩ :=
        fgetcUnlocked_noted K hbuffered.set hbuffered.mode hbuffered.impl heq
      refine ⟨replies, .added ((hu.silent.after_silent hnoted).of_iff ?_) rfl⟩
      simp [Op.Denied, hdirect, hu.heldToWrite]

theorem freadUnlocked_marks {size nmemb n : ℕ} {bytes : List UInt8} (hs : s.stream.Standard)
    (heq : freadUnlocked K.recorded size nmemb s = some (n, bytes, t)) :
    ∃ replies, (Op.fread size nmemb).Marks s t ⟨n, bytes⟩ replies := by
  unfold freadUnlocked at heq
  by_cases hzero : size = 0 ∨ nmemb = 0
  · rw [if_pos hzero] at heq
    obtain ⟨-, hrest⟩ := Prod.mk.inj (Option.some.inj heq)
    obtain ⟨-, rfl⟩ := Prod.mk.inj hrest
    refine ⟨[], .added (.of_iff (silent_of_eq rfl rfl rfl) ?_) rfl⟩
    simp [Op.Denied, hzero]
  · rw [if_neg hzero] at heq
    by_cases hread : s.stream.mode.read = false
    · rw [if_pos hread] at heq
      obtain ⟨-, hrest⟩ := Prod.mk.inj (Option.some.inj heq)
      obtain ⟨-, rfl⟩ := Prod.mk.inj hrest
      have hdenied : (Op.fread size nmemb).Denied s.stream := ⟨hzero, Or.inl hread⟩
      exact ⟨[], .added (noted_setError s hdenied) rfl⟩
    · rw [if_neg hread] at heq
      rcases hs.ensure (K := K) with ⟨u, hensure, hsilent, hu, hunset⟩ | ⟨u, hensure, hu⟩
      · simp only [hensure, if_true] at heq
        obtain ⟨-, hrest⟩ := Prod.mk.inj (Option.some.inj heq)
        obtain ⟨-, rfl⟩ := Prod.mk.inj hrest
        obtain ⟨hunbuffered, hfree, -⟩ := hs.free hunset
        exact ⟨[], .added (hsilent.of_iff (by simp [Op.Denied, hfree, hread])) rfl⟩
      · simp only [hensure, zero_ne_EOF, if_false] at heq
        by_cases hdirect : s.stream.Unbuffered
        · have hpermitted : ¬ (Op.fread size nmemb).Denied s.stream := by
            simp [Op.Denied, hdirect, hread]
          obtain ⟨replies, hnoted⟩ := freadUnbuffered_noted K size nmemb hu.read
          rw [if_pos (hu.unbuffered.mpr hdirect).2] at heq
          rw [Option.some.inj heq] at hnoted
          exact ⟨replies, .direct ((hu.marked.after_silent hnoted).of_iff (by simp [hpermitted]))
            ⟨hzero, hdirect⟩ hpermitted⟩
        · have hbuffered := hu.buffered hdirect
          rw [if_neg hbuffered.mode] at heq
          obtain ⟨replies, hnoted⟩ := freadLoop_noted K hbuffered heq
          refine ⟨replies, .added ((hu.silent.after_silent hnoted).of_iff ?_) rfl⟩
          simp [Op.Denied, hdirect, hread, hu.heldToWrite]

theorem fungetcUnlocked_marks {c r : ℤ} (hs : s.stream.Standard)
    (heq : fungetcUnlocked K.recorded c s = some (r, t)) :
    ∃ replies, (Op.ungetc c).Marks s t ⟨r, []⟩ replies := by
  rcases hs.ensure (K := K) with ⟨u, hensure, hsilent, hu, hunset⟩ | ⟨u, hensure, hu⟩
  · unfold fungetcUnlocked at heq
    simp only [hensure, if_true] at heq
    obtain ⟨rfl, rfl⟩ := Prod.mk.inj (Option.some.inj heq)
    obtain ⟨hunbuffered, hfree, -⟩ := hs.free hunset
    exact ⟨[], .added (hsilent.of_iff (by simp [Op.Denied, hunbuffered, hfree])) rfl⟩
  · by_cases hdirect : s.stream.Unbuffered
    · have hmode := (hu.unbuffered.mpr hdirect).2
      unfold fungetcUnlocked at heq
      simp only [hensure, zero_ne_EOF, if_false, hmode, if_true] at heq
      obtain ⟨rfl, rfl⟩ := Prod.mk.inj (Option.some.inj heq)
      have hdenied : (Op.ungetc c).Denied s.stream := Or.inl hdirect
      exact ⟨[], .added (hu.silent.after_silent (noted_setError u hdenied)) rfl⟩
    · have hbuffered := hu.buffered hdirect
      have hagain : fungetcUnlocked K.recorded c s = fungetcUnlocked K.recorded c u := by
        unfold fungetcUnlocked
        rw [hensure, hu.ensure]
      have hheld : u.stream.HeldToWrite ↔ (Op.ungetc c).Denied s.stream := by
        simp [Op.Denied, hdirect, hu.heldToWrite]
      rw [hagain] at heq
      rcases fungetcUnlocked_noted K hbuffered heq with
        ⟨rfl, replies, hnoted⟩ | ⟨hnot, hcleared, htaken⟩
      · exact ⟨replies, .added ((hu.silent.after_silent hnoted).of_iff hheld) rfl⟩
      · exact ⟨[], .ungetc rfl rfl (hu.marked.after_silent hcleared) (fun h => hnot (hheld.mpr h))
          fun hc htakes => htaken hc (hu.takesBack htakes)⟩

theorem fputcUnlocked_marks {c r : ℤ} (hs : s.stream.Standard)
    (heq : fputcUnlocked K.recorded c s = some (r, t)) :
    ∃ replies, (Op.fputc c).Marks s t ⟨r, []⟩ replies := by
  rcases hs.ensure (K := K) with ⟨u, hensure, hsilent, hu, hunset⟩ | ⟨u, hensure, hu⟩
  · unfold fputcUnlocked at heq
    simp only [hensure, if_true] at heq
    obtain ⟨rfl, rfl⟩ := Prod.mk.inj (Option.some.inj heq)
    obtain ⟨hunbuffered, -, -, hdenies⟩ := hs.free hunset
    exact ⟨[], .added (hsilent.of_iff (by simp [Op.Denied, hunbuffered, hdenies])) rfl⟩
  · by_cases hdirect : s.stream.Unbuffered
    · have hmode := (hu.unbuffered.mpr hdirect).2
      unfold fputcUnlocked at heq
      simp only [hensure, zero_ne_EOF, if_false, hmode, if_true] at heq
      by_cases hwrite : u.stream.mode.write = false
      · rw [if_pos hwrite] at heq
        obtain ⟨rfl, rfl⟩ := Prod.mk.inj (Option.some.inj heq)
        have hdenied : (Op.fputc c).Denied s.stream := Or.inl ⟨hdirect, hu.mode ▸ hwrite⟩
        exact ⟨[], .added (hu.silent.after_silent (noted_setError u hdenied)) rfl⟩
      · rw [if_neg hwrite] at heq
        have hpermitted : ¬ (Op.fputc c).Denied s.stream := by
          rw [hu.mode] at hwrite
          simp [Op.Denied, hdirect, hwrite]
        obtain ⟨replies, hnoted⟩ := fwriteUnbuffered_noted K [toByte c] 1 hu.write
        generalize fwriteUnbuffered K.recorded [toByte c] 1 u = result at hnoted heq
        obtain ⟨n, v⟩ := result
        have ht : t = v := by
          dsimp only at heq
          split at heq
          · exact (Prod.mk.inj (Option.some.inj heq)).2.symm
          · exact (Prod.mk.inj (Option.some.inj heq)).2.symm
        subst ht
        exact ⟨replies, .direct ((hu.marked.after_silent hnoted).of_iff (by simp [hpermitted]))
          hdirect hpermitted⟩
    · have hbuffered := hu.buffered hdirect
      have hagain : fputcUnlocked K.recorded c s = fputcUnlocked K.recorded c u := by
        unfold fputcUnlocked
        rw [hensure, hu.ensure]
      rw [hagain] at heq
      obtain ⟨⟨replies, hnoted⟩, -⟩ := fputcUnlocked_noted K hbuffered heq
      refine ⟨replies, .added ((hu.silent.after_silent hnoted).of_iff ?_) rfl⟩
      simp [Op.Denied, hdirect, hu.deniesByte]

theorem fwriteUnlocked_marks {size nmemb n : ℕ} {ptr : Vector UInt8 (size * nmemb)}
    (hs : s.stream.Standard)
    (heq : fwriteUnlocked K.recorded ptr.toList size nmemb s = some (n, t)) :
    ∃ replies, (Op.fwrite size nmemb ptr).Marks s t ⟨n, []⟩ replies := by
  unfold fwriteUnlocked at heq
  by_cases hzero : size = 0 ∨ nmemb = 0
  · rw [if_pos hzero] at heq
    obtain ⟨-, rfl⟩ := Prod.mk.inj (Option.some.inj heq)
    refine ⟨[], .added (.of_iff (silent_of_eq rfl rfl rfl) ?_) rfl⟩
    simp [Op.Denied, hzero]
  · rw [if_neg hzero] at heq
    by_cases hwrite : s.stream.mode.write = false
    · rw [if_pos hwrite] at heq
      obtain ⟨-, rfl⟩ := Prod.mk.inj (Option.some.inj heq)
      have hdenied : (Op.fwrite size nmemb ptr).Denied s.stream := ⟨hzero, Or.inl hwrite⟩
      exact ⟨[], .added (noted_setError s hdenied) rfl⟩
    · rw [if_neg hwrite] at heq
      rcases hs.ensure (K := K) with ⟨u, hensure, hsilent, hu, hunset⟩ | ⟨u, hensure, hu⟩
      · simp only [hensure, if_true] at heq
        obtain ⟨-, rfl⟩ := Prod.mk.inj (Option.some.inj heq)
        obtain ⟨hunbuffered, -, hfree, -⟩ := hs.free hunset
        exact ⟨[], .added (hsilent.of_iff (by simp [Op.Denied, hfree, hwrite])) rfl⟩
      · simp only [hensure, zero_ne_EOF, if_false] at heq
        by_cases hdirect : s.stream.Unbuffered
        · have hpermitted : ¬ (Op.fwrite size nmemb ptr).Denied s.stream := by
            simp [Op.Denied, hdirect, hwrite]
          obtain ⟨replies, hnoted⟩ := fwriteUnbuffered_noted K ptr.toList size hu.write
          rw [if_pos (hu.unbuffered.mpr hdirect).2] at heq
          rw [Option.some.inj heq] at hnoted
          exact ⟨replies, .direct ((hu.marked.after_silent hnoted).of_iff (by simp [hpermitted]))
            ⟨hzero, hdirect⟩ hpermitted⟩
        · have hbuffered := hu.buffered hdirect
          have hbytes : ptr.toList ≠ [] := by
            rw [← List.length_pos_iff, Vector.length_toList]
            exact Nat.mul_pos (by omega) (by omega)
          rw [if_neg hbuffered.mode] at heq
          obtain ⟨replies, hnoted⟩ := fwriteLoop_noted K hbuffered
            (by rw [hu.mode]; simpa using hwrite) heq
          refine ⟨replies, .added ((hu.silent.after_silent hnoted).of_iff ?_) rfl⟩
          simp [Op.Denied, hdirect, hwrite, hzero, hbytes, hu.heldToRead]

/-- Every call marks the stream. -/
theorem exec_marks {op : Op} (hs : s.stream.Standard) (heq : op.exec K.recorded s = some (ret, t)) :
    ∃ replies, op.Marks s t ret replies := by
  cases op with
  | fgetc =>
    obtain ⟨⟨c, v⟩, hcall, hv⟩ := Option.map_eq_some_iff.mp heq
    obtain ⟨rfl, rfl⟩ := Prod.mk.inj hv
    exact fgetcUnlocked_marks hs hcall
  | fread size nmemb =>
    obtain ⟨⟨n, stored, v⟩, hcall, hv⟩ := Option.map_eq_some_iff.mp heq
    obtain ⟨rfl, rfl⟩ := Prod.mk.inj hv
    exact freadUnlocked_marks hs hcall
  | ungetc c =>
    obtain ⟨⟨r, v⟩, hcall, hv⟩ := Option.map_eq_some_iff.mp heq
    obtain ⟨rfl, rfl⟩ := Prod.mk.inj hv
    exact fungetcUnlocked_marks hs hcall
  | fputc c =>
    obtain ⟨⟨r, v⟩, hcall, hv⟩ := Option.map_eq_some_iff.mp heq
    obtain ⟨rfl, rfl⟩ := Prod.mk.inj hv
    exact fputcUnlocked_marks hs hcall
  | fwrite size nmemb ptr =>
    obtain ⟨⟨n, v⟩, hcall, hv⟩ := Option.map_eq_some_iff.mp heq
    obtain ⟨rfl, rfl⟩ := Prod.mk.inj hv
    exact fwriteUnlocked_marks hs hcall
  | fflush =>
    obtain ⟨rfl, rfl⟩ := Prod.mk.inj (Option.some.inj heq)
    obtain ⟨replies, hnoted⟩ := fflushUnlocked_noted K hs.write
    exact ⟨replies, .added hnoted rfl⟩

end Calls

section Standard

variable {K : Kernel W} {s t u : State W} {ret : Ret}

/-- A call is answered before the buffer check, or by it, or goes on from it. -/
theorem exec_checks {r : ℤ} {op : Op} (hensure : ensureBuffer K s = (r, u))
    (hset : r = 0 → u.stream.flagBufferSet = true) (hmode : u.stream.mode = s.stream.mode)
    (hop : op ≠ .fflush) :
    (∃ ret error, op.exec K s = some (ret, s.marked s.stream.flagEof error)) ∨
      (r = EOF ∧ ∃ ret, op.exec K s = some (ret, u)) ∨ (r = 0 ∧ op.exec K s = op.exec K u) := by
  have hagain : r = 0 → ensureBuffer K u = (0, u) := fun hr => if_pos (hset hr)
  cases op with
  | fgetc =>
    right
    unfold Op.exec fgetcUnlocked
    rw [hensure]
    rcases ensureBuffer_result K hensure with rfl | rfl
    · rw [hagain rfl]
      exact Or.inr ⟨rfl, rfl⟩
    · exact Or.inl ⟨rfl, _, rfl⟩
  | fread size nmemb =>
    unfold Op.exec freadUnlocked
    dsimp only
    rw [hensure, hmode]
    by_cases hzero : size = 0 ∨ nmemb = 0
    · simp only [if_pos hzero]
      exact Or.inl ⟨_, s.stream.flagError, rfl⟩
    · by_cases hread : s.stream.mode.read = false
      · simp only [if_neg hzero, if_pos hread]
        exact Or.inl ⟨_, true, rfl⟩
      · right
        simp only [if_neg hzero, if_neg hread]
        rcases ensureBuffer_result K hensure with rfl | rfl
        · rw [hagain rfl]
          exact Or.inr ⟨rfl, rfl⟩
        · exact Or.inl ⟨rfl, _, rfl⟩
  | ungetc c =>
    right
    unfold Op.exec fungetcUnlocked
    rw [hensure]
    rcases ensureBuffer_result K hensure with rfl | rfl
    · rw [hagain rfl]
      exact Or.inr ⟨rfl, rfl⟩
    · exact Or.inl ⟨rfl, _, rfl⟩
  | fputc c =>
    right
    unfold Op.exec fputcUnlocked
    rw [hensure]
    rcases ensureBuffer_result K hensure with rfl | rfl
    · rw [hagain rfl]
      exact Or.inr ⟨rfl, rfl⟩
    · exact Or.inl ⟨rfl, _, rfl⟩
  | fwrite size nmemb ptr =>
    unfold Op.exec fwriteUnlocked
    dsimp only
    rw [hensure, hmode]
    by_cases hzero : size = 0 ∨ nmemb = 0
    · simp only [if_pos hzero]
      exact Or.inl ⟨_, s.stream.flagError, rfl⟩
    · by_cases hwrite : s.stream.mode.write = false
      · simp only [if_neg hzero, if_pos hwrite]
        exact Or.inl ⟨_, true, rfl⟩
      · right
        simp only [if_neg hzero, if_neg hwrite]
        rcases ensureBuffer_result K hensure with rfl | rfl
        · rw [hagain rfl]
          exact Or.inr ⟨rfl, rfl⟩
        · exact Or.inl ⟨rfl, _, rfl⟩
  | fflush => exact absurd rfl hop

theorem exec_standard {op : Op} (hs : s.stream.Standard) (heq : op.exec K s = some (ret, t)) :
    t.stream.Standard := by
  have hhandle := (preserves_handle K).exec heq
  have hkept := (preserves_bufferMode K).exec heq
  refine ⟨(congrArg FILE.implRead hhandle :).trans hs.read,
    (FILE.implWrite_eq hhandle).trans hs.write,
    (congrArg FILE.implClearerr hhandle :).trans hs.clearerr, fun hunset => ?_⟩
  have hbefore : s.stream.flagBufferSet = false := by
    rw [← Bool.not_eq_true]
    intro hset
    rw [(hkept hset).1] at hunset
    cases hunset
  obtain ⟨hread, hwrite, hmode⟩ := hs.idle hbefore
  by_cases hop : op = .fflush
  · subst hop
    have hflush : fflushUnlocked K s = (0, s) := by
      rw [fflushUnlocked_notReading K hread]
      exact if_pos hwrite
    have hcall : Op.exec K s .fflush = some (⟨0, []⟩, s) := by
      unfold Op.exec
      dsimp only
      rw [hflush]
    obtain ⟨-, rfl⟩ := Prod.mk.inj (Option.some.inj (heq.symm.trans hcall))
    exact ⟨hread, hwrite, hmode⟩
  · have hchecked : ∃ r u, ensureBuffer K s = (r, u) ∧ (r = EOF → u.stream = s.stream) ∧
        (r = 0 → u.stream.flagBufferSet = true) ∧ u.stream.mode = s.stream.mode := by
      rcases ensureBuffer_cases K s with
        ⟨hset, hensure⟩ | ⟨_, w, hensure⟩ | ⟨_, address, memory, w, _, hensure⟩
      · exact ⟨0, s, hensure, fun _ => rfl, fun _ => hset, rfl⟩
      · exact ⟨EOF, _, hensure, fun _ => rfl, fun h => absurd h.symm zero_ne_EOF, rfl⟩
      · exact ⟨0, _, hensure, fun h => absurd h zero_ne_EOF, fun _ => rfl, rfl⟩
    obtain ⟨r, u, hensure, hsame, hset, hmode'⟩ := hchecked
    rcases exec_checks hensure hset hmode' hop with
      ⟨ret', error, hcall⟩ | ⟨hr, ret', hcall⟩ | ⟨hr, hcall⟩
    · obtain ⟨-, rfl⟩ := Prod.mk.inj (Option.some.inj (heq.symm.trans hcall))
      exact ⟨hread, hwrite, hmode⟩
    · obtain ⟨-, rfl⟩ := Prod.mk.inj (Option.some.inj (heq.symm.trans hcall))
      rw [hsame hr]
      exact ⟨hread, hwrite, hmode⟩
    · rw [((preserves_bufferMode K).exec (hcall.symm.trans heq) (hset hr)).1] at hunset
      cases hunset

end Standard

/-- What the indicators ought to show. -/
structure Indicators where
  eof : Bool
  error : Bool
  deriving DecidableEq, Repr

/-- A call that meets the end of the file or fails is remembered, until a call that
clears the indicator. -/
def Indicators.after (seen : Indicators) (f : FILE) (ret : Ret) (replies : List Reply) :
    IndicatorOp → Indicators
  | .access op =>
      { eof := (seen.eof || decide (.endOfFile ∈ replies)) && !op.tookBack ret
        error := seen.error || decide (.refused ∈ replies ∨ op.Denied f) }
  | .clearerr => ⟨false, false⟩
  | .rewind => ⟨false, false⟩

/-- The stream shows these indicators. -/
structure FILE.Shows (f : FILE) (seen : Indicators) : Prop where
  eof : feof f ≠ 0 ↔ seen.eof = true
  error : ferror f ≠ 0 ↔ seen.error = true

instance (f : FILE) (seen : Indicators) : Decidable (f.Shows seen) :=
  decidable_of_iff ((feof f ≠ 0 ↔ seen.eof = true) ∧ (ferror f ≠ 0 ↔ seen.error = true))
    ⟨fun h => ⟨h.1, h.2⟩, fun h => ⟨h.eof, h.error⟩⟩

/-- A stream beside what its indicators ought to show. -/
structure Watched (W : Type) where
  state : State (W × List Reply)
  seen : Indicators

/-- What the kernel replied between two states. -/
def repliesBetween (s t : State (W × List Reply)) : List Reply :=
  t.world.2.drop s.world.2.length

def watch (K : Kernel W) (s : Watched W) (op : IndicatorOp) : Option (Ret × Watched W) :=
  (op.exec K.recorded s.state).map fun (ret, t) =>
    (ret, ⟨t, s.seen.after s.state.stream ret (repliesBetween s.state t) op⟩)

/-- The call does not lose the end of file that was seen. A byte to push back has to
be one and find room; what moves no byte through the buffer has to meet the end
again. -/
def Op.KeepsEof (f : FILE) (replies : List Reply) : Op → Prop
  | .ungetc c =>
      (Op.ungetc c).Denied f ∨ .refused ∈ replies ∨
        c ≠ EOF ∧ (f.flagBufferSet = true → f.TakesBack)
  | op => op.Direct f → op.Denied f ∨ .endOfFile ∈ replies

instance (f : FILE) : Decidable f.TakesBack :=
  inferInstanceAs (Decidable (f.bufferedBytesReadOffset = 0 → f.bufferedBytesRead < f.bufferSize))

instance (f : FILE) (op : Op) : Decidable (op.Direct f) := by
  cases op <;> dsimp only [Op.Direct] <;> infer_instance

instance (f : FILE) (replies : List Reply) (op : Op) : Decidable (op.KeepsEof f replies) := by
  cases op <;> dsimp only [Op.KeepsEof] <;> infer_instance

/-- The step leaves the indicators to what they ought to show: no write is answered
with 0, no position is lost by a call that does not fail anyway, the end of file is
kept, and there is nothing to clear. -/
def IndicatorOp.Undisturbed (f : FILE) (replies : List Reply) : IndicatorOp → Prop
  | .access op =>
      .nothingTaken ∉ replies ∧
      (.notMoved ∈ replies → f.flagError = true ∨ .refused ∈ replies ∨ op.Denied f) ∧
      (f.flagEof = true → op.KeepsEof f replies)
  | .clearerr => f.flagEof = false ∧ f.flagError = false
  | .rewind => f.flagEof = false ∧ f.flagError = false

instance (f : FILE) (replies : List Reply) (op : IndicatorOp) :
    Decidable (op.Undisturbed f replies) := by
  cases op <;> dsimp only [IndicatorOp.Undisturbed] <;> infer_instance

section Cycle

variable {K : Kernel W} {s t : State (W × List Reply)} {seen : Indicators} {ret : Ret}

theorem FILE.shows_iff {f : FILE} :
    f.Shows seen ↔ (f.flagEof = true ↔ seen.eof = true) ∧
      (f.flagError = true ↔ seen.error = true) := by
  have heof : feof f ≠ 0 ↔ f.flagEof = true := by simp [feof]
  have herror : ferror f ≠ 0 ↔ f.flagError = true := by simp [ferror]
  constructor
  · intro h
    exact ⟨heof.symm.trans h.eof, herror.symm.trans h.error⟩
  · intro h
    exact ⟨heof.trans h.1, herror.trans h.2⟩

/-- Where the indicators end after a call, from what they were and its replies. -/
theorem shows_after {op : Op} {replies : List Reply} (hshows : s.stream.Shows seen)
    (hmoved : .notMoved ∈ replies → s.stream.flagError = true ∨ .refused ∈ replies ∨
      op.Denied s.stream)
    (heof : t.stream.flagEof = true ↔
      (s.stream.flagEof = true ∨ .endOfFile ∈ replies) ∧ op.tookBack ret = false)
    (herror : t.stream.flagError = true ↔
      s.stream.flagError = true ∨ .refused ∈ replies ∨ .notMoved ∈ replies ∨ op.Denied s.stream) :
    t.stream.Shows (seen.after s.stream ret replies (.access op)) := by
  obtain ⟨heof', herror'⟩ := FILE.shows_iff.mp hshows
  refine FILE.shows_iff.mpr ⟨?_, ?_⟩
  · rw [heof, heof']
    simp [Indicators.after]
  · have hfailed : t.stream.flagError = true ↔
        s.stream.flagError = true ∨ .refused ∈ replies ∨ op.Denied s.stream := by
      rw [herror]
      constructor
      · rintro (h | h | h | h)
        · exact Or.inl h
        · exact Or.inr (Or.inl h)
        · exact hmoved h
        · exact Or.inr (Or.inr h)
      · rintro (h | h | h)
        · exact Or.inl h
        · exact Or.inr (Or.inl h)
        · exact Or.inr (Or.inr (Or.inr h))
    rw [hfailed, herror']
    simp [Indicators.after]

/-- A call of an undisturbed step shows what it ought to. -/
theorem Op.Marks.shows {op : Op} {replies : List Reply} (h : op.Marks s t ret replies)
    (hshows : s.stream.Shows seen)
    (hundisturbed : (IndicatorOp.access op).Undisturbed s.stream replies) :
    t.stream.Shows (seen.after s.stream ret replies (.access op)) := by
  obtain ⟨htaken, hmoved, hkeeps⟩ := hundisturbed
  cases h with
  | added hnoted hfailed =>
    refine shows_after hshows hmoved ?_ hnoted.error
    rw [hnoted.eof]
    simp [htaken, hfailed]
  | direct hnoted hdirect hpermitted =>
    refine shows_after hshows hmoved ?_ hnoted.error
    -- The indicator was cleared on the way, so only meeting the end again keeps it.
    have hagain : s.stream.flagEof = true → op.Denied s.stream ∨ .endOfFile ∈ replies := by
      intro heof
      cases op with
      | ungetc c => cases hdirect
      | _ => exact hkeeps heof hdirect
    have hno : op.tookBack ret = false := by
      cases op with
      | ungetc c => cases hdirect
      | _ => rfl
    rw [hnoted.eof]
    simp only [htaken, hno, Bool.false_eq_true, false_or, or_false, and_true]
    exact ⟨Or.inr, fun h => h.elim (fun heof => (hagain heof).resolve_left hpermitted) id⟩
  | ungetc hop hreplies hsilent hpermitted hback =>
    subst hop hreplies
    refine shows_after hshows hmoved ?_ (hsilent.of_iff (by simp [hpermitted])).error
    have heof : t.stream.flagEof = false := by simpa using hsilent.eof
    have hlost : s.stream.flagEof = true → ret.value ≠ EOF := by
      intro hset
      rcases hkeeps hset with hdenied | hrefused | ⟨hc, htakes⟩
      · exact absurd hdenied hpermitted
      · cases hrefused
      · exact hback hc htakes
    simp only [heof, Op.tookBack, Bool.false_eq_true, false_iff]
    simpa using hlost

theorem Op.Marks.repliesBetween {op : Op} {replies : List Reply} (h : op.Marks s t ret replies) :
    repliesBetween s t = replies := by
  have hlog : t.world.2 = s.world.2 ++ replies := by
    cases h with
    | added hnoted _ => exact hnoted.log
    | direct hnoted _ _ => exact hnoted.log
    | ungetc _ hreplies hsilent _ _ =>
      subst hreplies
      exact hsilent.log
  unfold Stdio.repliesBetween
  rw [hlog, List.drop_left]

theorem clearerrUnlocked_standard (hs : s.stream.Standard) : clearerrUnlocked s = s :=
  if_neg (by simp [hs.clearerr])

theorem rewind_standard (hs : s.stream.Standard) : (rewind K.recorded s).stream = s.stream := by
  have hseek : (fseekoUnlocked K.recorded 0 .seekSet s).2.stream = s.stream := by
    unfold fseekoUnlocked
    split
    · rfl
    · rfl
  unfold rewind
  dsimp only
  rw [clearerrUnlocked_standard (by rw [hseek]; exact hs), hseek]

/-- One undisturbed step. -/
theorem watch_shows {p q : Watched W} {op : IndicatorOp} (hs : p.state.stream.Standard)
    (hshows : p.state.stream.Shows p.seen) (heq : watch K p op = some (ret, q))
    (hundisturbed : op.Undisturbed p.state.stream (repliesBetween p.state q.state)) :
    q.state.stream.Shows q.seen ∧ q.state.stream.Standard := by
  obtain ⟨⟨ret', t⟩, hexec, hpair⟩ := Option.map_eq_some_iff.mp heq
  obtain ⟨rfl, rfl⟩ := Prod.mk.inj hpair
  cases op with
  | access op =>
    obtain ⟨replies, hmarks⟩ := exec_marks hs hexec
    have hreplies := hmarks.repliesBetween
    dsimp only at hundisturbed ⊢
    rw [hreplies] at hundisturbed ⊢
    exact ⟨hmarks.shows hshows hundisturbed, exec_standard hs hexec⟩
  | clearerr =>
    obtain ⟨-, rfl⟩ := Prod.mk.inj (Option.some.inj hexec)
    rw [clearerrUnlocked_standard hs]
    exact ⟨FILE.shows_iff.mpr (by simp [Indicators.after, hundisturbed.1, hundisturbed.2]), hs⟩
  | rewind =>
    obtain ⟨-, rfl⟩ := Prod.mk.inj (Option.some.inj hexec)
    rw [rewind_standard hs]
    exact ⟨FILE.shows_iff.mpr (by simp [Indicators.after, hundisturbed.1, hundisturbed.2]), hs⟩

end Cycle

/-- A stream that nothing has been done with but setting its buffer. -/
structure FILE.New (f : FILE) : Prop extends f.Standard where
  eof : f.flagEof = false
  error : f.flagError = false

namespace FILE.New

variable {f g : FILE}

theorem opened (fd : ℤ) (lock : ℕ) (mode : ModeFlags) :
    ((default : FILE).opened fd lock mode).New :=
  ⟨⟨rfl, rfl, rfl, fun _ => ⟨rfl, rfl, rfl⟩⟩, rfl, rfl⟩

theorem attachBuffer (h : f.New) (address : ℕ) (memory : List UInt8) (mode : BufferMode)
    (library : Bool) : (attachBuffer address memory mode library f).New :=
  ⟨⟨h.read, h.write, h.clearerr, fun hunset => nomatch hunset⟩, h.eof, h.error⟩

theorem of_unlinked (h : f.New) (heq : g.unlinked = f.unlinked) : g.New := by
  rw [FILE.eq_of_unlinked heq]
  exact ⟨⟨h.read, h.write, h.clearerr, h.idle⟩, h.eof, h.error⟩

theorem of_opens {p : ℕ} {s t : Libc W} (h : Libc.Opens p default s t) :
    ∃ f, t.files p = some f ∧ f.New := by
  obtain ⟨fd, lock, flags, hsame, -⟩ := h
  have hbody := hsame p
  rw [Libc.put_self, Option.map_some] at hbody
  obtain ⟨f, hf, hunlinked⟩ := Option.map_eq_some_iff.mp hbody
  exact ⟨f, hf, (FILE.New.opened fd lock flags).of_unlinked hunlinked⟩

end FILE.New

theorem fopen_new (K : Kernel W) {s t : Libc W} {file p : ℕ} {filename mode : String}
    (h : fopen K file filename mode s = some (p, t)) (hp : p ≠ 0) :
    ∃ f, t.files p = some f ∧ f.New := by
  unfold fopen at h
  by_cases hfile : file = 0
  · rw [if_pos hfile] at h
    exact absurd (Prod.mk.inj (Option.some.inj h)).1.symm hp
  · rw [if_neg hfile] at h
    obtain ⟨⟨res, u⟩, hopen, h⟩ := Option.bind_eq_some_iff.mp h
    dsimp only at h
    rcases fopenStatic_opens K hopen with ⟨rfl, _, _⟩ | ⟨rfl, f, hf, hopens⟩
    · rw [if_pos rfl] at h
      exact absurd (Prod.mk.inj (Option.some.inj h)).1.symm hp
    · rw [if_neg hfile] at h
      obtain ⟨rfl, rfl⟩ := Prod.mk.inj (Option.some.inj h)
      rw [Libc.put_self] at hf
      obtain rfl := Option.some.inj hf
      exact FILE.New.of_opens hopens

theorem fdopen_new (K : Kernel W) {s t : Libc W} {file p : ℕ} {fd : ℤ} {mode : String}
    (h : fdopen K file fd mode s = some (p, t)) (hp : p ≠ 0) :
    ∃ f, t.files p = some f ∧ f.New := by
  unfold fdopen at h
  by_cases hfile : file = 0
  · rw [if_pos hfile] at h
    exact absurd (Prod.mk.inj (Option.some.inj h)).1.symm hp
  · rw [if_neg hfile] at h
    obtain ⟨⟨r, u⟩, hopen, h⟩ := Option.bind_eq_some_iff.mp h
    dsimp only at h
    rcases fdopenStatic_opens K hopen with ⟨rfl, _, _⟩ | ⟨rfl, f, hf, hopens⟩
    · rw [if_pos rfl] at h
      exact absurd (Prod.mk.inj (Option.some.inj h)).1.symm hp
    · rw [if_neg zero_ne_EOF] at h
      obtain ⟨rfl, rfl⟩ := Prod.mk.inj (Option.some.inj h)
      rw [Libc.put_self] at hf
      obtain rfl := Option.some.inj hf
      exact FILE.New.of_opens hopens

/-- Nothing is to be shown yet. -/
def Watched.start (s : State (W × List Reply)) : Watched W := ⟨s, ⟨false, false⟩⟩

/-- The indicators show what they ought to in every state of a run whose steps leave
them to it. -/
theorem indicators_truthful (K : Kernel W) (ops : List IndicatorOp) (s : State (W × List Reply))
    (hs : s.stream.New)
    (hundisturbed : Throughout (watch K)
      (fun p op _ q => op.Undisturbed p.state.stream (repliesBetween p.state q.state))
      (fun _ => True) ops (.start s)) :
    Throughout (watch K) (fun _ _ _ q => q.state.stream.Shows q.seen)
      (fun p => p.state.stream.Shows p.seen) ops (.start s) := by
  refine Throughout.mono (I := fun p => p.state.stream.Standard ∧ p.state.stream.Shows p.seen)
    ?_ (fun p hp _ => hp.2) ⟨hs.toStandard, ?_⟩ hundisturbed
  · rintro p op ret q ⟨hstandard, hshows⟩ heq hstep
    obtain ⟨hshows', hstandard'⟩ := watch_shows hstandard hshows heq hstep
    exact ⟨hshows', hstandard', hshows'⟩
  · exact FILE.shows_iff.mpr (by simp [Watched.start, hs.eof, hs.error])

theorem openedStream_new (mode : ModeFlags) (memory : List UInt8) (bufferMode : BufferMode) :
    (openedStream mode memory bufferMode).New :=
  (FILE.New.opened 3 1 mode).attachBuffer 4096 memory bufferMode false

/-- A byte, the end of the file, a byte pushed back over it, and nothing to clear. -/
theorem indicators_truthful_pushed :
    Throughout (watch (sourceKernel 0)) (fun _ _ _ q => q.state.stream.Shows q.seen)
      (fun p => p.state.stream.Shows p.seen)
      [.access .fgetc, .access .fgetc, .access (.ungetc 98), .clearerr]
      (.start ⟨openedStream readFlags [0] .iofbf, [97], []⟩) :=
  indicators_truthful _ _ _ (openedStream_new readFlags [0] .iofbf) (by decide +kernel)

/-- At the end of the file: `clearerr` clears nothing, and an `ungetc` that fails does. -/
theorem indicators_stuck :
    (openedStream readFlags [0] .iofbf).New ∧
    ¬ Throughout (watch (sourceKernel 0)) (fun _ _ _ q => q.state.stream.Shows q.seen)
      (fun p => p.state.stream.Shows p.seen) [.access .fgetc, .clearerr]
      (.start ⟨openedStream readFlags [0] .iofbf, [], []⟩) ∧
    ¬ Throughout (watch (sourceKernel 0)) (fun _ _ _ q => q.state.stream.Shows q.seen)
      (fun p => p.state.stream.Shows p.seen) [.access .fgetc, .access (.ungetc EOF)]
      (.start ⟨openedStream readFlags [0] .iofbf, [], []⟩) :=
  ⟨openedStream_new readFlags [0] .iofbf, by decide +kernel, by decide +kernel⟩

end Heartix.Stdio
