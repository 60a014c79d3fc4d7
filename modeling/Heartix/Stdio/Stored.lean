import Heartix.Stdio.BufferBounds
import Heartix.Stdio.Handle

/-!
What a call has written, by the value it returned, is among the bytes it put
into the buffer. No other operation puts any there.
-/

namespace Heartix.Stdio

variable {W : Type}

/-- The bytes a call has written, by the value it returned. -/
def Op.written (ret : Ret) : Op → List UInt8
  | .fputc c => if ret.value = EOF then [] else [toByte c]
  | .fwrite size _ ptr =>
      if ret.value = SIZE_MAX then [] else ptr.toList.take (ret.value.toNat * size)
  | _ => []

/-- A call of `fputc` that returns leaves the stream sound. -/
theorem fputcUnlocked_sound_of_some (K : Kernel W) {c r : ℤ} {s t : State W}
    (hs : s.stream.Sound) (heq : fputcUnlocked K c s = some (r, t)) : t.stream.Sound := by
  have hno : ¬ s.stream.Overruns := by
    intro hover
    rw [fputcUnlocked_overruns K c hs hover] at heq
    cases heq
  obtain ⟨_, _, heq', ht, _⟩ := fputcUnlocked_sound K c hs hno
  obtain ⟨-, rfl⟩ := Prod.mk.inj (Option.some.inj (heq.symm.trans heq'))
  exact ht

theorem ensureBuffer_stored (K : Kernel W) {s t : State W} {r : ℤ}
    (heq : ensureBuffer K s = (r, t)) : t.stream.stored = s.stream.stored := by
  have hkeep := ensureBuffer_record K s
  rw [heq] at hkeep
  exact FILE.stored_of_record hkeep

theorem fflushWriteUnlocked_stored (K : Kernel W) {s t : State W} {r : ℤ}
    (heq : fflushWriteUnlocked K s = (r, t)) : t.stream.stored = s.stream.stored := by
  have hkeep := fflushWriteUnlocked_record K s
  rw [heq] at hkeep
  exact FILE.stored_of_record hkeep

theorem fflushReadUnlocked_stored (K : Kernel W) {s t : State W} {r : ℤ}
    (heq : fflushReadUnlocked K s = (r, t)) : t.stream.stored = s.stream.stored := by
  have hkeep := fflushReadUnlocked_record K s
  rw [heq] at hkeep
  exact FILE.stored_of_record hkeep

theorem MakingRoom.stored {K : Kernel W} {s t : State W} {r : ℤ}
    (hroom : MakingRoom K s r t) : t.stream.stored = s.stream.stored := by
  cases hroom with
  | denied hread => exact fflushReadUnlocked_stored K hread
  | free hread _ => exact fflushReadUnlocked_stored K hread
  | flushed hread _ hwrite =>
    exact (fflushWriteUnlocked_stored K hwrite).trans (fflushReadUnlocked_stored K hread)

theorem storeByte_stored {s t : State W} {c8 : UInt8} (heq : storeByte c8 s = some t) :
    t.stream.stored = s.stream.stored ++ [c8] := by
  unfold storeByte at heq
  split at heq
  · obtain rfl := Option.some.inj heq
    rfl
  · cases heq

/-- A successful `fputc` has stored its byte. -/
theorem fputcUnlocked_stored (K : Kernel W) {c r : ℤ} {s t : State W} (hs : s.stream.Sound)
    (heq : fputcUnlocked K c s = some (r, t)) :
    ∃ l, t.stream.stored = s.stream.stored ++ l ∧ (r = EOF ∨ l = [toByte c]) := by
  cases fputcUnlocked_putting K (fun hset => (hs.buffered hset).1) heq with
  | noBuffer hensure =>
    exact ⟨[], by simp [ensureBuffer_stored K hensure], Or.inl rfl⟩
  | noRoom hensure hroom =>
    exact ⟨[], by simp [hroom.stored, ensureBuffer_stored K hensure], Or.inl rfl⟩
  | stored hensure hroom hstore =>
    refine ⟨[toByte c], ?_, Or.inr rfl⟩
    rw [storeByte_stored hstore, hroom.stored, ensureBuffer_stored K hensure]
  | flushed hensure hroom hstore hflush =>
    refine ⟨[toByte c], ?_, Or.inr rfl⟩
    rw [fflushWriteUnlocked_stored K hflush, storeByte_stored hstore, hroom.stored,
      ensureBuffer_stored K hensure]

/-- `fwrite` stores the first `k` bytes, and the elements it reports lie within. -/
theorem fwriteLoop_stored (K : Kernel W) {size nmemb done n : ℕ} {ptr : List UInt8}
    {s t : State W} (hs : s.stream.Sound)
    (heq : fwriteLoop K size nmemb done ptr s = some (n, t)) :
    t.stream.Sound ∧ ∃ l k, t.stream.stored = s.stream.stored ++ l ∧
      (ptr.take k).Sublist l ∧ (n * size ≤ done + k ∨ n = nmemb ∧ k = ptr.length) := by
  induction ptr generalizing done s with
  | nil =>
    obtain ⟨rfl, rfl⟩ := Prod.mk.inj (Option.some.inj heq)
    exact ⟨hs, [], 0, by simp, by simp, Or.inr ⟨rfl, rfl⟩⟩
  | cons b ptr ih =>
    unfold fwriteLoop at heq
    rcases hput : fputcUnlocked K b.toNat s with _ | ⟨r, u⟩
    · simp [hput] at heq
    · simp only [hput] at heq
      have hu := fputcUnlocked_sound_of_some K hs hput
      obtain ⟨l, hstored, hl⟩ := fputcUnlocked_stored K hs hput
      by_cases hr : r = EOF
      · rw [if_pos hr] at heq
        obtain ⟨rfl, rfl⟩ := Prod.mk.inj (Option.some.inj heq)
        exact ⟨hu, l, 0, hstored, by simp, Or.inl (Nat.div_mul_le_self done size)⟩
      · rw [if_neg hr] at heq
        obtain ⟨ht, l', k, hstored', hsub, hn⟩ := ih hu heq
        have hb : l = [b] := by simpa using hl.resolve_left hr
        refine ⟨ht, l ++ l', k + 1, ?_, ?_, ?_⟩
        · rw [hstored', hstored, List.append_assoc]
        · rw [hb, List.take_succ_cons]
          exact hsub.cons_cons b
        · rcases hn with hn | ⟨hn, hk⟩
          · left
            omega
          · exact Or.inr ⟨hn, by simp [hk]⟩

theorem fwriteUnlocked_stored (K : Kernel W) {size nmemb n : ℕ} {ptr : List UInt8}
    {s t : State W} (hptr : ptr.length = size * nmemb) (hs : s.stream.Sound)
    (heq : fwriteUnlocked K ptr size nmemb s = some (n, t)) :
    t.stream.Sound ∧ ∃ l, t.stream.stored = s.stream.stored ++ l ∧
      (n = SIZE_MAX ∨ (ptr.take (n * size)).Sublist l) := by
  unfold fwriteUnlocked at heq
  by_cases hzero : size = 0 ∨ nmemb = 0
  · rw [if_pos hzero] at heq
    obtain ⟨rfl, rfl⟩ := Prod.mk.inj (Option.some.inj heq)
    exact ⟨hs, [], by simp, Or.inr (by simp)⟩
  · rw [if_neg hzero] at heq
    by_cases hmode : s.stream.mode.write = false
    · rw [if_pos hmode] at heq
      obtain ⟨rfl, rfl⟩ := Prod.mk.inj (Option.some.inj heq)
      exact ⟨setError_sound hs, [], (List.append_nil _).symm, Or.inl rfl⟩
    · rw [if_neg hmode] at heq
      obtain ⟨r, u, hensure, hu, hres⟩ := ensureBuffer_sound K hs
      have hstored := ensureBuffer_stored K hensure
      simp only [hensure] at heq
      rcases hres with ⟨rfl, _, _⟩ | ⟨rfl, hset, _, _⟩
      · rw [if_pos rfl] at heq
        obtain ⟨rfl, rfl⟩ := Prod.mk.inj (Option.some.inj heq)
        exact ⟨hu, [], by simp [hstored], Or.inl rfl⟩
      · rw [if_neg zero_ne_EOF, if_neg (hu.buffered hset).1] at heq
        obtain ⟨ht, l, k, hstored', hsub, hn⟩ := fwriteLoop_stored K hu heq
        refine ⟨ht, l, by rw [hstored', hstored], Or.inr ?_⟩
        have hle : ptr.take (n * size) = (ptr.take k).take (n * size) := by
          rw [List.take_take]
          rcases hn with hn | ⟨rfl, rfl⟩
          · rw [Nat.min_eq_left (by omega)]
          · rw [hptr, Nat.mul_comm, Nat.min_self]
        rw [hle]
        exact (List.take_sublist _ _).trans hsub

/-- On a buffered stream the bytes a call has written are among those it stored. -/
theorem Op.exec_stored (K : Kernel W) {op : Op} {ret : Ret} {s t : State W}
    (hs : s.stream.Sound) (h : op.exec K s = some (ret, t)) :
    ∃ l, t.stream.stored = s.stream.stored ++ l ∧ (op.written ret).Sublist l := by
  cases op with
  | fgetc =>
    obtain ⟨⟨c, u⟩, hcall, hpair⟩ := Option.map_eq_some_iff.mp h
    obtain ⟨rfl, rfl⟩ := Prod.mk.inj hpair
    exact ⟨[], by simp [FILE.stored_of_record (fgetcUnlocked_record K hcall)],
      List.nil_sublist []⟩
  | fread size nmemb =>
    obtain ⟨⟨n, bytes, u⟩, hcall, hpair⟩ := Option.map_eq_some_iff.mp h
    obtain ⟨rfl, rfl⟩ := Prod.mk.inj hpair
    exact ⟨[], by simp [FILE.stored_of_record (freadUnlocked_record K hcall)],
      List.nil_sublist []⟩
  | ungetc c =>
    obtain ⟨⟨r, u⟩, hcall, hpair⟩ := Option.map_eq_some_iff.mp h
    obtain ⟨rfl, rfl⟩ := Prod.mk.inj hpair
    exact ⟨[], by simp [FILE.stored_of_record (fungetcUnlocked_record K hcall)],
      List.nil_sublist []⟩
  | fputc c =>
    obtain ⟨⟨r, u⟩, hcall, hpair⟩ := Option.map_eq_some_iff.mp h
    obtain ⟨rfl, rfl⟩ := Prod.mk.inj hpair
    obtain ⟨l, hstored, hl⟩ := fputcUnlocked_stored K hs hcall
    refine ⟨l, hstored, ?_⟩
    by_cases hr : r = EOF
    · simp [Op.written, hr]
    · simp [Op.written, hr, hl.resolve_left hr]
  | fwrite size nmemb ptr =>
    obtain ⟨⟨n, u⟩, hcall, hpair⟩ := Option.map_eq_some_iff.mp h
    obtain ⟨rfl, rfl⟩ := Prod.mk.inj hpair
    obtain ⟨_, l, hstored, hl⟩ := fwriteUnlocked_stored K (by simp) hs hcall
    refine ⟨l, hstored, ?_⟩
    by_cases hn : (n : ℤ) = SIZE_MAX
    · simp [Op.written, hn]
    · have hn' : n ≠ SIZE_MAX := fun heq => hn (by rw [heq])
      simpa only [Op.written, if_neg hn, Int.toNat_natCast] using hl.resolve_left hn'
  | fflush =>
    obtain ⟨-, rfl⟩ := Prod.mk.inj (Option.some.inj h)
    have hstored := FILE.stored_of_record (fflushUnlocked_record K s)
    exact ⟨[], hstored.trans (List.append_nil _).symm, List.nil_sublist []⟩

end Heartix.Stdio
