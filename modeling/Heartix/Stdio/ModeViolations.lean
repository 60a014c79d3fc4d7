import Heartix.Stdio.Indicators
import Heartix.Stdio.ElementCounts
import Heartix.Stdio.Reading

/-!
Calls the mode forbids. `fread` and `fwrite` look at the mode first and set the
error indicator, which no call reads. `fgetc` and `fputc` on a buffered stream
leave the mode to the flushes: the byte of a forbidden `fputc` is stored, and the
direction that a forbidden call has set can never be left again, because the
flush that would leave it is forbidden as well.
-/

namespace Heartix.Stdio

open Runs

variable {W : Type}

/-- The calls the mode does not permit. -/
def Op.forbidden (mode : ModeFlags) : Op → Bool
  | .fgetc => !mode.read
  | .fread _ _ => !mode.read
  | .fputc _ => !mode.write
  | .fwrite _ _ _ => !mode.write
  | _ => false

/-- The call returns EOF, which is 2^64 - 1 as a count, or no elements. -/
def Op.Rejects (ret : Ret) : Op → Prop
  | .fgetc => ret.value = EOF
  | .fputc _ => ret.value = EOF
  | .fread _ _ => (ret.value = (SIZE_MAX : ℕ) ∨ ret.value = 0) ∧ ret.bytes = []
  | .fwrite _ _ _ => ret.value = (SIZE_MAX : ℕ) ∨ ret.value = 0
  | _ => True

/-- The calls that move one byte. -/
def Op.SingleByte : Op → Prop
  | .fgetc => True
  | .fputc _ => True
  | _ => False

/-- The answers of the permitted calls among all the answers of a run. -/
def permittedAnswers (mode : ModeFlags) (ops : List Op) (rets : List Ret) : List Ret :=
  ((ops.zip rets).filter fun call => !call.1.forbidden mode).map Prod.snd

/-- Forbidden calls are rejected without changing the file, and the permitted ones
answer as in the run without the forbidden ones. -/
structure Isolated (K : Kernel W) (ops : List Op) (s : State W) : Prop where
  rejected : Throughout (Op.exec K)
    (fun u op ret t => op.forbidden s.stream.mode = true → op.Rejects ret ∧ t.world = u.world)
    (fun _ => True) ops s
  permitted : (answers (Op.exec K) ops s).map (permittedAnswers s.stream.mode ops) =
    answers (Op.exec K) (ops.filter fun op => !op.forbidden s.stream.mode) s

section Isolation

variable {K : Kernel W} {s t : State W}

/-- A forbidden block transfer sets the error indicator at most. -/
theorem exec_forbidden {op : Op} (hforbidden : op.forbidden s.stream.mode = true)
    (hblock : ¬ op.SingleByte) :
    ∃ ret error, op.exec K s = some (ret, s.marked s.stream.flagEof error) ∧ op.Rejects ret := by
  cases op with
  | fread size nmemb =>
    have hread : s.stream.mode.read = false := by simpa [Op.forbidden] using hforbidden
    unfold Op.exec freadUnlocked
    dsimp only
    by_cases hzero : size = 0 ∨ nmemb = 0
    · rw [if_pos hzero]
      exact ⟨_, s.stream.flagError, rfl, Or.inr rfl, rfl⟩
    · rw [if_neg hzero, if_pos hread]
      exact ⟨_, true, rfl, Or.inl rfl, rfl⟩
  | fwrite size nmemb ptr =>
    have hwrite : s.stream.mode.write = false := by simpa [Op.forbidden] using hforbidden
    unfold Op.exec fwriteUnlocked
    dsimp only
    by_cases hzero : size = 0 ∨ nmemb = 0
    · rw [if_pos hzero]
      exact ⟨_, s.stream.flagError, rfl, Or.inr rfl⟩
    · rw [if_neg hzero, if_pos hwrite]
      exact ⟨_, true, rfl, Or.inl rfl⟩
  | fgetc => exact absurd trivial hblock
  | fputc c => exact absurd trivial hblock
  | _ => cases hforbidden

/-- The run beside the one without the forbidden calls; the two streams differ in
their indicators. -/
theorem answers_permitted {mode : ModeFlags} {ops : List Op}
    (htransfers : ∀ op ∈ ops, op.Transfers)
    (hblocks : ∀ op ∈ ops, op.forbidden mode = true → ¬ op.SingleByte) (s : State W)
    (hmode : s.stream.mode = mode) (eof error : Bool) :
    (answers (Op.exec K) ops s).map (permittedAnswers mode ops) =
      answers (Op.exec K) (ops.filter fun op => !op.forbidden mode) (s.marked eof error) := by
  induction ops generalizing s eof error with
  | nil => rfl
  | cons op ops ih =>
    have htransfers' := fun o ho => htransfers o (List.mem_cons_of_mem op ho)
    have hblocks' := fun o ho => hblocks o (List.mem_cons_of_mem op ho)
    cases hforbidden : op.forbidden mode with
    | true =>
      subst hmode
      obtain ⟨ret, error', hexec, -⟩ :=
        exec_forbidden (K := K) hforbidden (hblocks op List.mem_cons_self hforbidden)
      have hrest := ih htransfers' hblocks' (s.marked s.stream.flagEof error') rfl eof error
      have hskip : permittedAnswers s.stream.mode (op :: ops) ∘ (ret :: ·) =
          permittedAnswers s.stream.mode ops := by
        funext rets
        simp [permittedAnswers, hforbidden]
      rw [answers_cons_some hexec, Option.map_map, hskip, hrest,
        List.filter_cons_of_neg (by simp [hforbidden])]
    | false =>
      obtain ⟨eof', error', hmarked⟩ :=
        exec_marked K eof error (htransfers op List.mem_cons_self) s
      rw [List.filter_cons_of_pos (by simp [hforbidden])]
      rcases hexec : op.exec K s with _ | ⟨ret, t⟩
      · rw [hexec] at hmarked
        rw [answers_cons_none hexec, answers_cons_none hmarked]
        rfl
      · rw [hexec] at hmarked
        have hmode' : t.stream.mode = mode :=
          (FILE.mode_eq ((preserves_handle K).exec hexec)).trans hmode
        have hrest := ih htransfers' hblocks' t hmode' eof' error'
        have htake : permittedAnswers mode (op :: ops) ∘ (ret :: ·) =
            (ret :: ·) ∘ permittedAnswers mode ops := by
          funext rets
          simp [permittedAnswers, hforbidden]
        rw [answers_cons_some hexec, answers_cons_some hmarked, Option.map_map, htake, ← hrest,
          Option.map_map]

theorem throughout_rejected {mode : ModeFlags} {ops : List Op}
    (hblocks : ∀ op ∈ ops, op.forbidden mode = true → ¬ op.SingleByte) (s : State W)
    (hmode : s.stream.mode = mode) :
    Throughout (Op.exec K)
      (fun u op ret t => op.forbidden mode = true → op.Rejects ret ∧ t.world = u.world)
      (fun _ => True) ops s := by
  induction ops generalizing s with
  | nil => trivial
  | cons op ops ih =>
    intro ret t hexec
    have hmode' : t.stream.mode = mode :=
      (FILE.mode_eq ((preserves_handle K).exec hexec)).trans hmode
    refine ⟨fun hforbidden => ?_, ih (fun o ho => hblocks o (List.mem_cons_of_mem op ho)) t hmode'⟩
    subst hmode
    obtain ⟨ret', error, hexec', hrejects⟩ :=
      exec_forbidden (K := K) hforbidden (hblocks op List.mem_cons_self hforbidden)
    obtain ⟨rfl, rfl⟩ := Prod.mk.inj (Option.some.inj (hexec'.symm.trans hexec))
    exact ⟨hrejects, rfl⟩

/-- Mode violations are isolated in every run without forbidden calls of `fgetc`
and `fputc`. -/
theorem mode_violations_isolated (K : Kernel W) (ops : List Op) (s : State W)
    (hops : ∀ op ∈ ops, op.Transfers)
    (hblocks : ∀ op ∈ ops, op.forbidden s.stream.mode = true → ¬ op.SingleByte) :
    Isolated K ops s :=
  ⟨throughout_rejected hblocks s rfl,
    answers_permitted hops hblocks s rfl s.stream.flagEof s.stream.flagError⟩

end Isolation

section Blocked

/-- The stream has to leave the write direction before it is read, and may not. -/
structure FILE.ClosedToReading (f : FILE) : Prop where
  set : f.flagBufferSet = true
  buffered : f.bufferMode ≠ .ionbf
  writing : f.flagDirectionWrite = true
  denied : f.mode.write = false

/-- The stream has to leave the read direction before it is written, and may not. -/
structure FILE.ClosedToWriting (f : FILE) : Prop where
  set : f.flagBufferSet = true
  buffered : f.bufferMode ≠ .ionbf
  reading : f.flagDirectionRead = true
  denied : f.mode.read = false

variable {K : Kernel W} {s t : State W} {r : ℤ}

theorem fflushWriteUnlocked_denied (hwriting : s.stream.flagDirectionWrite = true)
    (hdenied : s.stream.mode.write = false) : fflushWriteUnlocked K s = (EOF, s.setError) := by
  unfold fflushWriteUnlocked
  rw [if_neg (by simp [hwriting]), if_pos hdenied]

theorem fflushReadUnlocked_denied (hreading : s.stream.flagDirectionRead = true)
    (hdenied : s.stream.mode.read = false) : fflushReadUnlocked K s = (EOF, s.setError) := by
  unfold fflushReadUnlocked
  rw [if_neg (by simp [hreading]), if_pos hdenied]

theorem storeByte_writing {c8 : UInt8} (heq : storeByte c8 s = some t) :
    t.stream.flagDirectionWrite = true := by
  unfold storeByte at heq
  split at heq
  · obtain rfl := Option.some.inj heq
    rfl
  · cases heq

/-- Taking bytes from the buffer leaves the directions alone. -/
theorem takeByte_directions (heq : takeByte s = some (r, t)) :
    t.stream.flagDirectionRead = s.stream.flagDirectionRead ∧
      t.stream.flagDirectionWrite = s.stream.flagDirectionWrite := by
  unfold takeByte at heq
  split at heq
  · cases heq
  · obtain ⟨-, rfl⟩ := Prod.mk.inj (Option.some.inj heq)
    exact ⟨rfl, rfl⟩

theorem fillBuffer_directions (K : Kernel W) (s : State W) :
    (fillBuffer K s).2.stream.flagDirectionRead = s.stream.flagDirectionRead ∧
      (fillBuffer K s).2.stream.flagDirectionWrite = s.stream.flagDirectionWrite := by
  unfold fillBuffer implRead
  dsimp only
  generalize s.stream.bufferSize - _ = len
  rcases K.read s.stream.fileDescriptor len s.world with ⟨_ | ⟨_ | ⟨b, bytes⟩, _⟩, w⟩
  · exact ⟨rfl, rfl⟩
  · exact ⟨rfl, rfl⟩
  · exact ⟨rfl, rfl⟩

theorem readBuffered_directions (heq : readBuffered K s = some (r, t)) :
    t.stream.flagDirectionRead = s.stream.flagDirectionRead ∧
      t.stream.flagDirectionWrite = s.stream.flagDirectionWrite := by
  have hfill := fillBuffer_directions K s
  unfold readBuffered at heq
  generalize fillBuffer K s = result at hfill heq
  obtain ⟨r', u⟩ := result
  split at heq
  · dsimp only at heq hfill
    split at heq
    · obtain ⟨-, rfl⟩ := Prod.mk.inj (Option.some.inj heq)
      exact hfill
    · obtain ⟨hread, hwrite⟩ := takeByte_directions heq
      exact ⟨hread.trans hfill.1, hwrite.trans hfill.2⟩
  · exact takeByte_directions heq

theorem FILE.ClosedToReading.fgetc (h : s.stream.ClosedToReading) :
    fgetcUnlocked K s = some (EOF, s.setError) := by
  have hensure : ensureBuffer K s = (0, s) := if_pos h.set
  unfold fgetcUnlocked
  simp only [hensure, zero_ne_EOF, if_false, h.buffered]
  rw [ite_fflushWriteUnlocked, fflushWriteUnlocked_denied h.writing h.denied]
  rfl

theorem FILE.ClosedToWriting.fputc (h : s.stream.ClosedToWriting) (c : ℤ) :
    fputcUnlocked K c s = some (EOF, s.setError) := by
  have hensure : ensureBuffer K s = (0, s) := if_pos h.set
  have hroom : makeRoom K s = (EOF, s.setError) := by
    unfold makeRoom
    rw [ite_fflushReadUnlocked, fflushReadUnlocked_denied h.reading h.denied]
    rfl
  unfold fputcUnlocked
  simp only [hensure, zero_ne_EOF, if_false, h.buffered, hroom]
  rfl

/-- A flush that is not permitted leaves the direction as it is. -/
theorem fflushWriteUnlocked_stays (hflush : fflushWriteUnlocked K s = (r, t))
    (hdenied : t.stream.mode.write = false)
    (hcase : r = EOF ∨ s.stream.flagDirectionWrite = true) :
    t.stream.flagDirectionWrite = true := by
  have hmode : t.stream.mode = s.stream.mode := by
    have hrecord := fflushWriteUnlocked_record K s
    rw [hflush] at hrecord
    exact FILE.mode_eq (FILE.handle_of_record hrecord)
  have hwriting : s.stream.flagDirectionWrite = true := by
    by_contra hnot
    have hskip : fflushWriteUnlocked K s = (0, s) := if_pos (by simpa using hnot)
    rcases hcase with rfl | hwriting
    · exact zero_ne_EOF (Prod.mk.inj (hskip.symm.trans hflush)).1
    · exact hnot hwriting
  rw [fflushWriteUnlocked_denied hwriting (hmode ▸ hdenied)] at hflush
  obtain ⟨-, rfl⟩ := Prod.mk.inj hflush
  exact hwriting

/-- A forbidden `fputc` closes a read-only stream to reading. -/
theorem fputc_closesToReading {c : ℤ} (hset : s.stream.flagBufferSet = true)
    (hbuffered : s.stream.bufferMode ≠ .ionbf) (hread : s.stream.mode.read = true)
    (hwrite : s.stream.mode.write = false) (heq : fputcUnlocked K c s = some (r, t)) :
    t.stream.ClosedToReading := by
  have hdenied : t.stream.mode.write = false := by
    rw [FILE.mode_eq (fputcUnlocked_handle K heq)]
    exact hwrite
  obtain ⟨hset', hbuffered'⟩ := (preserves_bufferMode K).fputcUnlocked heq hset
  refine ⟨hset', hbuffered' ▸ hbuffered, ?_, hdenied⟩
  have hensured : ensureBuffer K s = (0, s) := if_pos hset
  have hput := fputcUnlocked_putting K (fun _ => hbuffered) heq
  cases hput with
  | noBuffer hensure => exact absurd (Prod.mk.inj (hensured.symm.trans hensure)).1 zero_ne_EOF
  | noRoom hensure hroom =>
    obtain ⟨-, rfl⟩ := Prod.mk.inj (hensured.symm.trans hensure)
    cases hroom with
    | denied hflush =>
      rcases fflushReadUnlocked_cases K s with
        ⟨_, hcase⟩ | ⟨_, hnot, _⟩ | ⟨_, _, _, _, hcase⟩
      · exact absurd (Prod.mk.inj (hcase.symm.trans hflush)).1 zero_ne_EOF
      · exact absurd hread (by simp [hnot])
      · exact absurd (Prod.mk.inj (hcase.symm.trans hflush)).1 zero_ne_EOF
    | flushed _ _ hflush => exact fflushWriteUnlocked_stays hflush hdenied (Or.inl rfl)
  | stored _ _ hstore => exact storeByte_writing hstore
  | flushed _ _ hstore hflush =>
    exact fflushWriteUnlocked_stays hflush hdenied (Or.inr (storeByte_writing hstore))

/-- A forbidden `fgetc` closes a write-only stream to writing, unless the flush of
what has been written fails. -/
theorem fgetc_closesToWriting (hset : s.stream.flagBufferSet = true)
    (hbuffered : s.stream.bufferMode ≠ .ionbf) (hread : s.stream.mode.read = false)
    (heq : fgetcUnlocked K s = some (r, t)) :
    (fflushWriteUnlocked K s).1 = EOF ∨ t.stream.ClosedToWriting := by
  have hdenied : t.stream.mode.read = false := by
    rw [FILE.mode_eq (FILE.handle_of_record (fgetcUnlocked_record K heq))]
    exact hread
  obtain ⟨hset', hbuffered'⟩ := (preserves_bufferMode K).fgetcUnlocked heq hset
  have hensure : ensureBuffer K s = (0, s) := if_pos hset
  unfold fgetcUnlocked at heq
  simp only [hensure, zero_ne_EOF, if_false, hbuffered] at heq
  rw [ite_fflushWriteUnlocked] at heq
  rcases hflush : fflushWriteUnlocked K s with ⟨r', u⟩
  rw [hflush] at heq
  rcases fflushWriteUnlocked_result K hflush with rfl | rfl
  · right
    refine ⟨hset', hbuffered' ▸ hbuffered, ?_, hdenied⟩
    simp only [zero_ne_EOF, if_false] at heq
    exact (readBuffered_directions heq).1
  · exact Or.inl rfl

end Blocked

/-- A read-only stream with a byte to read: the forbidden `fputc` returns its byte
and the byte to read is lost. A write-only one: the forbidden `fgetc` makes the
`fputc` after it fail. -/
theorem mode_violations_spread :
    ¬ Isolated (sourceKernel 0) [.fputc 66, .fgetc]
      ⟨openedStream readFlags [0, 0] .iofbf, [97]⟩ ∧
    ¬ Isolated scriptedKernel [.fgetc, .fputc 97]
      ⟨openedStream writeFlags [0, 0] .iofbf, []⟩ := by
  constructor
  · intro h
    exact absurd h.permitted (by decide +kernel)
  · intro h
    exact absurd h.permitted (by decide +kernel)

/-- Reading from a write-only stream in blocks, between two bytes written. -/
theorem mode_violations_isolated_blocks :
    Isolated scriptedKernel [.fputc 97, .fread 1 2, .fputc 98]
      ⟨openedStream writeFlags [0, 0] .iofbf, []⟩ :=
  mode_violations_isolated _ _ _ (by simp [Op.Transfers])
    (by simp [Op.forbidden, Op.SingleByte, openedStream, writeFlags, attachBuffer, FILE.opened])

end Heartix.Stdio
