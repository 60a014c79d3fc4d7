import Heartix.Lib.Ledger
import Heartix.Lib.Runs
import Heartix.Stdio.OpenFileList

/-!
Who frees the buffer of a stream. The blocks that `malloc` gives and `free` takes
back are entered in a ledger beside the world. While the stream is used what the
library holds is the buffer of the stream, if it is not the caller's, and after
`fclose` it is nothing.
-/

namespace Heartix.Stdio

open Ledger Runs

variable {W : Type}

/-- The kernel with a ledger of the blocks of memory. -/
def Kernel.audited (K : Kernel W) : Kernel (W × List (Entry ℕ)) where
  write fd bytes w :=
    match K.write fd bytes w.1 with
    | (r, v) => (r, (v, w.2))
  read fd len w :=
    match K.read fd len w.1 with
    | (r, v) => (r, (v, w.2))
  lseek fd offset whence w :=
    match K.lseek fd offset whence w.1 with
    | (r, v) => (r, (v, w.2))
  tell fd w :=
    match K.tell fd w.1 with
    | (r, v) => (r, (v, w.2))
  close fd w :=
    match K.close fd w.1 with
    | (r, v) => (r, (v, w.2))
  openFile filename mode w :=
    match K.openFile filename mode w.1 with
    | (r, v) => (r, (v, w.2))
  malloc len w :=
    match K.malloc len w.1 with
    | (none, v) => (none, (v, w.2))
    | (some block, v) => (some block, (v, w.2 ++ [.acquire block.1]))
  free address w := (K.free address w.1, w.2 ++ [.release address])
  mutexInitialize w :=
    match K.mutexInitialize w.1 with
    | (r, v) => (r, (v, w.2))
  mutexTryAcquire := K.mutexTryAcquire

/-- A buffer of the caller, which is not NULL. -/
structure UserBuffer (size : ℕ) where
  address : ℕ
  memory : Vector UInt8 size
  nonnull : address ≠ 0

def UserBuffer.pointer {size : ℕ} (buf : UserBuffer size) : ℕ × List UInt8 :=
  (buf.address, buf.memory.toList)

/-- `setbuf`. -/
def setbuf (K : Kernel W) (buf : Option (UserBuffer BUFSIZ)) (s : State W) : ℤ × State W :=
  setvbufUnlocked K (buf.map UserBuffer.pointer) (if buf = none then .ionbf else .iofbf) BUFSIZ s

inductive BufferOp
  | setvbuf (size : ℕ) (buf : Option (UserBuffer size)) (mode : BufferMode)
  | setbuf (buf : Option (UserBuffer BUFSIZ))
  | stream (op : Op)

def BufferOp.exec (K : Kernel W) (s : State W) : BufferOp → Option (ℤ × State W)
  | .setvbuf size buf mode => some (setvbufUnlocked K (buf.map UserBuffer.pointer) mode size s)
  | .setbuf buf => some (Stdio.setbuf K buf s)
  | .stream op => (op.exec K s).map fun (ret, t) => (ret.value, t)

/-- The blocks the library has to free: the buffer of the stream, if it is its own. -/
def libraryBuffer (f : FILE) : List ℕ :=
  if f.flagOwnerLibrary = true then [f.bufferAddress] else []

/-- After the operation what is held is the buffer of the stream, so that it is
valid and nothing else has been lost or freed; and a buffer that cannot be set
leaves the stream as it was. -/
def Kept (s : State (W × List (Entry ℕ))) (op : BufferOp) (r : ℤ)
    (t : State (W × List (Entry ℕ))) : Prop :=
  held t.world.2 [] = some (libraryBuffer t.stream) ∧
    ((∀ call, op ≠ .stream call) → r ≠ 0 → t.stream = s.stream)

/-- `fclose` frees the buffer. -/
def Released (K : Kernel W) (s : State (W × List (Entry ℕ))) : Prop :=
  Settled (closeStream K.audited s).2.world.2

/-- The caller brings the buffer or `malloc` returns one. -/
def Provided (K : Kernel W) (buf : Option (ℕ × List UInt8)) (size : ℕ)
    (s : State (W × List (Entry ℕ))) : Prop :=
  buf ≠ none ∨ (K.malloc (if size = 0 then BUFSIZ else if size < BUFSIZMIN then BUFSIZMIN else size)
    (releaseBuffer K.audited s).world.1).1 ≠ none

/-- The buffer the library owns is replaced exactly if it is one that is freed:
one of an unbuffered stream is not. -/
def Replaces (K : Kernel W) (buf : Option (ℕ × List UInt8)) (size : ℕ)
    (s : State (W × List (Entry ℕ))) : Prop :=
  s.stream.flagOwnerLibrary = true →
    (s.stream.bufferMode ≠ .ionbf ↔ Provided K buf size s)

def BufferOp.Replaces (K : Kernel W) (s : State (W × List (Entry ℕ))) : BufferOp → Prop
  | .setvbuf size buf _ => Stdio.Replaces K (buf.map UserBuffer.pointer) size s
  | .setbuf buf => Stdio.Replaces K (buf.map UserBuffer.pointer) BUFSIZ s
  | .stream _ => True

/-- The ledger and the stream agree. -/
structure Owns (s : State (W × List (Entry ℕ))) : Prop where
  held : held s.world.2 [] = some (libraryBuffer s.stream)
  nonnull : s.stream.flagOwnerLibrary = true → s.stream.bufferAddress ≠ 0
  set : s.stream.flagOwnerLibrary = true → s.stream.flagBufferSet = true
  unset : s.stream.flagBufferSet = false → s.stream.bufferMode = .ionbf

/-- A block that `malloc` returns is not NULL. -/
def Kernel.NonNull (K : Kernel W) : Prop :=
  ∀ len w block v, K.malloc len w = (some block, v) → block.1 ≠ 0

section Steps

variable {K : Kernel W} {s : State (W × List (Entry ℕ))}

theorem releaseBuffer_eq (K : Kernel W) (h : Owns s) :
    releaseBuffer K.audited s =
      if s.stream.bufferMode ≠ .ionbf ∧ s.stream.flagOwnerLibrary = true then
        { s with world := (K.free s.stream.bufferAddress s.world.1,
          s.world.2 ++ [.release s.stream.bufferAddress]) }
      else s := by
  unfold releaseBuffer
  by_cases howner : s.stream.flagOwnerLibrary = true
  · simp [howner, h.nonnull howner, Kernel.audited]
  · simp [howner]

/-- After the old buffer has been freed the library holds it only if it has not
been: the stream is unbuffered. -/
theorem held_releaseBuffer (K : Kernel W) (h : Owns s) :
    held (releaseBuffer K.audited s).world.2 [] =
      some (if s.stream.bufferMode = .ionbf then libraryBuffer s.stream else []) := by
  rw [releaseBuffer_eq K h]
  by_cases hmode : s.stream.bufferMode = .ionbf
  · rw [if_neg (fun hc => hc.1 hmode), if_pos hmode]
    exact h.held
  · rw [if_neg hmode]
    by_cases howner : s.stream.flagOwnerLibrary = true
    · have hheld := h.held
      unfold libraryBuffer at hheld
      rw [if_pos howner] at hheld
      rw [if_pos ⟨hmode, howner⟩, held_release hheld List.mem_cons_self]
      simp
    · have hheld := h.held
      unfold libraryBuffer at hheld
      rw [if_neg howner] at hheld
      rw [if_neg (fun hc => howner hc.2)]
      exact hheld

/-- What setting a buffer does to the stream and to the ledger. -/
theorem setvbufUnlocked_audited (K : Kernel W) (buf : Option (ℕ × List UInt8)) (mode : BufferMode)
    (size : ℕ) (s : State (W × List (Entry ℕ))) :
    (¬ Provided K buf size s ∧ ∃ w, setvbufUnlocked K.audited buf mode size s =
        (-1, { s with world := (w, (releaseBuffer K.audited s).world.2) })) ∨
    (Provided K buf size s ∧ ∃ address memory w,
      (buf = some (address, memory) ∧ setvbufUnlocked K.audited buf mode size s =
        (0, ⟨attachBuffer address memory mode false s.stream,
          (w, (releaseBuffer K.audited s).world.2)⟩)) ∨
      ((∃ len v block, K.malloc len v = (some block, w) ∧ block.1 = address) ∧
        setvbufUnlocked K.audited buf mode size s =
        (0, ⟨attachBuffer address memory mode true s.stream,
          (w, (releaseBuffer K.audited s).world.2 ++ [.acquire address])⟩))) := by
  unfold setvbufUnlocked Provided
  cases buf with
  | some b =>
    right
    refine ⟨Or.inl (Option.some_ne_none b), b.1, b.2, (releaseBuffer K.audited s).world.1,
      Or.inl ⟨rfl, ?_⟩⟩
    show (0, (⟨attachBuffer b.1 b.2 mode false (releaseBuffer K.audited s).stream, _⟩ :
      State _)) = _
    rw [releaseBuffer_stream]
  | none =>
    dsimp only
    generalize (if size = 0 then BUFSIZ else if size < BUFSIZMIN then BUFSIZMIN else size) = len
    have hmalloc : K.audited.malloc len (releaseBuffer K.audited s).world =
        match K.malloc len (releaseBuffer K.audited s).world.1 with
        | (none, v) => (none, (v, (releaseBuffer K.audited s).world.2))
        | (some block, v) =>
            (some block, (v, (releaseBuffer K.audited s).world.2 ++ [.acquire block.1])) := rfl
    rw [hmalloc]
    rcases hresult : K.malloc len (releaseBuffer K.audited s).world.1 with ⟨_ | block, v⟩
    · left
      refine ⟨by simp, v, ?_⟩
      simp
    · right
      refine ⟨Or.inr (by simp), block.1, block.2.toList, v,
        Or.inr ⟨⟨len, _, block, hresult, rfl⟩, ?_⟩⟩
      simp

/-- Freeing the old buffer where the call replaces it leaves nothing held, and
elsewhere what was. -/
theorem held_release_of_replaces {buf : Option (ℕ × List UInt8)} {size : ℕ} (h : Owns s)
    (hreplaces : Replaces K buf size s) :
    (Provided K buf size s → held (releaseBuffer K.audited s).world.2 [] = some []) ∧
    (¬ Provided K buf size s →
      held (releaseBuffer K.audited s).world.2 [] = some (libraryBuffer s.stream)) := by
  have hheld := held_releaseBuffer K h
  by_cases howner : s.stream.flagOwnerLibrary = true
  · have hiff := hreplaces howner
    constructor
    · intro hprovided
      rw [hheld, if_neg (hiff.mpr hprovided)]
    · intro hnot
      rw [hheld, if_pos (not_not.mp fun hmode => hnot (hiff.mp hmode))]
  · have hnil : libraryBuffer s.stream = [] := if_neg howner
    rw [hnil, ite_self] at hheld
    rw [hnil]
    exact ⟨fun _ => hheld, fun _ => hheld⟩

theorem Owns.setvbufUnlocked (hmalloc : K.NonNull) (h : Owns s)
    {buf : Option (ℕ × List UInt8)} {size : ℕ} (mode : BufferMode)
    (hreplaces : Replaces K buf size s) :
    Owns (setvbufUnlocked K.audited buf mode size s).2 ∧
      ((setvbufUnlocked K.audited buf mode size s).1 ≠ 0 →
        (setvbufUnlocked K.audited buf mode size s).2.stream = s.stream) := by
  obtain ⟨hgone, hstays⟩ := held_release_of_replaces h hreplaces
  rcases setvbufUnlocked_audited K buf mode size s with
    ⟨hnot, w, heq⟩ | ⟨hprovided, address, memory, w, ⟨_, heq⟩ | ⟨⟨len, v, block, hblock, hne⟩, heq⟩⟩
  · rw [heq]
    exact ⟨⟨hstays hnot, h.nonnull, h.set, h.unset⟩, fun _ => rfl⟩
  · rw [heq]
    refine ⟨⟨hgone hprovided, ?_, fun _ => rfl, ?_⟩, fun hc => absurd rfl hc⟩
    · intro howner
      cases howner
    · intro hset
      cases hset
  · rw [heq]
    refine ⟨⟨held_acquire (hgone hprovided) List.not_mem_nil, fun _ => ?_, fun _ => rfl, ?_⟩,
      fun hc => absurd rfl hc⟩
    · exact hne ▸ hmalloc len v block w hblock
    · intro hset
      cases hset

/-- Otherwise the block is freed and stays the buffer of the stream, or it is
lost. -/
theorem not_held_setvbufUnlocked (h : Owns s) {buf : Option (ℕ × List UInt8)} {size : ℕ}
    (mode : BufferMode) (hnot : ¬ Replaces K buf size s) :
    held (setvbufUnlocked K.audited buf mode size s).2.world.2 [] ≠
      some (libraryBuffer (setvbufUnlocked K.audited buf mode size s).2.stream) := by
  obtain ⟨howner, hnot⟩ := Classical.not_imp.mp hnot
  have hown : libraryBuffer s.stream = [s.stream.bufferAddress] := if_pos howner
  have hheld := held_releaseBuffer K h
  rw [hown] at hheld
  rcases setvbufUnlocked_audited K buf mode size s with
    ⟨hfail, w, heq⟩ | ⟨hprovided, address, memory, w, ⟨_, heq⟩ | ⟨_, heq⟩⟩
  · have hmode : s.stream.bufferMode ≠ .ionbf := fun hmode =>
      hnot (iff_of_false (not_not.mpr hmode) hfail)
    rw [if_neg hmode] at hheld
    rw [heq]
    show held (releaseBuffer K.audited s).world.2 [] ≠ some (libraryBuffer s.stream)
    rw [hheld, hown]
    simp
  · have hmode : s.stream.bufferMode = .ionbf := not_not.mp fun hmode =>
      hnot (iff_of_true hmode hprovided)
    rw [if_pos hmode] at hheld
    rw [heq]
    show held (releaseBuffer K.audited s).world.2 [] ≠ some []
    rw [hheld]
    simp
  · have hmode : s.stream.bufferMode = .ionbf := not_not.mp fun hmode =>
      hnot (iff_of_true hmode hprovided)
    rw [if_pos hmode] at hheld
    rw [heq]
    show held ((releaseBuffer K.audited s).world.2 ++ [.acquire address]) [] ≠ some [address]
    rw [held_append hheld, held]
    by_cases hsame : address ∈ [s.stream.bufferAddress]
    · rw [if_pos hsame]
      exact Option.some_ne_none _ ∘ Eq.symm
    · rw [if_neg hsame]
      simp [held]

/-- Moving bytes needs no memory but the default buffer. -/
theorem preserves_owns (hmalloc : K.NonNull) :
    PreservesStored K.audited fun s t => Owns s → Owns t where
  refl _ := id
  trans hst htu := htu ∘ hst
  fields {f g} w hframe h := by
    have howner : g.flagOwnerLibrary = f.flagOwnerLibrary :=
      (congrArg FILE.flagOwnerLibrary hframe :)
    have haddress : g.bufferAddress = f.bufferAddress := (congrArg FILE.bufferAddress hframe :)
    have hset : g.flagBufferSet = f.flagBufferSet := (congrArg FILE.flagBufferSet hframe :)
    have hmode : g.bufferMode = f.bufferMode := (congrArg FILE.bufferMode hframe :)
    exact {
      held := by
        show held w.2 [] = some (libraryBuffer g)
        rw [libraryBuffer, howner, haddress]
        exact h.held
      nonnull := by
        show g.flagOwnerLibrary = true → g.bufferAddress ≠ 0
        rw [howner, haddress]
        exact h.nonnull
      set := by
        show g.flagOwnerLibrary = true → g.flagBufferSet = true
        rw [howner, hset]
        exact h.set
      unset := by
        show g.flagBufferSet = false → g.bufferMode = .ionbf
        rw [hset, hmode]
        exact h.unset }
  write fd bytes s h := ⟨h.held, h.nonnull, h.set, h.unset⟩
  read fd len s h := ⟨h.held, h.nonnull, h.set, h.unset⟩
  lseek fd offset whence s h := ⟨h.held, h.nonnull, h.set, h.unset⟩
  buffer s h := by
    unfold ensureBuffer
    split
    · exact h
    · rename_i hset
      have hfree : s.stream.flagOwnerLibrary ≠ true := fun howner => hset (h.set howner)
      have hreplaces (t : State (W × List (Entry ℕ))) (ht : t.stream = s.stream) :
          Replaces K none BUFSIZ t := fun howner => absurd (ht ▸ howner) hfree
      unfold setdefbufUnlocked
      have hfirst := h.setvbufUnlocked hmalloc .iofbf (hreplaces s rfl)
      generalize setvbufUnlocked K.audited none .iofbf BUFSIZ s = result at hfirst ⊢
      obtain ⟨r, t⟩ := result
      obtain ⟨ht, hsame⟩ := hfirst
      dsimp only at ht hsame ⊢
      by_cases hr : r = 0
      · rw [if_pos hr]
        exact ht
      · rw [if_neg hr]
        have hsecond := ht.setvbufUnlocked hmalloc .iofbf (hreplaces t (hsame hr))
        generalize setvbufUnlocked K.audited none .iofbf BUFSIZ t = result at hsecond ⊢
        obtain ⟨r', u⟩ := result
        dsimp only
        split
        · exact hsecond.1
        · exact hsecond.1
  store {c8 s t} hstore h := by
    unfold storeByte at hstore
    split at hstore
    · obtain rfl := Option.some.inj hstore
      exact ⟨h.held, h.nonnull, h.set, h.unset⟩
    · cases hstore

/-- `fclose` frees what the library owns unless `impl_close` fails. -/
theorem released_iff (hmalloc : K.NonNull) (h : Owns s) :
    Released K s ↔ (s.stream.flagOwnerLibrary = true → CloseSucceeds K.audited s) := by
  have hflushed := (preserves_owns hmalloc).fflushUnlocked s h
  have hframe := (preserves_frame K.audited).fflushUnlocked s
  have howner : (fflushUnlocked K.audited s).2.stream.flagOwnerLibrary =
    s.stream.flagOwnerLibrary := (congrArg FILE.flagOwnerLibrary hframe :)
  unfold Released closeStream CloseSucceeds
  generalize fflushUnlocked K.audited s = result at hflushed howner ⊢
  obtain ⟨_, t⟩ := result
  dsimp only at hflushed howner ⊢
  have hclose : (implClose K.audited t).2 =
    { t with world := ((K.close t.stream.fileDescriptor t.world.1).2, t.world.2) } := rfl
  generalize implClose K.audited t = result at hclose ⊢
  obtain ⟨r, u⟩ := result
  dsimp only at hclose ⊢
  subst hclose
  rw [← howner]
  by_cases hfree : t.stream.flagOwnerLibrary = true
  · have hheld := hflushed.held
    rw [libraryBuffer, if_pos hfree] at hheld
    by_cases hr : r = 0
    · rw [if_neg (not_not.mpr hr), if_pos ⟨hflushed.set hfree, hflushed.nonnull hfree, hfree⟩]
      refine iff_of_true ?_ fun _ => hr
      show held (t.world.2 ++ [.release t.stream.bufferAddress]) [] = some []
      rw [held_release hheld List.mem_cons_self, List.erase_cons_head]
    · rw [if_pos hr]
      refine iff_of_false ?_ fun himp => hr (himp hfree)
      show held t.world.2 [] ≠ some []
      rw [hheld]
      simp
  · have hheld := hflushed.held
    rw [libraryBuffer, if_neg hfree] at hheld
    refine iff_of_true ?_ fun hc => absurd hc hfree
    split
    · exact hheld
    · rw [if_neg fun hc => hfree hc.2.2]
      exact hheld

theorem kept_of_replaces (hmalloc : K.NonNull) {op : BufferOp} {r : ℤ}
    {t : State (W × List (Entry ℕ))} (h : Owns s) (heq : op.exec K.audited s = some (r, t))
    (hreplaces : op.Replaces K s) : Kept s op r t ∧ Owns t := by
  cases op with
  | setvbuf size buf mode =>
    obtain ⟨howns, hsame⟩ := h.setvbufUnlocked hmalloc mode hreplaces
    rw [Option.some.inj heq] at howns hsame
    exact ⟨⟨howns.held, fun _ => hsame⟩, howns⟩
  | setbuf buf =>
    obtain ⟨howns, hsame⟩ := h.setvbufUnlocked hmalloc
      (if buf = none then .ionbf else .iofbf) hreplaces
    rw [show setvbufUnlocked K.audited _ _ _ s = (r, t) from Option.some.inj heq] at howns hsame
    exact ⟨⟨howns.held, fun _ => hsame⟩, howns⟩
  | stream call =>
    obtain ⟨⟨ret, u⟩, hcall, hu⟩ := Option.map_eq_some_iff.mp heq
    obtain ⟨-, rfl⟩ := Prod.mk.inj hu
    have howns := (preserves_owns hmalloc).exec hcall h
    exact ⟨⟨howns.held, fun hne => absurd rfl (hne call)⟩, howns⟩

theorem not_kept_of_not_replaces {op : BufferOp} {r : ℤ} {t : State (W × List (Entry ℕ))}
    (h : Owns s) (heq : op.exec K.audited s = some (r, t)) (hnot : ¬ op.Replaces K s) :
    ¬ Kept s op r t := by
  rintro ⟨hheld, -⟩
  cases op with
  | setvbuf size buf mode =>
    have hlost := not_held_setvbufUnlocked h mode hnot
    rw [Option.some.inj heq] at hlost
    exact hlost hheld
  | setbuf buf =>
    have hlost := not_held_setvbufUnlocked h
      (if buf = none then .ionbf else .iofbf) hnot
    rw [show setvbufUnlocked K.audited _ _ _ s = (r, t) from Option.some.inj heq] at hlost
    exact hlost hheld
  | stream call => exact hnot trivial

end Steps

theorem owns_opened (f : FILE) (fd : ℤ) (lock : ℕ) (mode : ModeFlags) (w : W) :
    Owns ⟨f.opened fd lock mode, (w, [])⟩ where
  held := rfl
  nonnull h := by cases h
  set h := by cases h
  unset _ := rfl

/-- The buffers of a stream are kept and in the end released, exactly if each
call that sets a buffer while the library owns one succeeds where the old one has
been freed and fails where it has not, and `impl_close` succeeds in the end if the
library owns the buffer. -/
theorem buffer_ownership_iff (K : Kernel W) (hmalloc : K.NonNull) (f : FILE) (fd : ℤ)
    (lock : ℕ) (mode : ModeFlags) (w : W) (ops : List BufferOp) :
    Throughout (BufferOp.exec K.audited) Kept (Released K) ops
        ⟨f.opened fd lock mode, (w, [])⟩ ↔
      Throughout (BufferOp.exec K.audited) (fun s op _ _ => op.Replaces K s)
        (fun s => s.stream.flagOwnerLibrary = true → CloseSucceeds K.audited s) ops
        ⟨f.opened fd lock mode, (w, [])⟩ := by
  apply throughout_iff (I := Owns)
  · intro s op r t hs heq hreplaces
    exact kept_of_replaces hmalloc hs heq hreplaces
  · intro s op r t hs heq hnot
    exact not_kept_of_not_replaces hs heq hnot
  · intro s hs
    exact released_iff hmalloc hs
  · exact owns_opened f fd lock mode w

theorem nonNull_scriptedKernel : scriptedKernel.NonNull := by
  intro len w block v h
  obtain rfl := Option.some.inj (Prod.mk.inj h).1
  exact (by decide : (4096 : ℕ) ≠ 0)

theorem buffer_ownership_iff_replaced :
    Throughout (BufferOp.exec scriptedKernel.audited) Kept (Released scriptedKernel)
        [.setvbuf 0 none .iolbf, .stream (.fputc 65), .setbuf none]
        ⟨(default : FILE).opened 3 1 writeFlags, ([], [])⟩ ↔
      Throughout (BufferOp.exec scriptedKernel.audited)
        (fun s op _ _ => op.Replaces scriptedKernel s)
        (fun s => s.stream.flagOwnerLibrary = true → CloseSucceeds scriptedKernel.audited s)
        [.setvbuf 0 none .iolbf, .stream (.fputc 65), .setbuf none]
        ⟨(default : FILE).opened 3 1 writeFlags, ([], [])⟩ :=
  buffer_ownership_iff scriptedKernel nonNull_scriptedKernel default 3 1 writeFlags [] _

/-- A kernel whose allocations are answered from a list. -/
def meagreKernel : Kernel (List Bool) where
  write _ bytes w := (some (Fin.last bytes.length), w)
  read _ _ w := (some ⟨[], Nat.zero_le _⟩, w)
  lseek _ _ _ w := (0, w)
  tell _ w := (0, w)
  close _ w := (0, w)
  openFile _ _ w := (3, w)
  malloc len w := (if w.headD false then some (4096, Vector.replicate len 0) else none, w.tail)
  free _ w := w
  mutexInitialize w := (1, w)
  mutexTryAcquire _ := true

/-- The second `setvbuf` frees the buffer, fails, and leaves it to the stream. -/
theorem buffer_ownership_dangling :
    ¬ Throughout (BufferOp.exec meagreKernel.audited) Kept (Released meagreKernel)
      [.setvbuf 0 none .iofbf, .setvbuf 0 none .iofbf]
      ⟨(default : FILE).opened 3 1 writeFlags, ([true, false], [])⟩ := by
  intro h
  obtain ⟨-, hrest⟩ := h 0 _ rfl
  obtain ⟨⟨hheld, -⟩, -⟩ := hrest (-1) _ rfl
  exact absurd hheld (by decide)

end Heartix.Stdio
