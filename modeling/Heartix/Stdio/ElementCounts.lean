import Heartix.Stdio.Stored
import Heartix.Stdio.Unbuffered

/-!
The element counts of `fread` and `fwrite`. The size of a request is a product
in `size_t` here, and the count is compared with what the call moved: the bytes
stored to the caller, and the bytes put into the buffer or, without one,
accepted by `impl_write`. The exits that return EOF from a function of type
`size_t` are the ones a caller cannot use as a length, and so is the count of a
call that stored a newline which it could not flush.
-/

namespace Heartix.Stdio

open PartialTransfer

variable {W : Type}

/-- `size_t total = size * nmemb`. -/
def total (size nmemb : ℕ) : ℕ := size * nmemb % 2 ^ 64

namespace SizeT

/-- The unbuffered part of `__fread_unlocked` with `total` in `size_t`. -/
def freadUnbuffered (K : Kernel W) (size nmemb : ℕ) (s : State W) :
    ℕ × List UInt8 × State W :=
  if s.stream.implRead = false then (SIZE_MAX, [], s.setError)
  else
    match readLoop K (total size nmemb)
        { s with stream := { s.stream with flagDirectionRead := true, flagEof := false } } with
    | (bytes, s) => (bytes.length / size, bytes, s)

/-- `__fread_unlocked` with `total` in `size_t`. -/
def freadUnlocked (K : Kernel W) (size nmemb : ℕ) (s : State W) :
    Option (ℕ × List UInt8 × State W) :=
  if size = 0 ∨ nmemb = 0 then some (0, [], s)
  else if s.stream.mode.read = false then some (SIZE_MAX, [], s.setError)
  else
    match ensureBuffer K s with
    | (r, s) =>
      if r = EOF then some (SIZE_MAX, [], s)
      else if s.stream.bufferMode = .ionbf then some (freadUnbuffered K size nmemb s)
      else freadLoop K size nmemb (size * nmemb) [] s

/-- `__fwrite_unlocked` with `total` in `size_t`. -/
def fwriteUnlocked (K : Kernel W) (ptr : List UInt8) (size nmemb : ℕ) (s : State W) :
    Option (ℕ × State W) :=
  if size = 0 ∨ nmemb = 0 then some (0, s)
  else if s.stream.mode.write = false then some (SIZE_MAX, s.setError)
  else
    match ensureBuffer K s with
    | (r, s) =>
      if r = EOF then some (SIZE_MAX, s)
      else if s.stream.bufferMode = .ionbf then
        some (fwriteUnbuffered K (ptr.take (total size nmemb)) size s)
      else fwriteLoop K size nmemb 0 ptr s

end SizeT

/-- `fread`; `none` is a NULL stream. -/
def fread (K : Kernel W) (size nmemb : ℕ) :
    Option (State W) → Option (ℕ × List UInt8 × Option (State W))
  | none => some (SIZE_MAX, [], none)
  | some s => (SizeT.freadUnlocked K size nmemb s).map fun (n, bytes, t) => (n, bytes, some t)

/-- `fwrite`, which does not test the stream. -/
def fwrite (K : Kernel W) (ptr : List UInt8) (size nmemb : ℕ) (s : State W) :
    Option (ℕ × State W) :=
  SizeT.fwriteUnlocked K ptr size nmemb s

/-- The bytes a write has moved to the stream: into its buffer, or through
`impl_write` where it has none. -/
def FILE.takenSince (s t : FILE) : ℕ :=
  if t.bufferMode = .ionbf then t.accepted.length - s.accepted.length
  else t.stored.length - s.stored.length

/-- A count that may be used as a length: at most `nmemb`, the number of complete
elements among the `moved` bytes, and 0 where the operation is not permitted. -/
structure Counts (permitted : Prop) (size nmemb moved n : ℕ) : Prop where
  le : n ≤ nmemb
  eq : n = moved / size
  denied : ¬ permitted → n = 0

/-- A stream that permits reading. -/
def MayRead : Option (State W) → Prop
  | none => False
  | some s => s.stream.mode.read = true

/-- The stream has a buffer, or one of the two requests for the default one is
granted. -/
def BufferAvailable (K : Kernel W) (s : State W) : Prop :=
  s.stream.flagBufferSet = true ∨
    match K.malloc BUFSIZ (releaseBuffer K s).world with
    | (some _, _) => True
    | (none, w) => (K.malloc BUFSIZ (releaseBuffer K { s with world := w }).world).1 ≠ none

/-- `impl_write` takes all of the bytes, in however many calls. -/
inductive TakesAll (K : Kernel W) (fd : ℤ) : List UInt8 → W → Prop
  | nil (w : W) : TakesAll K fd [] w
  | call {bytes : List UInt8} {w w' : W} {n : Fin (bytes.length + 1)} (hbytes : bytes ≠ [])
      (hwrite : K.write fd bytes w = (some n, w')) (hpos : 0 < n.val)
      (hrest : TakesAll K fd (bytes.drop n.val) w') : TakesAll K fd bytes w

/-- `fputc` on a line buffered stream stores a newline and cannot flush it. -/
def StuckNewline (K : Kernel W) (b : UInt8) (s : State W) : Prop :=
  ∃ s₁ s₂ t, makeRoom K s = (0, s₁) ∧ storeByte b s₁ = some s₂ ∧
    s₂.stream.bufferMode = .iolbf ∧ b = newline ∧ fflushWriteUnlocked K s₂ = (EOF, t)

/-- Writing the bytes one by one comes to a newline that is stuck and ends an
element. -/
inductive ElementStuck (K : Kernel W) (size : ℕ) : ℕ → List UInt8 → State W → Prop
  | here {done : ℕ} {b : UInt8} {ptr : List UInt8} {s : State W} (hstuck : StuckNewline K b s)
      (hend : size ∣ done + 1) : ElementStuck K size done (b :: ptr) s
  | later {done : ℕ} {b : UInt8} {ptr : List UInt8} {s t : State W} {c : ℤ}
      (hput : fputcUnlocked K b.toNat s = some (c, t)) (hc : c ≠ EOF)
      (hrest : ElementStuck K size (done + 1) ptr t) : ElementStuck K size done (b :: ptr) s

/-- `fread` is asked for nothing, or may read, has a buffer and can read. -/
def ReadServed (K : Kernel W) (size nmemb : ℕ) : Option (State W) → Prop
  | none => False
  | some s => size = 0 ∨ nmemb = 0 ∨
      (s.stream.mode.read = true ∧ BufferAvailable K s ∧
        (s.stream.Unbuffered → s.stream.implRead = true))

/-- `fwrite` is given nothing, or may write, has a buffer, an unbuffered stream
can write and takes everything, and on a buffered one no element is stuck. -/
def WriteServed (K : Kernel W) (ptr : List UInt8) (size nmemb : ℕ) (s : State W) : Prop :=
  size = 0 ∨ nmemb = 0 ∨
    (s.stream.mode.write = true ∧ BufferAvailable K s ∧
      (s.stream.Unbuffered → s.stream.implWrite = true ∧
        TakesAll K s.stream.fileDescriptor (ptr.take (total size nmemb)) s.world) ∧
      (¬ s.stream.Unbuffered → ¬ ElementStuck K size 0 ptr (ensureBuffer K s).2))

theorem setvbufUnlocked_default_eq (K : Kernel W) (s : State W) :
    setvbufUnlocked K none .iofbf BUFSIZ s =
      match K.malloc BUFSIZ (releaseBuffer K s).world with
      | (none, w) => (-1, { s with world := w })
      | (some (address, memory), w) =>
          (0, ⟨attachBuffer address memory.toList .iofbf true s.stream, w⟩) := by
  have hsize : (if BUFSIZ = 0 then BUFSIZ
      else if BUFSIZ < BUFSIZMIN then BUFSIZMIN else BUFSIZ) = BUFSIZ := by
    decide
  unfold setvbufUnlocked
  dsimp only
  rw [hsize]
  rcases K.malloc BUFSIZ (releaseBuffer K s).world with ⟨_ | ⟨address, memory⟩, w⟩
  · simp
  · simp

theorem ensureBuffer_eq_zero_iff (K : Kernel W) (s : State W) :
    (ensureBuffer K s).1 = 0 ↔ BufferAvailable K s := by
  unfold ensureBuffer BufferAvailable
  cases hset : s.stream.flagBufferSet with
  | true => simp
  | false =>
    unfold setdefbufUnlocked
    simp only [setvbufUnlocked_default_eq, Bool.false_eq_true, if_false, false_or]
    rcases K.malloc BUFSIZ (releaseBuffer K s).world with ⟨_ | ⟨address, memory⟩, w⟩
    · dsimp only
      rcases K.malloc BUFSIZ (releaseBuffer K { s with world := w }).world with
        ⟨_ | ⟨address, memory⟩, w'⟩
      · simp
      · simp
    · simp

theorem ensureBuffer_fails (K : Kernel W) {s t : State W} (heq : ensureBuffer K s = (EOF, t)) :
    t.stream = s.stream := by
  rcases ensureBuffer_cases K s with ⟨_, hcase⟩ | ⟨_, w, hcase⟩ | ⟨_, _, _, _, _, hcase⟩
  · exact absurd (Prod.mk.inj (hcase.symm.trans heq)).1 zero_ne_EOF
  · obtain ⟨-, rfl⟩ := Prod.mk.inj (hcase.symm.trans heq)
    rfl
  · exact absurd (Prod.mk.inj (hcase.symm.trans heq)).1 zero_ne_EOF

/-- After the buffer check the stream has a buffer, and is unbuffered only if it
was set so. -/
theorem ensureBuffer_mode (K : Kernel W) {s t : State W} (heq : ensureBuffer K s = (0, t)) :
    t.stream.flagBufferSet = true ∧ (t.stream.bufferMode = .ionbf ↔ s.stream.Unbuffered) ∧
      (s.stream.Unbuffered → t = s) := by
  rcases ensureBuffer_cases K s with
    ⟨hset, hcase⟩ | ⟨hset, w, hcase⟩ | ⟨hset, address, memory, w, _, hcase⟩
  · obtain ⟨-, rfl⟩ := Prod.mk.inj (hcase.symm.trans heq)
    exact ⟨hset, ⟨fun hmode => ⟨hset, hmode⟩, fun h => h.2⟩, fun _ => rfl⟩
  · have hr := (Prod.mk.inj (hcase.symm.trans heq)).1
    exact absurd hr.symm zero_ne_EOF
  · obtain ⟨-, rfl⟩ := Prod.mk.inj (hcase.symm.trans heq)
    have hnot : ¬ s.stream.Unbuffered := by simp [FILE.Unbuffered, hset]
    refine ⟨rfl, ⟨fun hmode => ?_, fun h => absurd h hnot⟩, fun h => absurd h hnot⟩
    cases hmode

/-- Where the request of an unbuffered stream fits into `size_t`, these are the
functions of the accesses, whose requests are in memory. -/
theorem SizeT.freadUnlocked_eq (K : Kernel W) {size nmemb : ℕ} {s : State W}
    (hfits : s.stream.Unbuffered → size * nmemb < 2 ^ 64) :
    SizeT.freadUnlocked K size nmemb s = Stdio.freadUnlocked K size nmemb s := by
  unfold SizeT.freadUnlocked Stdio.freadUnlocked
  rcases hensure : ensureBuffer K s with ⟨r, t⟩
  dsimp only
  rcases ensureBuffer_result K hensure with rfl | rfl
  · obtain ⟨-, hionbf, -⟩ := ensureBuffer_mode K hensure
    by_cases hmode : t.stream.bufferMode = .ionbf
    · have htotal : total size nmemb = size * nmemb :=
        Nat.mod_eq_of_lt (hfits (hionbf.mp hmode))
      unfold SizeT.freadUnbuffered Stdio.freadUnbuffered
      rw [htotal]
    · simp only [hmode, if_false]
  · simp only [if_true]

theorem SizeT.fwriteUnlocked_eq (K : Kernel W) {ptr : List UInt8} {size nmemb : ℕ} {s : State W}
    (hptr : ptr.length = size * nmemb) (hfits : s.stream.Unbuffered → size * nmemb < 2 ^ 64) :
    SizeT.fwriteUnlocked K ptr size nmemb s = Stdio.fwriteUnlocked K ptr size nmemb s := by
  unfold SizeT.fwriteUnlocked Stdio.fwriteUnlocked
  rcases hensure : ensureBuffer K s with ⟨r, t⟩
  dsimp only
  rcases ensureBuffer_result K hensure with rfl | rfl
  · obtain ⟨-, hionbf, -⟩ := ensureBuffer_mode K hensure
    by_cases hmode : t.stream.bufferMode = .ionbf
    · have htotal : total size nmemb = ptr.length :=
        (Nat.mod_eq_of_lt (hfits (hionbf.mp hmode))).trans hptr.symm
      rw [htotal, List.take_length]
    · simp only [hmode, if_false]
  · simp only [if_true]

theorem FILE.Sound.not_unbuffered {f : FILE} (h : f.Sound) : ¬ f.Unbuffered :=
  fun hunbuffered => (h.buffered hunbuffered.1).1 hunbuffered.2

/-- Every read from a sound stream returns, and every write to one that is not
about to overrun. -/
theorem fread_returns (K : Kernel W) (size nmemb : ℕ) {s : State W} (h : s.stream.Sound) :
    ∃ n bytes t, fread K size nmemb (some s) = some (n, bytes, some t) := by
  obtain ⟨n, bytes, t, heq, _⟩ := freadUnlocked_sound K size nmemb h
  rw [← SizeT.freadUnlocked_eq K (fun hunbuffered => absurd hunbuffered h.not_unbuffered)] at heq
  exact ⟨n, bytes, t, by rw [fread, heq]; rfl⟩

theorem fwrite_returns (K : Kernel W) {size nmemb : ℕ} (ptr : Vector UInt8 (size * nmemb))
    {s : State W} (h : s.stream.Sound) (hno : ¬ s.stream.Overruns) :
    ∃ n t, fwrite K ptr.toList size nmemb s = some (n, t) := by
  obtain ⟨n, t, heq, _⟩ :=
    fwriteUnlocked_sound K ptr.toList size nmemb h (fun _ _ _ => hno)
  rw [← SizeT.fwriteUnlocked_eq K ptr.length_toList
    (fun hunbuffered => absurd hunbuffered h.not_unbuffered)] at heq
  exact ⟨n, t, heq⟩

/-- The byte loop of a read ends after whole elements or with those it got. -/
theorem freadLoop_count (K : Kernel W) {size nmemb left n : ℕ} {bytes stored : List UInt8}
    {s t : State W} (hsize : 0 < size) (hlen : bytes.length + left = size * nmemb)
    (heq : freadLoop K size nmemb left bytes s = some (n, stored, t)) :
    stored.length ≤ size * nmemb ∧ n = stored.length / size := by
  induction left generalizing bytes s with
  | zero =>
    obtain ⟨rfl, hrest⟩ := Prod.mk.inj (Option.some.inj heq)
    obtain ⟨rfl, -⟩ := Prod.mk.inj hrest
    have hall : bytes.length = size * nmemb := hlen
    rw [hall, Nat.mul_div_cancel_left nmemb hsize]
    exact ⟨le_refl _, rfl⟩
  | succ left ih =>
    unfold freadLoop at heq
    rcases hget : fgetcUnlocked K s with _ | ⟨c, u⟩
    · simp [hget] at heq
    · simp only [hget] at heq
      by_cases hc : c = EOF
      · rw [if_pos hc] at heq
        obtain ⟨rfl, hrest⟩ := Prod.mk.inj (Option.some.inj heq)
        obtain ⟨rfl, -⟩ := Prod.mk.inj hrest
        exact ⟨by omega, rfl⟩
      · rw [if_neg hc] at heq
        apply ih _ heq
        simp only [List.length_append, List.length_singleton]
        omega

theorem readLoop_length (K : Kernel W) (left : ℕ) (s : State W) :
    (readLoop K left s).1.length ≤ left := by
  induction left using Nat.strong_induction_on generalizing s with
  | h left ih =>
    unfold readLoop
    by_cases hleft : left = 0
    · rw [dif_pos hleft]
      exact Nat.zero_le _
    · rw [dif_neg hleft]
      unfold implRead
      rcases K.read s.stream.fileDescriptor left s.world with ⟨_ | ⟨_ | ⟨b, bytes⟩, hlen⟩, w⟩
      · exact Nat.zero_le _
      · exact Nat.zero_le _
      · have hmore := ih (left - (bytes.length + 1)) (by omega) { s with world := w }
        simp only [List.length_cons] at hlen
        simp only [List.cons_append, List.length_cons, List.length_append]
        omega

theorem writeLoop_eq_zero_iff (K : Kernel W) (done : ℕ) (rest : List UInt8) (s : State W) :
    (writeLoop K done rest s).1 = 0 ↔ TakesAll K s.stream.fileDescriptor rest s.world := by
  induction hlen : rest.length using Nat.strong_induction_on generalizing done rest s with
  | h len ih =>
    subst hlen
    unfold writeLoop
    by_cases hrest : rest = []
    · rw [dif_pos hrest]
      exact ⟨fun _ => hrest ▸ TakesAll.nil _, fun _ => rfl⟩
    · rw [dif_neg hrest]
      have hpos := List.length_pos_of_ne_nil hrest
      unfold implWrite
      rcases hwrite : K.write s.stream.fileDescriptor rest s.world with ⟨_ | ⟨_ | n, hn⟩, w⟩
      · refine ⟨fun h => absurd h.symm zero_ne_EOF, fun h => ?_⟩
        cases h with
        | nil => exact absurd rfl hrest
        | call _ hcall _ _ => simp [hwrite] at hcall
      · refine ⟨fun h => absurd h.symm zero_ne_EOF, fun h => ?_⟩
        cases h with
        | nil => exact absurd rfl hrest
        | call _ hcall hzero _ =>
          obtain ⟨hn', -⟩ := Prod.mk.inj (hwrite.symm.trans hcall)
          obtain rfl := Option.some.inj hn'
          exact absurd hzero (lt_irrefl 0)
      · have hnext := ih (rest.drop (n + 1)).length
          (by simp only [List.length_drop]; omega) (done + (n + 1)) (rest.drop (n + 1))
          ⟨{ s.stream with writes := s.stream.writes ++ [⟨done, rest.take (n + 1)⟩] }, w⟩ rfl
        refine hnext.trans ⟨fun h => .call hrest hwrite (Nat.succ_pos n) h, fun h => ?_⟩
        cases h with
        | nil => exact absurd rfl hrest
        | call _ hcall _ hmore =>
          obtain ⟨hn', rfl⟩ := Prod.mk.inj (hwrite.symm.trans hcall)
          obtain rfl := Option.some.inj hn'
          exact hmore

/-- The whole elements of what was moved can be used as a length. -/
theorem counts_div {permitted : Prop} {size nmemb moved : ℕ} (hpermitted : permitted)
    (hmoved : moved ≤ size * nmemb) : Counts permitted size nmemb moved (moved / size) :=
  ⟨Nat.div_le_of_le_mul hmoved, rfl, fun h => absurd hpermitted h⟩

/-- EOF as a `size_t` cannot. -/
theorem not_counts_max {permitted : Prop} {size nmemb moved : ℕ} (hmoved : moved < SIZE_MAX) :
    ¬ Counts permitted size nmemb moved SIZE_MAX := by
  intro h
  have hle := Nat.div_le_self moved size
  rw [← h.eq] at hle
  exact absurd hmoved (Nat.not_lt.mpr hle)

theorem total_le (size nmemb : ℕ) : total size nmemb ≤ size * nmemb := Nat.mod_le _ _

theorem total_le_max (size nmemb : ℕ) : total size nmemb ≤ SIZE_MAX :=
  Nat.le_of_lt_succ (Nat.mod_lt _ (Nat.two_pow_pos 64))

theorem or_or_iff_of_not {a b c : Prop} (h : ¬ (a ∨ b)) : (a ∨ b ∨ c) ↔ c :=
  or_assoc.symm.trans (or_iff_right h)

/-- The direct read moves at most the whole request. -/
theorem SizeT.freadUnbuffered_counts_iff (K : Kernel W) {permitted : Prop}
    {size nmemb n : ℕ} {bytes : List UInt8} {s t : State W} (hpermitted : permitted)
    (heq : SizeT.freadUnbuffered K size nmemb s = (n, bytes, t)) :
    Counts permitted size nmemb bytes.length n ↔ s.stream.implRead = true := by
  unfold SizeT.freadUnbuffered at heq
  cases himpl : s.stream.implRead with
  | false =>
    rw [if_pos himpl] at heq
    obtain ⟨rfl, hrest⟩ := Prod.mk.inj heq
    obtain ⟨rfl, -⟩ := Prod.mk.inj hrest
    exact iff_of_false (not_counts_max (by decide)) Bool.false_ne_true
  | true =>
    rw [if_neg (by simp [himpl])] at heq
    obtain ⟨rfl, hrest⟩ := Prod.mk.inj heq
    obtain ⟨rfl, -⟩ := Prod.mk.inj hrest
    have hlen := (readLoop_length K (total size nmemb) { s with stream :=
      { s.stream with flagDirectionRead := true, flagEof := false } }).trans
      (total_le size nmemb)
    exact iff_of_true (counts_div hpermitted hlen) rfl

theorem SizeT.freadUnlocked_counts_iff (K : Kernel W) {size nmemb n : ℕ} {bytes : List UInt8}
    {s t : State W} (heq : SizeT.freadUnlocked K size nmemb s = some (n, bytes, t)) :
    Counts (s.stream.mode.read = true) size nmemb bytes.length n ↔
      ReadServed K size nmemb (some s) := by
  unfold SizeT.freadUnlocked at heq
  by_cases hzero : size = 0 ∨ nmemb = 0
  · rw [if_pos hzero] at heq
    obtain ⟨rfl, hrest⟩ := Prod.mk.inj (Option.some.inj heq)
    obtain ⟨rfl, -⟩ := Prod.mk.inj hrest
    have hcounts : Counts (s.stream.mode.read = true) size nmemb 0 0 :=
      ⟨Nat.zero_le _, (Nat.zero_div size).symm, fun _ => rfl⟩
    exact ⟨fun _ => or_assoc.mp (Or.inl hzero), fun _ => hcounts⟩
  · rw [if_neg hzero] at heq
    simp only [ReadServed]
    rw [or_or_iff_of_not hzero]
    rw [not_or] at hzero
    have hsize := Nat.pos_of_ne_zero hzero.1
    have hmax : ¬ Counts (s.stream.mode.read = true) size nmemb 0 SIZE_MAX :=
      not_counts_max (by decide)
    cases hmode : s.stream.mode.read with
    | false =>
      rw [if_pos hmode] at heq
      obtain ⟨rfl, hrest⟩ := Prod.mk.inj (Option.some.inj heq)
      obtain ⟨rfl, -⟩ := Prod.mk.inj hrest
      rw [hmode] at hmax
      exact iff_of_false hmax (fun h => by simp at h)
    | true =>
      rw [if_neg (by simp [hmode])] at heq
      rw [hmode] at hmax
      have hbuffer := ensureBuffer_eq_zero_iff K s
      rcases hensure : ensureBuffer K s with ⟨r, u⟩
      simp only [hensure] at heq hbuffer
      rcases ensureBuffer_result K hensure with rfl | rfl
      · obtain ⟨hset, hionbf, hsame⟩ := ensureBuffer_mode K hensure
        rw [if_neg zero_ne_EOF] at heq
        have havailable := hbuffer.mp rfl
        by_cases hunbuffered : s.stream.Unbuffered
        · rw [if_pos (hionbf.mpr hunbuffered), hsame hunbuffered] at heq
          rw [SizeT.freadUnbuffered_counts_iff K rfl (Option.some.inj heq)]
          exact ⟨fun himpl => ⟨rfl, havailable, fun _ => himpl⟩, fun h => h.2.2 hunbuffered⟩
        · rw [if_neg (fun hmode => hunbuffered (hionbf.mp hmode))] at heq
          obtain ⟨hlen, rfl⟩ := freadLoop_count K hsize (Nat.zero_add _) heq
          exact iff_of_true (counts_div rfl hlen)
            ⟨rfl, havailable, fun h => absurd h hunbuffered⟩
      · rw [if_pos rfl] at heq
        obtain ⟨rfl, hrest⟩ := Prod.mk.inj (Option.some.inj heq)
        obtain ⟨rfl, -⟩ := Prod.mk.inj hrest
        exact iff_of_false hmax (fun h => zero_ne_EOF (hbuffer.mpr h.2.1).symm)

theorem fread_counts_iff (K : Kernel W) {size nmemb n : ℕ} {bytes : List UInt8}
    {stream t : Option (State W)} (heq : fread K size nmemb stream = some (n, bytes, t)) :
    Counts (MayRead stream) size nmemb bytes.length n ↔ ReadServed K size nmemb stream := by
  cases stream with
  | none =>
    obtain ⟨rfl, hrest⟩ := Prod.mk.inj (Option.some.inj heq)
    obtain ⟨rfl, -⟩ := Prod.mk.inj hrest
    exact iff_of_false (not_counts_max (by decide)) id
  | some s =>
    obtain ⟨⟨m, got, u⟩, hcall, hpair⟩ := Option.map_eq_some_iff.mp heq
    obtain ⟨rfl, hrest⟩ := Prod.mk.inj hpair
    obtain ⟨rfl, -⟩ := Prod.mk.inj hrest
    exact SizeT.freadUnlocked_counts_iff K hcall

/-- A buffer that is set keeps its mode. -/
theorem preserves_bufferMode (K : Kernel W) :
    PreservesStored K fun s t => s.stream.flagBufferSet = true →
      t.stream.flagBufferSet = true ∧ t.stream.bufferMode = s.stream.bufferMode where
  refl _ hset := ⟨hset, rfl⟩
  trans hst htu hset := ⟨(htu (hst hset).1).1, (htu (hst hset).1).2.trans (hst hset).2⟩
  fields _ hframe hset :=
    ⟨(congrArg FILE.flagBufferSet hframe :).trans hset, (congrArg FILE.bufferMode hframe :)⟩
  write _ _ _ hset := ⟨hset, rfl⟩
  read _ _ _ hset := ⟨hset, rfl⟩
  lseek _ _ _ _ hset := ⟨hset, rfl⟩
  buffer s hset := by
    have hensure : ensureBuffer K s = (0, s) := by simp [ensureBuffer, hset]
    rw [hensure]
    exact ⟨hset, rfl⟩
  store hstore hset := by
    unfold storeByte at hstore
    split at hstore
    · obtain rfl := Option.some.inj hstore
      exact ⟨hset, rfl⟩
    · cases hstore

theorem makeRoom_result (K : Kernel W) {s t : State W} {r : ℤ} (heq : makeRoom K s = (r, t)) :
    r = 0 ∨ r = EOF := by
  have hroom := makeRoom_makingRoom K s
  rw [heq] at hroom
  cases hroom with
  | denied _ => exact Or.inr rfl
  | free _ _ => exact Or.inl rfl
  | flushed _ _ hwrite => exact fflushWriteUnlocked_result K hwrite

/-- On a buffered stream `fputc` stores its byte and says so, or does not store
it and reports EOF, or reports EOF over a newline that is stuck in the buffer. -/
theorem fputcUnlocked_stuck (K : Kernel W) {b : UInt8} {c : ℤ} {s t : State W}
    (hset : s.stream.flagBufferSet = true) (hmode : s.stream.bufferMode ≠ .ionbf)
    (heq : fputcUnlocked K b.toNat s = some (c, t)) :
    (c ≠ EOF ∧ ¬ StuckNewline K b s ∧ t.stream.stored = s.stream.stored ++ [b]) ∨
    (c = EOF ∧ ¬ StuckNewline K b s ∧ t.stream.stored = s.stream.stored) ∨
    (c = EOF ∧ StuckNewline K b s ∧ t.stream.stored = s.stream.stored ++ [b]) := by
  have hensure : ensureBuffer K s = (0, s) := by simp [ensureBuffer, hset]
  unfold fputcUnlocked at heq
  simp only [hensure, toByte_toNat, zero_ne_EOF, hmode, if_false] at heq
  have hkeep := FILE.stored_of_record (makeRoom_record K s)
  unfold StuckNewline
  rcases hmake : makeRoom K s with ⟨r, s₁⟩
  rw [hmake] at heq hkeep
  rcases makeRoom_result K hmake with rfl | rfl
  · simp only [zero_ne_EOF, if_false] at heq
    rcases hstore : storeByte b s₁ with _ | s₂
    · simp [hstore] at heq
    · simp only [hstore] at heq
      have hstored := storeByte_stored hstore
      rw [hkeep] at hstored
      by_cases hline : s₂.stream.bufferMode = .iolbf ∧ b = newline
      · rw [if_pos hline] at heq
        rcases hflush : fflushWriteUnlocked K s₂ with ⟨r, s₃⟩
        simp only [hflush] at heq
        have hstored₃ := (fflushWriteUnlocked_stored K hflush).trans hstored
        rcases fflushWriteUnlocked_result K hflush with rfl | rfl
        · rw [if_neg zero_ne_EOF] at heq
          obtain ⟨rfl, rfl⟩ := Prod.mk.inj (Option.some.inj heq)
          refine Or.inl ⟨toNat_ne_EOF b, ?_, hstored₃⟩
          rintro ⟨u₁, u₂, u₃, hroom, hput, _, _, hfail⟩
          obtain ⟨-, rfl⟩ := Prod.mk.inj hroom
          obtain rfl := Option.some.inj (hstore.symm.trans hput)
          exact zero_ne_EOF (Prod.mk.inj (hflush.symm.trans hfail)).1
        · rw [if_pos rfl] at heq
          obtain ⟨rfl, rfl⟩ := Prod.mk.inj (Option.some.inj heq)
          exact Or.inr (Or.inr ⟨rfl, ⟨s₁, s₂, s₃, rfl, hstore, hline.1, hline.2, hflush⟩,
            hstored₃⟩)
      · rw [if_neg hline] at heq
        obtain ⟨rfl, rfl⟩ := Prod.mk.inj (Option.some.inj heq)
        refine Or.inl ⟨toNat_ne_EOF b, ?_, hstored⟩
        rintro ⟨u₁, u₂, u₃, hroom, hput, hmode₂, hnewline, _⟩
        obtain ⟨-, rfl⟩ := Prod.mk.inj hroom
        obtain rfl := Option.some.inj (hstore.symm.trans hput)
        exact hline ⟨hmode₂, hnewline⟩
  · rw [if_pos rfl] at heq
    obtain ⟨rfl, rfl⟩ := Prod.mk.inj (Option.some.inj heq)
    refine Or.inr (Or.inl ⟨rfl, ?_, hkeep⟩)
    rintro ⟨u₁, u₂, u₃, hroom, _⟩
    exact zero_ne_EOF (Prod.mk.inj hroom).1.symm

/-- The byte loop of a write counts the whole elements it stored, but for one
that is stuck. -/
theorem fwriteLoop_count (K : Kernel W) {size nmemb done n : ℕ} {ptr : List UInt8}
    {s t : State W} (hsize : 0 < size) (hset : s.stream.flagBufferSet = true)
    (hmode : s.stream.bufferMode ≠ .ionbf) (hlen : done + ptr.length = size * nmemb)
    (heq : fwriteLoop K size nmemb done ptr s = some (n, t)) :
    ∃ k, t.stream.stored.length = s.stream.stored.length + k ∧ done + k ≤ size * nmemb ∧
      ((¬ ElementStuck K size done ptr s ∧ n = (done + k) / size) ∨
        (ElementStuck K size done ptr s ∧ n < (done + k) / size)) := by
  induction ptr generalizing done s with
  | nil =>
    obtain ⟨rfl, rfl⟩ := Prod.mk.inj (Option.some.inj heq)
    have hall : done = size * nmemb := hlen
    have hnot : ¬ ElementStuck K size done [] s := by
      intro h
      cases h
    refine ⟨0, rfl, le_of_eq hall, Or.inl ⟨hnot, ?_⟩⟩
    rw [Nat.add_zero, hall, Nat.mul_div_cancel_left nmemb hsize]
  | cons b ptr ih =>
    rw [List.length_cons] at hlen
    unfold fwriteLoop at heq
    rcases hput : fputcUnlocked K b.toNat s with _ | ⟨c, u⟩
    · simp [hput] at heq
    · simp only [hput] at heq
      rcases fputcUnlocked_stuck K hset hmode hput with
        ⟨hc, hnot, hstored⟩ | ⟨rfl, hnot, hstored⟩ | ⟨rfl, hstuck, hstored⟩
      · rw [if_neg hc] at heq
        obtain ⟨hset', hmode'⟩ := (preserves_bufferMode K).fputcUnlocked hput hset
        obtain ⟨k, hk, hle, hn⟩ := ih hset' (hmode' ▸ hmode) (by omega) heq
        have hiff : ElementStuck K size done (b :: ptr) s ↔
            ElementStuck K size (done + 1) ptr u := by
          refine ⟨fun h => ?_, fun h => .later hput hc h⟩
          cases h with
          | here hstuck _ => exact absurd hstuck hnot
          | later hput' _ hrest =>
            obtain ⟨-, rfl⟩ := Prod.mk.inj (Option.some.inj (hput.symm.trans hput'))
            exact hrest
        have hsum : done + (k + 1) = done + 1 + k := by omega
        rw [hiff]
        refine ⟨k + 1, ?_, by omega, hsum ▸ hn⟩
        rw [hk, hstored, List.length_append, List.length_singleton]
        omega
      · rw [if_pos rfl] at heq
        obtain ⟨rfl, rfl⟩ := Prod.mk.inj (Option.some.inj heq)
        refine ⟨0, congrArg List.length hstored, by omega, Or.inl ⟨fun h => ?_, rfl⟩⟩
        cases h with
        | here hstuck _ => exact hnot hstuck
        | later hput' hc _ =>
          exact hc (Prod.mk.inj (Option.some.inj (hput'.symm.trans hput))).1
      · rw [if_pos rfl] at heq
        obtain ⟨rfl, rfl⟩ := Prod.mk.inj (Option.some.inj heq)
        refine ⟨1, by rw [hstored, List.length_append, List.length_singleton], by omega, ?_⟩
        by_cases hend : size ∣ done + 1
        · refine Or.inr ⟨.here hstuck hend, ?_⟩
          rw [Nat.succ_div_of_dvd hend]
          omega
        · refine Or.inl ⟨fun h => ?_, (Nat.succ_div_of_not_dvd hend).symm⟩
          cases h with
          | here _ hend' => exact hend hend'
          | later hput' hc _ =>
            exact hc (Prod.mk.inj (Option.some.inj (hput'.symm.trans hput))).1

theorem fwriteLoop_counts_iff (K : Kernel W) {permitted : Prop} {size nmemb n : ℕ}
    {ptr : List UInt8} {s u t : State W} (hpermitted : permitted) (hsize : 0 < size)
    (hset : u.stream.flagBufferSet = true) (hmode : u.stream.bufferMode ≠ .ionbf)
    (hstored : u.stream.stored = s.stream.stored)
    (hptr : ptr.length = size * nmemb) (heq : fwriteLoop K size nmemb 0 ptr u = some (n, t)) :
    Counts permitted size nmemb (s.stream.takenSince t.stream) n ↔
      ¬ ElementStuck K size 0 ptr u := by
  obtain ⟨hset', hmode'⟩ := (preserves_bufferMode K).fwriteLoop heq hset
  obtain ⟨k, hk, hle, hn⟩ :=
    fwriteLoop_count K hsize hset hmode ((Nat.zero_add _).trans hptr) heq
  have hmoved : s.stream.takenSince t.stream = k := by
    rw [FILE.takenSince, if_neg (hmode' ▸ hmode), hk, hstored]
    omega
  rw [Nat.zero_add] at hle hn
  rw [hmoved]
  rcases hn with ⟨hnot, rfl⟩ | ⟨hstuck, hlt⟩
  · exact iff_of_true (counts_div hpermitted hle) hnot
  · exact iff_of_false (fun h => absurd h.eq (Nat.ne_of_lt hlt)) (fun h => h hstuck)

/-- The direct write counts what it was given where `impl_write` takes all of it,
and reports EOF otherwise, whatever was taken. -/
theorem fwriteUnbuffered_taken (K : Kernel W) {ptr : List UInt8} {size n : ℕ} {s t : State W}
    (hmode : s.stream.bufferMode = .ionbf) (heq : fwriteUnbuffered K ptr size s = (n, t)) :
    ((s.stream.implWrite = true ∧ TakesAll K s.stream.fileDescriptor ptr s.world) ∧
      n = ptr.length / size ∧ s.stream.takenSince t.stream = ptr.length) ∨
    (¬ (s.stream.implWrite = true ∧ TakesAll K s.stream.fileDescriptor ptr s.world) ∧
      n = SIZE_MAX ∧ (s.stream.takenSince t.stream < ptr.length ∨
        s.stream.takenSince t.stream = 0)) := by
  unfold fwriteUnbuffered at heq
  cases himpl : s.stream.implWrite with
  | false =>
    rw [if_pos himpl] at heq
    obtain ⟨rfl, rfl⟩ := Prod.mk.inj heq
    have htaken : s.stream.takenSince s.setError.stream = 0 := by
      simp [FILE.takenSince, FILE.accepted, State.setError]
    exact Or.inr ⟨fun h => Bool.false_ne_true h.1, rfl, Or.inr htaken⟩
  | true =>
    rw [if_neg (by simp [himpl])] at heq
    have hall := writeLoop_eq_zero_iff K 0 ptr
      { s with stream := { s.stream with flagDirectionWrite := true, flagEof := false } }
    obtain ⟨left, calls, eof, error, w, hloop, htransfer⟩ := writeLoop_eq K 0 ptr
      { s with stream := { s.stream with flagDirectionWrite := true, flagEof := false } }
    rw [hloop] at heq hall
    have hlen := congrArg List.length htransfer.taken_append_left
    rw [List.length_append] at hlen
    have hmoved (hmode' : t.stream.bufferMode = .ionbf)
        (hwrites : t.stream.writes = s.stream.writes ++ calls) :
        s.stream.takenSince t.stream = (takenOf calls).length := by
      rw [FILE.takenSince, if_pos hmode', FILE.accepted_of_writes hwrites, List.length_append]
      omega
    by_cases hleft : left = []
    · simp only [hleft, if_true, zero_ne_EOF, if_false] at heq hall
      obtain ⟨rfl, ht⟩ := Prod.mk.inj heq
      rw [hleft, List.length_nil, Nat.add_zero] at hlen
      rw [hmoved (ht ▸ hmode) (ht ▸ rfl), hlen]
      exact Or.inl ⟨⟨rfl, hall.mp trivial⟩, rfl, rfl⟩
    · simp only [hleft, if_false, if_true] at heq hall
      obtain ⟨rfl, ht⟩ := Prod.mk.inj heq
      rw [hmoved (ht ▸ hmode) (ht ▸ rfl)]
      have hpos := List.length_pos_of_ne_nil hleft
      exact Or.inr ⟨fun h => zero_ne_EOF (hall.mpr h.2).symm, rfl, Or.inl (by omega)⟩

/-- The direct write moves what `impl_write` takes. -/
theorem fwriteUnbuffered_counts_iff (K : Kernel W) {permitted : Prop} {ptr : List UInt8}
    {size nmemb n : ℕ} {s t : State W} (hpermitted : permitted)
    (hmode : s.stream.bufferMode = .ionbf) (hle : ptr.length ≤ size * nmemb)
    (hmax : ptr.length ≤ SIZE_MAX) (heq : fwriteUnbuffered K ptr size s = (n, t)) :
    Counts permitted size nmemb (s.stream.takenSince t.stream) n ↔
      s.stream.implWrite = true ∧ TakesAll K s.stream.fileDescriptor ptr s.world := by
  have hpositive : 0 < SIZE_MAX := by decide
  rcases fwriteUnbuffered_taken K hmode heq with ⟨hall, rfl, htaken⟩ | ⟨hnot, rfl, htaken⟩
  · rw [htaken]
    exact iff_of_true (counts_div hpermitted hle) hall
  · refine iff_of_false (not_counts_max ?_) hnot
    rcases htaken with hless | hzero
    · exact Nat.lt_of_lt_of_le hless hmax
    · rw [hzero]
      exact hpositive

/-- The ways through a write that asks for something. -/
inductive Writing (K : Kernel W) (ptr : List UInt8) (size nmemb : ℕ) (s : State W) :
    ℕ → State W → Prop
  | denied {t : State W} (hnot : ¬ (s.stream.mode.write = true ∧ BufferAvailable K s))
      (htaken : s.stream.takenSince t.stream = 0) : Writing K ptr size nmemb s SIZE_MAX t
  | direct {n : ℕ} {t : State W} (hmode : s.stream.mode.write = true)
      (havailable : BufferAvailable K s) (hunbuffered : s.stream.Unbuffered)
      (heq : fwriteUnbuffered K (ptr.take (total size nmemb)) size s = (n, t)) :
      Writing K ptr size nmemb s n t
  | byBytes {n : ℕ} {u t : State W} (hmode : s.stream.mode.write = true)
      (havailable : BufferAvailable K s) (hbuffered : ¬ s.stream.Unbuffered)
      (hensure : ensureBuffer K s = (0, u)) (hset : u.stream.flagBufferSet = true)
      (hnot : u.stream.bufferMode ≠ .ionbf) (hstored : u.stream.stored = s.stream.stored)
      (heq : fwriteLoop K size nmemb 0 ptr u = some (n, t)) : Writing K ptr size nmemb s n t

theorem SizeT.fwriteUnlocked_writing (K : Kernel W) {ptr : List UInt8} {size nmemb n : ℕ}
    {s t : State W} (hzero : ¬ (size = 0 ∨ nmemb = 0))
    (heq : SizeT.fwriteUnlocked K ptr size nmemb s = some (n, t)) :
    Writing K ptr size nmemb s n t := by
  unfold SizeT.fwriteUnlocked at heq
  rw [if_neg hzero] at heq
  cases hmode : s.stream.mode.write with
  | false =>
    rw [if_pos hmode] at heq
    obtain ⟨rfl, rfl⟩ := Prod.mk.inj (Option.some.inj heq)
    have herror : s.stream.takenSince s.setError.stream = 0 := by
      simp [FILE.takenSince, FILE.accepted, State.setError]
    exact .denied (fun h => Bool.false_ne_true (hmode.symm.trans h.1)) herror
  | true =>
    rw [if_neg (by simp [hmode])] at heq
    have hbuffer := ensureBuffer_eq_zero_iff K s
    have hstored := FILE.stored_of_record (ensureBuffer_record K s)
    rcases hensure : ensureBuffer K s with ⟨r, u⟩
    rw [hensure] at heq hbuffer hstored
    dsimp only at heq hbuffer hstored
    rcases ensureBuffer_result K hensure with rfl | rfl
    · obtain ⟨hset, hionbf, hunchanged⟩ := ensureBuffer_mode K hensure
      rw [if_neg zero_ne_EOF] at heq
      have havailable := hbuffer.mp rfl
      by_cases hunbuffered : s.stream.Unbuffered
      · rw [if_pos (hionbf.mpr hunbuffered), hunchanged hunbuffered] at heq
        exact .direct hmode havailable hunbuffered (Option.some.inj heq)
      · have hnot : u.stream.bufferMode ≠ .ionbf := fun h => hunbuffered (hionbf.mp h)
        rw [if_neg hnot] at heq
        exact .byBytes hmode havailable hunbuffered hensure hset hnot hstored heq
    · rw [if_pos rfl] at heq
      obtain ⟨rfl, rfl⟩ := Prod.mk.inj (Option.some.inj heq)
      have hsame : s.stream.takenSince s.stream = 0 := by simp [FILE.takenSince]
      refine .denied (fun h => zero_ne_EOF (hbuffer.mpr h.2).symm) ?_
      rw [ensureBuffer_fails K hensure, hsame]

theorem SizeT.fwriteUnlocked_counts_iff (K : Kernel W) {ptr : List UInt8} {size nmemb n : ℕ}
    {s t : State W} (hptr : ptr.length = size * nmemb)
    (heq : SizeT.fwriteUnlocked K ptr size nmemb s = some (n, t)) :
    Counts (s.stream.mode.write = true) size nmemb (s.stream.takenSince t.stream) n ↔
      WriteServed K ptr size nmemb s := by
  by_cases hzero : size = 0 ∨ nmemb = 0
  · unfold SizeT.fwriteUnlocked at heq
    rw [if_pos hzero] at heq
    obtain ⟨rfl, rfl⟩ := Prod.mk.inj (Option.some.inj heq)
    have hsame : s.stream.takenSince s.stream = 0 := by simp [FILE.takenSince]
    rw [hsame]
    have hcounts : Counts (s.stream.mode.write = true) size nmemb 0 0 :=
      ⟨Nat.zero_le _, (Nat.zero_div size).symm, fun _ => rfl⟩
    exact ⟨fun _ => or_assoc.mp (Or.inl hzero), fun _ => hcounts⟩
  · have hwriting := SizeT.fwriteUnlocked_writing K hzero heq
    unfold WriteServed
    rw [or_or_iff_of_not hzero]
    rw [not_or] at hzero
    cases hwriting with
    | denied hnot htaken =>
      rw [htaken]
      exact iff_of_false (not_counts_max (by decide)) fun h => hnot ⟨h.1, h.2.1⟩
    | direct hmode havailable hunbuffered hdirect =>
      have htake : (ptr.take (total size nmemb)).length = total size nmemb := by
        rw [List.length_take, hptr]
        exact Nat.min_eq_left (total_le size nmemb)
      have hle := htake.le.trans (total_le size nmemb)
      have hbound := htake.le.trans (total_le_max size nmemb)
      rw [fwriteUnbuffered_counts_iff K hmode hunbuffered.2 hle hbound hdirect]
      exact ⟨fun h => ⟨hmode, havailable, fun _ => h, fun hnot => absurd hunbuffered hnot⟩,
        fun h => h.2.2.1 hunbuffered⟩
    | byBytes hmode havailable hbuffered hensure hset hnot hstored hloop =>
      rw [fwriteLoop_counts_iff K hmode (Nat.pos_of_ne_zero hzero.1) hset hnot hstored hptr hloop,
        hensure]
      exact ⟨fun h => ⟨hmode, havailable, fun h' => absurd h' hbuffered, fun _ => h⟩,
        fun h => h.2.2.2 hbuffered⟩

/-- For every stream, every request and every behaviour of the kernel, the counts
that `fread` and `fwrite` return can be used as lengths exactly where the request
is served. -/
theorem element_counts_iff (K : Kernel W) (size nmemb : ℕ) :
    (∀ (stream t : Option (State W)) (n : ℕ) (bytes : List UInt8),
      fread K size nmemb stream = some (n, bytes, t) →
      (Counts (MayRead stream) size nmemb bytes.length n ↔ ReadServed K size nmemb stream)) ∧
    (∀ (ptr : Vector UInt8 (size * nmemb)) (s t : State W) (n : ℕ),
      fwrite K ptr.toList size nmemb s = some (n, t) →
      (Counts (s.stream.mode.write = true) size nmemb (s.stream.takenSince t.stream) n ↔
        WriteServed K ptr.toList size nmemb s)) := by
  constructor
  · intro stream t n bytes hread
    exact fread_counts_iff K hread
  · intro ptr s t n hwrite
    exact SizeT.fwriteUnlocked_counts_iff K ptr.length_toList hwrite

/-- Reading from a stream open for writing, and writing eight bytes to an
unbuffered one of which three are taken before an error: both answer 2^64 - 1. -/
theorem element_counts_eof :
    (∃ n bytes t, fread scriptedKernel 1 8 (some ⟨openedStream writeFlags [0] .iofbf, []⟩) =
        some (n, bytes, t) ∧ bytes.length = 0 ∧ n = SIZE_MAX ∧
      ¬ Counts (MayRead (some (⟨openedStream writeFlags [0] .iofbf, []⟩ : State (List (Option ℕ)))))
        1 8 bytes.length n) ∧
    (∃ n t, fwrite scriptedKernel (List.replicate 8 0) 1 8
        ⟨openedStream writeFlags [] .ionbf, [some 3, none]⟩ = some (n, t) ∧
      (openedStream writeFlags [] .ionbf).takenSince t.stream = 3 ∧ n = SIZE_MAX ∧
      ¬ Counts ((openedStream writeFlags [] .ionbf).mode.write = true) 1 8
        ((openedStream writeFlags [] .ionbf).takenSince t.stream) n) := by
  constructor
  · exact ⟨SIZE_MAX, [], _, rfl, rfl, rfl, not_counts_max (by decide)⟩
  · have hrun : (fwrite scriptedKernel (List.replicate 8 0) 1 8
        ⟨openedStream writeFlags [] .ionbf, [some 3, none]⟩).map
        (fun (n, t) => (n, (openedStream writeFlags [] .ionbf).takenSince t.stream)) =
        some (SIZE_MAX, 3) := by
      decide +kernel
    obtain ⟨⟨n, t⟩, hcall, hpair⟩ := Option.map_eq_some_iff.mp hrun
    obtain ⟨hn, htaken⟩ := Prod.mk.inj hpair
    have hnot : ¬ Counts ((openedStream writeFlags [] .ionbf).mode.write = true) 1 8 3 SIZE_MAX :=
      not_counts_max (by decide)
    rw [← htaken, ← hn] at hnot
    exact ⟨n, t, hcall, htaken, hn, hnot⟩

end Heartix.Stdio
