import Heartix.Printf.Formatted
import Heartix.Stdlib.ReadBack

/-!
Names for temporary files. Each process counts its own calls, and a name is made of the
count and the number of the process. Names are told apart by these two numbers, so they
are different for all calls of all processes that have different numbers.
-/

namespace Heartix.Stdio

open Numeral Printf Process Stdlib

def L_tmpnam : ℕ := 4096

def tempDirectory : List UInt8 := "/system/temp/".toList.map Char.toUInt8

def tmpFormat : List UInt8 := "/system/temp/%lu-%lu".toList.map Char.toUInt8

/-- The variables of `tmpnam` in a process, and its buffers by their addresses. -/
structure Statics where
  tmpnam_static : Option ℕ
  tmpnam_next : BitVec 64
  memory : ℕ → Memory

/-- The count and the word of the number of the process, as `snprintf` gets them. -/
def tmpArguments (next pidWord : BitVec 64) : VaList where
  words i := if i = 0 then next else pidWord
  position := 0

/-- The buffer that is used, and the variables after it may have been allocated. -/
def tmpBuffer (malloc : Option ℕ) (buf : Option ℕ) (s : Statics) : Option ℕ × Statics :=
  match buf with
  | some buf => (some buf, s)
  | none =>
      match s.tmpnam_static with
      | some buf => (some buf, s)
      | none =>
          match malloc with
          | none => (none, s)
          | some buf => (some buf, { s with tmpnam_static := some buf })

/-- No pointer where there is no memory. -/
def tmpnam (malloc : Option ℕ) (pidWord : BitVec 64) (buf : Option ℕ) (s : Statics) :
    Option (Option ℕ × Statics) :=
  match tmpBuffer malloc buf s with
  | (none, s) => some (none, s)
  | (some buf, s) =>
      let s := { s with tmpnam_next := s.tmpnam_next + 1 }
      match vsnprintf (fun _ => []) (s.memory buf) L_tmpnam tmpFormat
          (tmpArguments s.tmpnam_next pidWord) with
      | none => none
      | some (_, content) =>
          some (some buf, { s with memory := Function.update s.memory buf content })

/-- The name that is in a buffer. -/
def Statics.name (s : Statics) (buf : ℕ) : List UInt8 :=
  cString ((List.range L_tmpnam).map (s.memory buf))

/-- `tmpfile` as far as the name goes: the one that it hands to `fopen`. -/
def tmpfile (malloc : Option ℕ) (pidWord : BitVec 64) (s : Statics) :
    Option (Option (List UInt8) × Statics) :=
  match malloc with
  | none => some (none, s)
  | some name_buf =>
      (tmpnam none pidWord (some name_buf) s).map fun (name, s) => (name.map s.name, s)

inductive TmpCall
  | tmpnam (buf : Option ℕ)
  | tmpfile

/-- A call in a process. What `malloc` answers is an address, if anything; the word of
the number of the process is read from an `int`, and the upper half may be anything. -/
structure TmpEvent where
  pid : BitVec 32
  call : TmpCall
  malloc : Option ℕ
  pidWord : BitVec 64
  pidWord_eq : pidWord.setWidth 32 = pid

/-- All processes, and the names that have been handed out. -/
structure TmpSystem where
  statics : BitVec 32 → Statics
  names : List (List UInt8)

def TmpEvent.exec (e : TmpEvent) (s : Statics) : Option (Option (List UInt8) × Statics) :=
  match e.call with
  | .tmpnam buf => (tmpnam e.malloc e.pidWord buf s).map fun (name, s) => (name.map s.name, s)
  | .tmpfile => tmpfile e.malloc e.pidWord s

namespace TmpSystem

def step (s : TmpSystem) (e : TmpEvent) : Option TmpSystem :=
  (e.exec (s.statics e.pid)).map fun (name, statics) =>
    { statics := Function.update s.statics e.pid statics
      names := s.names ++ name.toList }

/-- No call has been made yet. -/
def start (memory : BitVec 32 → ℕ → Memory) : TmpSystem where
  statics pid := { tmpnam_static := none, tmpnam_next := 0, memory := memory pid }
  names := []

end TmpSystem

section Describes

variable {strings : BitVec 64 → List UInt8} {s : List UInt8} {args : VaList}
  {output : List UInt8}

/-- The format describes the text, and all its conversions are known. -/
def Describes (strings : BitVec 64 → List UInt8) (s : List UInt8) (args : VaList)
    (output : List UInt8) : Prop :=
  ∀ fuel, s.length < fuel → ∃ sites,
    formattedLoop (fun _ _ => none) strings fuel s args = some (true, sites) ∧
      text sites = output

theorem describes_nil (args : VaList) : Describes strings [] args [] := by
  intro fuel hfuel
  cases fuel with
  | zero => cases hfuel
  | succ fuel => exact ⟨[], rfl, rfl⟩

/-- One round of the engine. -/
theorem Describes.round {c : UInt8} {rest : List UInt8} {args' : VaList} {sites : List Site}
    (h : Describes strings rest args' output)
    (hdirective : directive strings s args = (.sites sites, c :: rest, args'))
    (hshorter : rest.length < s.length) : Describes strings s args (text sites ++ output) := by
  intro fuel hfuel
  cases fuel with
  | zero => cases hfuel
  | succ fuel =>
    unfold formattedLoop directiveWith
    rw [hdirective]
    dsimp only
    obtain ⟨more, hmore, htext⟩ := h fuel (by omega)
    cases rest with
    | nil =>
      obtain ⟨more', hmore', htext'⟩ := h 1 Nat.one_pos
      cases hmore'
      refine ⟨sites, rfl, ?_⟩
      rw [← htext', text_nil, List.append_nil]
    | cons d rest =>
      rw [show Printf.step (c :: d :: rest) = some (d :: rest) from rfl]
      dsimp only
      rw [hmore]
      refine ⟨sites ++ more, rfl, ?_⟩
      rw [text_append, htext]

theorem Describes.char (h : Describes strings s args output) {c : UInt8}
    (hc : c ≠ '%'.toUInt8) : Describes strings (c :: s) args (c :: output) := by
  have hdirective : directive strings (c :: s) args = (.sites [⟨[c], 1⟩], c :: s, args) := by
    unfold directive
    exact if_neg hc
  exact h.round hdirective (Nat.lt_succ_self _)

theorem Describes.literal (h : Describes strings s args output) {l : List UInt8}
    (hl : '%'.toUInt8 ∉ l) : Describes strings (l ++ s) args (l ++ output) := by
  induction l with
  | nil => exact h
  | cons c l ih =>
    obtain ⟨hc, hrest⟩ := not_or.mp (mt List.mem_cons.mpr hl)
    exact (ih hrest).char (Ne.symm hc)

/-- `%lu`. -/
theorem mem_known : 'u' ∈ ['d', 'i', 'u', 'o', 'x', 'X', 's'] := by decide

def unsignedWord : Conversion := unsignedLong [] 'u' mem_known

/-- What is printed for an unsigned number. -/
def unsignedText (n : ℕ) : List UInt8 := zeros (onlyZero n) ++ numeral 10 false n

theorem Describes.unsigned (h : Describes strings s args.rest output) :
    Describes strings ('%'.toUInt8 :: (unsignedWord.bytes ++ s)) args
      (unsignedText args.next.toNat ++ output) := by
  obtain ⟨value, htaken⟩ := taken unsignedWord args.next nofun
  have hargument := argument_unsignedLong unsignedWord rfl rfl args.next
  have htext := text_unpadded args htaken (by decide) rfl rfl rfl rfl
  have hdirective : directive strings ('%'.toUInt8 :: (unsignedWord.bytes ++ s)) args =
      (.sites (integerSites (unsignedWord.spec args) value), 'u'.toUInt8 :: s, args.rest) := by
    rw [unsignedWord.directive_bytes, show unsignedWord.valueArgs args = args from rfl,
      convert_integer strings args htaken (by decide)]
    rfl
  rw [hargument] at htext
  have hround := h.round hdirective (by
    rw [List.length_cons, List.length_append]
    omega)
  rw [htext, show unsignedWord.hexPrefix = [] from rfl, show unsignedWord.octal = 0 from rfl,
    Nat.zero_add, List.nil_append] at hround
  exact hround

end Describes

/-- The name for a count and the word of the number of a process. -/
def tmpName (next pidWord : BitVec 64) : List UInt8 :=
  tempDirectory ++ (unsignedText next.toNat ++ ('-'.toUInt8 :: unsignedText pidWord.toNat))

section Names

variable {m n : ℕ} {next next' pidWord pidWord' : BitVec 64}

theorem describes_tmpFormat (strings : BitVec 64 → List UInt8) (next pidWord : BitVec 64) :
    Describes strings tmpFormat (tmpArguments next pidWord) (tmpName next pidWord) := by
  have hend : Describes strings [] (tmpArguments next pidWord).rest.rest [] := describes_nil _
  have hdash : '%'.toUInt8 ∉ ['-'.toUInt8] := by decide
  have hdirectory : '%'.toUInt8 ∉ tempDirectory := by decide
  have hname : tmpName next pidWord = tempDirectory ++ (unsignedText next.toNat ++
      (['-'.toUInt8] ++ (unsignedText pidWord.toNat ++ []))) := by
    rw [List.append_nil]
    rfl
  rw [hname]
  exact (hend.unsigned.literal hdash).unsigned.literal hdirectory

/-- The number is the value of its text. -/
theorem unsignedText_inj (h : unsignedText m = unsignedText n) : m = n := by
  unfold unsignedText at h
  rw [zeros_numeral, zeros_numeral] at h
  have hdigits (k : ℕ) : ∀ d ∈ paddedDigits 10 (onlyZero k) k, d < 16 := fun d hd =>
    (paddedDigits_lt (by decide) d hd).trans (by decide)
  have hsame := congrArg (List.filterMap digitOf) h
  rw [filterMap_digitOf (hdigits m), filterMap_digitOf (hdigits n)] at hsame
  have hvalue := congrArg (value 10) hsame
  rwa [value_paddedDigits, value_paddedDigits] at hvalue

theorem dash_notMem (n : ℕ) : '-'.toUInt8 ∉ unsignedText n := by
  intro hmem
  exact (mem_paddedDigits (by decide) (by decide) hmem).2.2.1 rfl

theorem tmpName_inj (h : tmpName next pidWord = tmpName next' pidWord') :
    next = next' ∧ pidWord = pidWord' := by
  unfold tmpName at h
  have hrest := List.append_cancel_left h
  obtain ⟨hnext, -, hpid⟩ := (List.append_cons_inj_of_notMem (dash_notMem _) (dash_notMem _)).mp
    hrest
  exact ⟨BitVec.toNat_inj.mp (unsignedText_inj hnext),
    BitVec.toNat_inj.mp (unsignedText_inj hpid)⟩

theorem length_unsignedText_le (word : BitVec 64) : (unsignedText word.toNat).length ≤ 20 :=
  (numeral_fits 10 20 (by decide) (by decide) (by decide) (by decide) word).2.2

theorem length_tmpName_lt (next pidWord : BitVec 64) :
    (tmpName next pidWord).length < L_tmpnam := by
  have hnext := length_unsignedText_le next
  have hpid := length_unsignedText_le pidWord
  have hdirectory : tempDirectory.length = 13 := by decide
  have hlimit : L_tmpnam = 4096 := rfl
  unfold tmpName
  rw [List.length_append, List.length_append, List.length_cons]
  omega

theorem zero_notMem_tmpName (next pidWord : BitVec 64) : 0 ∉ tmpName next pidWord := by
  have hnumber (word : BitVec 64) : 0 ∉ unsignedText word.toNat :=
    (numeral_fits 10 20 (by decide) (by decide) (by decide) (by decide) word).1
  have hdirectory : 0 ∉ tempDirectory := by decide
  have hdash : (0 : UInt8) ≠ '-'.toUInt8 := by decide
  unfold tmpName
  rw [List.mem_append, List.mem_append, List.mem_cons]
  rintro (hmem | hmem | hmem | hmem)
  · exact hdirectory hmem
  · exact hnumber next hmem
  · exact hdash hmem
  · exact hnumber pidWord hmem

/-- What `snprintf` leaves in the buffer. -/
theorem vsnprintf_tmpFormat (memory : Memory) (next pidWord : BitVec 64) :
    ∃ result, vsnprintf (fun _ => []) memory L_tmpnam tmpFormat (tmpArguments next pidWord) =
      some (result, stored memory L_tmpnam (tmpName next pidWord)) := by
  obtain ⟨sites, hloop, htext⟩ :=
    describes_tmpFormat (fun _ => []) next pidWord _ (Nat.lt_succ_self _)
  have hformatted : formatted (fun _ _ => none) (fun _ => []) tmpFormat
      (tmpArguments next pidWord) = some (true, tmpName next pidWord) := by
    unfold formatted
    rw [hloop, ← htext]
    rfl
  obtain ⟨content, hresult, hcontent⟩ := (vsnprintfWith_formatted _ _ memory L_tmpnam tmpFormat
    (tmpArguments next pidWord)).2 _ _ hformatted
  rw [vsnprintfWith_none] at hresult
  have hsmall := length_tmpName_lt next pidWord
  have hlimit : L_tmpnam = 4096 := rfl
  rw [hcontent (by omega)] at hresult
  exact ⟨_, hresult⟩

end Names

section Calls

variable {s : Statics} {malloc buf : Option ℕ} {pidWord : BitVec 64}

theorem tmpBuffer_next (malloc buf : Option ℕ) (s : Statics) :
    (tmpBuffer malloc buf s).2.tmpnam_next = s.tmpnam_next := by
  unfold tmpBuffer
  cases buf with
  | some buf => rfl
  | none =>
    cases s.tmpnam_static with
    | some buf => rfl
    | none =>
      cases malloc with
      | none => rfl
      | some buf => rfl

/-- A call hands out the name for the next count, or nothing where there is no memory. -/
structure Handed (pidWord : BitVec 64) (s : Statics) (name : Option (List UInt8))
    (t : Statics) : Prop where
  failed : name = none → t.tmpnam_next = s.tmpnam_next
  named : ∀ text, name = some text → t.tmpnam_next = s.tmpnam_next + 1 ∧
    text = tmpName t.tmpnam_next pidWord

theorem tmpnam_handed (malloc buf : Option ℕ) (pidWord : BitVec 64) (s : Statics) :
    ∃ buffer t, tmpnam malloc pidWord buf s = some (buffer, t) ∧
      Handed pidWord s (buffer.map t.name) t := by
  have hnext := tmpBuffer_next malloc buf s
  unfold tmpnam
  cases hbuffer : tmpBuffer malloc buf s with
  | mk buffer u =>
    rw [hbuffer] at hnext
    cases buffer with
    | none => exact ⟨none, u, rfl, fun _ => hnext, nofun⟩
    | some buffer =>
      obtain ⟨result, hprinted⟩ :=
        vsnprintf_tmpFormat (u.memory buffer) (u.tmpnam_next + 1) pidWord
      dsimp only
      rw [hprinted]
      refine ⟨some buffer, _, rfl, nofun, ?_⟩
      intro text htext
      obtain rfl := Option.some.inj htext
      refine ⟨congrArg (· + 1) hnext, ?_⟩
      unfold Statics.name
      dsimp only
      rw [Function.update_self]
      exact cString_stored (zero_notMem_tmpName _ _) _ (length_tmpName_lt _ _)

theorem TmpEvent.exec_handed (e : TmpEvent) (s : Statics) :
    ∃ name t, e.exec s = some (name, t) ∧ Handed e.pidWord s name t := by
  unfold TmpEvent.exec
  cases e.call with
  | tmpnam buf =>
    obtain ⟨buffer, t, hcall, hhanded⟩ := tmpnam_handed e.malloc buf e.pidWord s
    dsimp only
    rw [hcall]
    exact ⟨_, t, rfl, hhanded⟩
  | tmpfile =>
    dsimp only
    unfold tmpfile
    cases e.malloc with
    | none => exact ⟨none, s, rfl, fun _ => rfl, nofun⟩
    | some buffer =>
      obtain ⟨buffer', t, hcall, hhanded⟩ := tmpnam_handed none (some buffer) e.pidWord s
      dsimp only
      rw [hcall]
      exact ⟨_, t, rfl, hhanded⟩

end Calls

namespace TmpSystem

variable {s : TmpSystem} {calls : ℕ}

/-- After some calls: the names are different, and each is one of a count that its process
has reached. -/
structure Distinct (calls : ℕ) (s : TmpSystem) : Prop where
  nodup : s.names.Nodup
  counted : ∀ pid, (s.statics pid).tmpnam_next.toNat ≤ calls
  reached : ∀ name ∈ s.names, ∃ next pidWord, name = tmpName next pidWord ∧
    next.toNat ≤ (s.statics (pidWord.setWidth 32)).tmpnam_next.toNat

theorem distinct_start (memory : BitVec 32 → ℕ → Memory) : Distinct 0 (start memory) :=
  ⟨List.nodup_nil, fun _ => le_refl 0, nofun⟩

theorem Distinct.step (h : Distinct calls s) (hcalls : calls + 1 < 2 ^ 64) (e : TmpEvent) :
    ∃ t, s.step e = some t ∧ Distinct (calls + 1) t := by
  obtain ⟨name, t, hexec, hhanded⟩ := e.exec_handed (s.statics e.pid)
  refine ⟨{ statics := Function.update s.statics e.pid t, names := s.names ++ name.toList },
    ?_, ?_⟩
  · unfold TmpSystem.step
    rw [hexec]
    rfl
  have hcount := h.counted e.pid
  cases name with
  | none =>
    have hnext := hhanded.failed rfl
    have hsame (pid : BitVec 32) : (Function.update s.statics e.pid t pid).tmpnam_next =
        (s.statics pid).tmpnam_next := by
      by_cases hpid : pid = e.pid
      · rw [hpid, Function.update_self, hnext]
      · rw [Function.update_of_ne hpid]
    refine ⟨?_, fun pid => ?_, fun name hname => ?_⟩
    · rw [Option.toList_none, List.append_nil]
      exact h.nodup
    · rw [hsame]
      exact (h.counted pid).trans (Nat.le_succ calls)
    · rw [Option.toList_none, List.append_nil] at hname
      obtain ⟨next, pidWord, hname, hle⟩ := h.reached name hname
      refine ⟨next, pidWord, hname, ?_⟩
      rw [hsame]
      exact hle
  | some name =>
    obtain ⟨hnext, hname⟩ := hhanded.named name rfl
    have hvalue : t.tmpnam_next.toNat = (s.statics e.pid).tmpnam_next.toNat + 1 := by
      rw [hnext, BitVec.toNat_add]
      exact Nat.mod_eq_of_lt (by
        change (s.statics e.pid).tmpnam_next.toNat + 1 < 2 ^ 64
        omega)
    have hle (pid : BitVec 32) : (s.statics pid).tmpnam_next.toNat ≤
        (Function.update s.statics e.pid t pid).tmpnam_next.toNat := by
      by_cases hpid : pid = e.pid
      · rw [hpid, Function.update_self, hvalue]
        exact Nat.le_succ _
      · rw [Function.update_of_ne hpid]
    refine ⟨?_, fun pid => ?_, fun other hother => ?_⟩
    · -- the count of the new name is larger than those of its process before
      rw [Option.toList_some]
      refine List.Nodup.append h.nodup (List.nodup_singleton name) ?_
      intro other hother hnew
      obtain rfl := List.mem_singleton.mp hnew
      obtain ⟨next, pidWord, hother, hreached⟩ := h.reached other hother
      obtain ⟨hcounts, hpids⟩ := tmpName_inj (hother.symm.trans hname)
      rw [hpids, e.pidWord_eq, hcounts, hvalue] at hreached
      omega
    · change (Function.update s.statics e.pid t pid).tmpnam_next.toNat ≤ calls + 1
      by_cases hpid : pid = e.pid
      · rw [hpid, Function.update_self, hvalue]
        omega
      · rw [Function.update_of_ne hpid]
        exact (h.counted pid).trans (Nat.le_succ calls)
    · rw [Option.toList_some] at hother
      rcases List.mem_append.mp hother with hother | hother
      · obtain ⟨next, pidWord, hother, hreached⟩ := h.reached other hother
        exact ⟨next, pidWord, hother, hreached.trans (hle _)⟩
      · obtain rfl := List.mem_singleton.mp hother
        refine ⟨t.tmpnam_next, e.pidWord, hname, ?_⟩
        change _ ≤ (Function.update s.statics e.pid t (e.pidWord.setWidth 32)).tmpnam_next.toNat
        rw [e.pidWord_eq, Function.update_self]

theorem Distinct.run (h : Distinct calls s) (events : List TmpEvent)
    (hcalls : calls + events.length < 2 ^ 64) :
    ∃ t, events.foldlM TmpSystem.step s = some t ∧ Distinct (calls + events.length) t := by
  induction events generalizing s calls with
  | nil => exact ⟨s, rfl, h⟩
  | cons e events ih =>
    rw [List.length_cons] at hcalls
    obtain ⟨u, hu, hdistinct⟩ := h.step (by omega) e
    obtain ⟨t, ht, hend⟩ := ih hdistinct (by omega)
    refine ⟨t, ?_, ?_⟩
    · rw [List.foldlM_cons, hu]
      exact ht
    · rw [List.length_cons, Nat.add_comm events.length, ← Nat.add_assoc]
      exact hend

/-- In any order of calls of `tmpnam` and `tmpfile` in any number of processes, as long as
there are not so many that a count starts anew, no name is handed out twice, whatever
`malloc` answers. Each fits into the buffer for it. -/
theorem temporary_names_distinct (memory : BitVec 32 → ℕ → Memory) (events : List TmpEvent)
    (hcalls : events.length < 2 ^ 64) :
    ∃ t, events.foldlM step (start memory) = some t ∧ t.names.Nodup ∧
      ∀ name ∈ t.names, tempDirectory <+: name ∧ name.length < L_tmpnam := by
  obtain ⟨t, ht, hdistinct⟩ :=
    (distinct_start memory).run events (by rwa [Nat.zero_add])
  refine ⟨t, ht, hdistinct.nodup, fun name hname => ?_⟩
  obtain ⟨next, pidWord, rfl, -⟩ := hdistinct.reached name hname
  exact ⟨List.prefix_append _ _, length_tmpName_lt next pidWord⟩

/-- A name in the buffer of the library in one process, and a file in another one. -/
def twoCalls : List TmpEvent :=
  [⟨7, .tmpnam none, some 64, 7, rfl⟩, ⟨8, .tmpfile, some 64, 8, rfl⟩]

theorem temporary_names_distinct_twoCalls :
    ∃ t, twoCalls.foldlM step (start fun _ _ _ => 0) = some t ∧ t.names.Nodup ∧
      ∀ name ∈ t.names, tempDirectory <+: name ∧ name.length < L_tmpnam :=
  temporary_names_distinct (fun _ _ _ => 0) twoCalls (by decide)

end TmpSystem

end Heartix.Stdio
