import Heartix.Printf.Field
import Heartix.Printf.Formatted
import Mathlib.Data.Nat.Factorization.Basic
import Mathlib.Tactic.Ring

/-!
The kernel log. `kvlog` formats into a buffer of twice the length of the format, and
doubles the buffer until the text fits. The length is kept in 32 bits, so that it grows
up to 2^31 and is zero from then on.
-/

namespace Heartix.Printf

/-- What is passed to `g_log`: that there is no memory, or a buffer. -/
inductive Message where
  | failure
  | text (buf : Block)

/-- The loop of `kvlog`. The first number bounds the rounds, the second one counts them for
`malloc`, which gives a block of some content to each. -/
def kvlogLoop (floating : Floating) (strings : BitVec 64 → List UInt8)
    (malloc : ℕ → ℕ → Option Memory) (message : List UInt8) (l : VaList) :
    ℕ → ℕ → ℕ → Option (List Message)
  | 0, _, _ => none
  | fuel + 1, round, bufLen =>
      match malloc round bufLen with
      | none => some [.failure]
      | some buf =>
          match vsnprintfWith floating strings buf bufLen message l with
          | none => none
          | some (printed, buf) =>
              if 0 ≤ printed ∧ (printed % 2 ^ 32).toNat < bufLen then some [.text ⟨bufLen, buf⟩]
              else kvlogLoop floating strings malloc message l fuel (round + 1)
                (bufLen * 2 % 2 ^ 32)

/-- `kvlog`: the calls of `g_log`. -/
def kvlog (floating : Floating) (strings : BitVec 64 → List UInt8)
    (malloc : ℕ → ℕ → Option Memory) (fuel : ℕ) (message : List UInt8) (l : VaList) :
    Option (List Message) :=
  let messageLen := message.length % 2 ^ 32
  kvlogLoop floating strings malloc message l fuel 0 (messageLen * 2 % 2 ^ 32)

/-- The block begins with a text and its NUL. -/
def Block.Holds (block : Block) (output : List UInt8) : Prop :=
  output.length < block.size ∧
    (List.range (output.length + 1)).map block.content = output ++ [0]

/-- The length that is doubled gets to the largest power of two. -/
theorem doubled_length {n : ℕ} (h : n % 2 ^ 31 ≠ 0) :
    ∃ k, n % 2 ^ 32 * 2 % 2 ^ 32 * 2 ^ k % 2 ^ 32 = 2 ^ 31 := by
  obtain ⟨a, m, hodd, hn⟩ := Nat.exists_eq_two_pow_mul_odd (n := n) (by
    intro hzero
    apply h
    rw [hzero]
    exact Nat.zero_mod _)
  have ha : a ≤ 30 := by
    by_contra hlarge
    apply h
    apply Nat.mod_eq_zero_of_dvd
    rw [hn]
    exact Dvd.dvd.mul_right (Nat.pow_dvd_pow 2 (by omega)) m
  refine ⟨30 - a, ?_⟩
  have hpower : 2 ^ a * 2 * 2 ^ (30 - a) = 2 ^ 31 := by
    rw [← Nat.pow_succ, ← Nat.pow_add]
    congr 1
    omega
  obtain ⟨r, hr⟩ := hodd
  calc n % 2 ^ 32 * 2 % 2 ^ 32 * 2 ^ (30 - a) % 2 ^ 32
      = n * 2 * 2 ^ (30 - a) % 2 ^ 32 := by
        rw [Nat.mod_mul_mod, Nat.mul_assoc, Nat.mod_mul_mod, Nat.mul_assoc]
    _ = (2 ^ a * 2 * 2 ^ (30 - a)) * m % 2 ^ 32 := by
        rw [hn]
        congr 1
        ring
    _ = 2 ^ 31 := by
        rw [hpower, hr]
        omega

section Loop

variable {floating : Floating} {strings : BitVec 64 → List UInt8} {malloc : ℕ → ℕ → Option Memory}
  {message : List UInt8} {l : VaList}

/-- One round with a text of the right size. -/
theorem kvlogLoop_fits (hmalloc : ∀ round size, (malloc round size).isSome = true)
    {output : List UInt8} (houtput : formatted floating strings message l = some (true, output))
    (hlength : output.length < 2 ^ 31) (fuel round : ℕ) {bufLen : ℕ}
    (hfits : output.length < bufLen) :
    ∃ buf : Block, kvlogLoop floating strings malloc message l (fuel + 1) round bufLen =
      some [.text buf] ∧ buf.Holds output := by
  obtain ⟨memory, hmemory⟩ := Option.isSome_iff_exists.mp (hmalloc round bufLen)
  obtain ⟨content, hprinted, hcontent⟩ :=
    (vsnprintfWith_formatted floating strings memory bufLen message l).2 true output houtput
  have hresult : (output.length : ℤ).bmod (2 ^ 32) = output.length :=
    Int.bmod_eq_of_le (by omega) (by omega)
  rw [if_pos rfl, hresult] at hprinted
  refine ⟨⟨bufLen, content⟩, ?_, hfits, ?_⟩
  · unfold kvlogLoop
    rw [hmemory]
    dsimp only
    rw [hprinted]
    dsimp only
    rw [if_pos]
    omega
  · dsimp only
    rw [hcontent (by omega)]
    exact map_stored_of_lt memory hfits

/-- One round with a text that does not fit. -/
theorem kvlogLoop_grows (hmalloc : ∀ round size, (malloc round size).isSome = true)
    {known : Bool} {output : List UInt8}
    (houtput : formatted floating strings message l = some (known, output)) (fuel round bufLen : ℕ)
    (hgrows : ¬(known = true ∧ 0 ≤ (output.length : ℤ).bmod (2 ^ 32) ∧
      (output.length : ℤ).bmod (2 ^ 32) < bufLen)) :
    kvlogLoop floating strings malloc message l (fuel + 1) round bufLen =
      kvlogLoop floating strings malloc message l fuel (round + 1) (bufLen * 2 % 2 ^ 32) := by
  obtain ⟨memory, hmemory⟩ := Option.isSome_iff_exists.mp (hmalloc round bufLen)
  obtain ⟨content, hprinted, -⟩ :=
    (vsnprintfWith_formatted floating strings memory bufLen message l).2 known output houtput
  have hbound := bmod_bounds output.length
  rw [kvlogLoop, hmemory]
  dsimp only
  rw [hprinted]
  dsimp only
  rw [if_neg]
  intro hfits
  apply hgrows
  cases known with
  | false => cases hfits.1
  | true =>
    rw [if_pos rfl] at hfits
    refine ⟨rfl, hfits.1, ?_⟩
    omega

/-- The loop ends when some later length is large enough. -/
theorem kvlogLoop_ends (hmalloc : ∀ round size, (malloc round size).isSome = true)
    {output : List UInt8} (houtput : formatted floating strings message l = some (true, output))
    (hlength : output.length < 2 ^ 31) (k round : ℕ) {bufLen : ℕ}
    (hk : output.length < bufLen * 2 ^ k % 2 ^ 32) :
    ∃ fuel, ∃ buf : Block, kvlogLoop floating strings malloc message l fuel round bufLen =
      some [.text buf] ∧ buf.Holds output := by
  induction k generalizing round bufLen with
  | zero =>
    have hfits : output.length < bufLen := by
      rw [Nat.pow_zero, Nat.mul_one] at hk
      exact Nat.lt_of_lt_of_le hk (Nat.mod_le _ _)
    exact ⟨1, kvlogLoop_fits hmalloc houtput hlength 0 round hfits⟩
  | succ k ih =>
    by_cases hfits : output.length < bufLen
    · exact ⟨1, kvlogLoop_fits hmalloc houtput hlength 0 round hfits⟩
    · have hnext : output.length < bufLen * 2 % 2 ^ 32 * 2 ^ k % 2 ^ 32 := by
        rw [Nat.mod_mul_mod, Nat.mul_assoc, ← Nat.pow_succ']
        exact hk
      obtain ⟨fuel, buf, hloop, hholds⟩ := ih (round + 1) hnext
      have hresult : (output.length : ℤ).bmod (2 ^ 32) = output.length :=
        Int.bmod_eq_of_le (by omega) (by omega)
      refine ⟨fuel + 1, buf, ?_, hholds⟩
      rw [kvlogLoop_grows hmalloc houtput fuel round bufLen (by rw [hresult]; omega), hloop]

/-- What is known when the loop has ended. -/
theorem kvlogLoop_ended (hmalloc : ∀ round size, (malloc round size).isSome = true)
    {fuel round bufLen : ℕ} {calls : List Message} (hbuf : bufLen < 2 ^ 32)
    (h : kvlogLoop floating strings malloc message l fuel round bufLen = some calls) :
    bufLen ≠ 0 ∧ ∃ output, formatted floating strings message l = some (true, output) ∧
      0 ≤ (output.length : ℤ).bmod (2 ^ 32) ∧
      ∃ buf : Block, calls = [.text buf] ∧ buf.size < 2 ^ 32 := by
  induction fuel generalizing round bufLen with
  | zero => cases h
  | succ fuel ih =>
    obtain ⟨memory, hmemory⟩ := Option.isSome_iff_exists.mp (hmalloc round bufLen)
    obtain ⟨hnone, hsome⟩ := vsnprintfWith_formatted floating strings
      memory bufLen message l
    cases houtput : formatted floating strings message l with
    | none =>
      rw [kvlogLoop, hmemory] at h
      dsimp only at h
      rw [hnone houtput] at h
      cases h
    | some result =>
      obtain ⟨known, output⟩ := result
      by_cases hfits : known = true ∧ 0 ≤ (output.length : ℤ).bmod (2 ^ 32) ∧
          (output.length : ℤ).bmod (2 ^ 32) < bufLen
      · obtain ⟨rfl, hresult, hless⟩ := hfits
        obtain ⟨content, hprinted, -⟩ := hsome true output houtput
        rw [kvlogLoop, hmemory] at h
        dsimp only at h
        rw [hprinted, if_pos rfl] at h
        dsimp only at h
        rw [if_pos (by omega)] at h
        cases h
        exact ⟨by omega, output, rfl, hresult, _, rfl, hbuf⟩
      · rw [kvlogLoop_grows hmalloc houtput fuel round bufLen hfits] at h
        obtain ⟨hnonzero, hrest⟩ := ih (Nat.mod_lt _ (by decide)) h
        rw [houtput] at hrest
        refine ⟨?_, hrest⟩
        intro hzero
        apply hnonzero
        rw [hzero]
        rfl

end Loop

/-- `kvlog` ends, with the whole text in the log, exactly when the length of the format is no
multiple of 2^31, all its conversions are known and come to an end, and the text is shorter
than 2^31. -/
theorem kvlog_ends_iff (floating : Floating) (strings : BitVec 64 → List UInt8)
    (malloc : ℕ → ℕ → Option Memory) (hmalloc : ∀ round size, (malloc round size).isSome = true)
    (message : List UInt8) (l : VaList) :
    (∃ fuel calls, kvlog floating strings malloc fuel message l = some calls ∧
      calls.length ≤ 1 ∧ ∀ call ∈ calls, ∃ (buf : Block) (output : List UInt8),
        call = .text buf ∧ formatted floating strings message l = some (true, output) ∧
          buf.Holds output) ↔
    message.length % 2 ^ 31 ≠ 0 ∧ ∃ output,
      formatted floating strings message l = some (true, output) ∧ output.length < 2 ^ 31 := by
  constructor
  · rintro ⟨fuel, calls, hkvlog, -, hcalls⟩
    unfold kvlog at hkvlog
    obtain ⟨hnonzero, output, houtput, hresult, buf, hsingle, hsize⟩ :=
      kvlogLoop_ended hmalloc (Nat.mod_lt _ (by decide)) hkvlog
    have hmem : Message.text buf ∈ calls := by
      rw [hsingle]
      exact List.mem_singleton_self _
    obtain ⟨buf', output', hbuf, houtput', hholds⟩ := hcalls _ hmem
    obtain rfl : buf = buf' := Message.text.inj hbuf
    have hsame : output' = output := by
      rw [houtput] at houtput'
      exact (Prod.mk.inj (Option.some.inj houtput')).2.symm
    have hlength := hholds.1
    rw [hsame] at hlength
    refine ⟨by omega, output, houtput, ?_⟩
    rw [Int.bmod_def] at hresult
    omega
  · rintro ⟨hlength, output, houtput, hsmall⟩
    obtain ⟨k, hk⟩ := doubled_length hlength
    have hstart : output.length < message.length % 2 ^ 32 * 2 % 2 ^ 32 * 2 ^ k % 2 ^ 32 := by
      rw [hk]
      exact hsmall
    obtain ⟨fuel, buf, hloop, hholds⟩ := kvlogLoop_ends hmalloc houtput hsmall k 0 hstart
    refine ⟨fuel, [.text buf], hloop, Nat.le_refl 1, ?_⟩
    intro call hcall
    rw [List.mem_singleton.mp hcall]
    exact ⟨buf, output, rfl, houtput, hholds⟩

/-- A text that is longer than twice its format. -/
theorem kvlog_ends_iff_longer :
    ∃ fuel calls, kvlog (fun _ _ => none) (fun _ => "status".toList.map Char.toUInt8)
        (fun _ _ => some fun _ => 255) fuel ("%s".toList.map Char.toUInt8) ⟨fun _ => 1, 0⟩ =
          some calls ∧
      calls.length ≤ 1 ∧ ∀ call ∈ calls, ∃ (buf : Block) (output : List UInt8),
        call = .text buf ∧
          formatted (fun _ _ => none) (fun _ => "status".toList.map Char.toUInt8)
            ("%s".toList.map Char.toUInt8) ⟨fun _ => 1, 0⟩ = some (true, output) ∧
          buf.Holds output := by
  apply (kvlog_ends_iff (fun _ _ => none) (fun _ => "status".toList.map Char.toUInt8)
    (fun _ _ => some fun _ => 255) (fun _ _ => rfl) ("%s".toList.map Char.toUInt8)
    ⟨fun _ => 1, 0⟩).mpr
  exact ⟨by decide, "status".toList.map Char.toUInt8, by decide +kernel, by decide⟩

/-- The empty message is formatted for ever. -/
theorem kvlog_empty_never_ends :
    ¬∃ fuel calls, kvlog (fun _ _ => none) (fun _ => []) (fun _ _ => some fun _ => 0) fuel []
      ⟨fun _ => 0, 0⟩ = some calls := by
  rintro ⟨fuel, calls, h⟩
  apply (kvlogLoop_ended (fun _ _ => rfl) (by decide) h).1
  rfl

end Heartix.Printf
