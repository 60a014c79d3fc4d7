import Heartix.Sound.LoginSound

/-!
The program that plays the login sound. It offers the pipe of the audio driver what is
left of the data until nothing is left; a call that is refused is made again. How much of
an offer the pipe takes is its own affair, and the sound is not changed by it.
-/

namespace Heartix.Sound

open Chunks

/-- The offset into the data, and what the pipe has taken. -/
structure Streaming where
  offset : ℕ
  played : List UInt8

/-- `g_write` of so many bytes: the pipe refuses, or takes what it is willing to. The
result is an `int32_t`. -/
def g_write (willing : ℤ) (bytes : ℕ) : ℤ :=
  if willing ≤ 0 then willing else min (min willing (2 ^ 31 - 1)) bytes

/-- A round of the loop in `main`, if there is one. -/
def streamRound (data : List UInt8) (willing : ℤ) (s : Streaming) : Streaming :=
  if s.offset < data.length then
    let wrote := g_write willing (data.length - s.offset)
    if wrote ≤ 0 then s
    else
      { offset := s.offset + wrote.toNat
        played := s.played ++ (data.drop s.offset).take wrote.toNat }
  else s

/-- The loop after so many calls of `g_write`. -/
def streamLoop (data : List UInt8) (pipe : ℕ → ℤ) : ℕ → Streaming
  | 0 => ⟨0, []⟩
  | calls + 1 => streamRound data (pipe calls) (streamLoop data pipe calls)

/-- `main` after so many calls of `g_write`: what it has returned, if it has, and what
the pipe has taken. -/
def startupsound (split : ℕ → ℕ) (AC97_DEFAULT_SAMPLE_RATE : ℕ) (channel : Bool)
    (file : Option (List UInt8)) (pipe : ℕ → ℤ) (calls : ℕ) : Option ℤ × List UInt8 :=
  if channel = false then (some (-1), [])
  else
    match loadLoginSound split AC97_DEFAULT_SAMPLE_RATE file [] with
    | (false, _) => (some (-1), [])
    | (true, pcmData) =>
        let s := streamLoop pcmData pipe calls
        (if s.offset < pcmData.length then none else some 0, s.played)

/-- How much the pipe has been willing to take in so many calls. -/
def willingness (pipe : ℕ → ℤ) (calls : ℕ) : ℕ :=
  ((List.range calls).map fun call => (min (pipe call) (2 ^ 31 - 1)).toNat).sum

section Loop

variable {data : List UInt8} {pipe : ℕ → ℤ}

theorem willingness_succ (pipe : ℕ → ℤ) (calls : ℕ) :
    willingness pipe (calls + 1) =
      willingness pipe calls + (min (pipe calls) (2 ^ 31 - 1)).toNat := by
  unfold willingness
  rw [List.range_succ, List.map_append, List.sum_append, List.map_singleton, List.sum_singleton]

/-- What a call of `g_write` adds. -/
theorem toNat_g_write (willing : ℤ) (bytes : ℕ) :
    (g_write willing bytes).toNat = min (min willing (2 ^ 31 - 1)).toNat bytes := by
  unfold g_write
  split
  · omega
  · omega

/-- Step lemma: a round plays what comes next in the data. -/
theorem streamRound_eq (willing : ℤ) {taken : ℕ} :
    streamRound data willing ⟨min taken data.length, data.take taken⟩ =
      ⟨min (taken + (min willing (2 ^ 31 - 1)).toNat) data.length,
        data.take (taken + (min willing (2 ^ 31 - 1)).toNat)⟩ := by
  unfold streamRound
  dsimp only
  by_cases hleft : min taken data.length < data.length
  · have htaken : min taken data.length = taken := by omega
    have hwrote := toNat_g_write willing (data.length - taken)
    rw [if_pos hleft, htaken]
    by_cases hrefused : g_write willing (data.length - taken) ≤ 0
    · have hzero : (min willing (2 ^ 31 - 1)).toNat = 0 := by omega
      rw [if_pos hrefused, hzero, Nat.add_zero, htaken]
    · rw [if_neg hrefused, hwrote, List.take_add]
      congr 1
      · omega
      · rw [← List.length_drop, ← List.take_take, List.take_length]
  · rw [if_neg hleft, List.take_of_length_le (by omega), List.take_of_length_le (by omega)]
    congr 1
    omega

/-- Run lemma: the pipe has taken as much of the data as it was willing to. -/
theorem streamLoop_eq (data : List UInt8) (pipe : ℕ → ℤ) (calls : ℕ) :
    streamLoop data pipe calls =
      ⟨min (willingness pipe calls) data.length, data.take (willingness pipe calls)⟩ := by
  induction calls with
  | zero => rw [streamLoop, willingness, List.range_zero, List.map_nil, List.sum_nil,
      Nat.zero_min, List.take_zero]
  | succ calls ih => rw [streamLoop, ih, streamRound_eq, willingness_succ]

end Loop

section Loading

variable {rate : ℕ}

theorem loads_wavFile (split : ℕ → ℕ) (w : WavFile rate) (data : List UInt8) :
    loadLoginSound split rate (some w.bytes) data = (true, w.data.body) := by
  have hwave : (w.bytes.drop 8).take 4 = WAVE := by
    rw [w.drop_bytes]
    exact List.take_left' rfl
  rw [loadLoginSound_eq, if_pos ⟨w.length_bytes, w.take_bytes, hwave⟩, w.chunks_bytes,
    selected_append w.passed w.id_data]

theorem loads_nothing (split : ℕ → ℕ) {file : Option (List UInt8)}
    (h : ∀ w : WavFile rate, file ≠ some w.bytes) (data : List UInt8) :
    loadLoginSound split rate file data = (false, data) := by
  cases file with
  | none => rfl
  | some content =>
    rw [loadLoginSound_eq]
    split
    · next hheader =>
      obtain ⟨hlen, hriff, hwave⟩ := hheader
      cases hselected : selected rate false (chunksOf (content.drop 12)) with
      | none => rfl
      | some pcm =>
        obtain ⟨w, hbytes, _⟩ := exists_wavFile hriff hlen hwave hselected
        exact absurd (congrArg some hbytes.symm) (h w)
    · rfl

end Loading

/-- Without a driver, or without a file that can be played, the program fails and the pipe
gets nothing. Else, however the file is delivered and the pipe takes it, the pipe has
taken the beginning of the sound, as far as it was willing to, and the program has
returned exactly if that is all of it. -/
theorem startupsound_plays (split : ℕ → ℕ) (AC97_DEFAULT_SAMPLE_RATE : ℕ) (channel : Bool)
    (file : Option (List UInt8)) (pipe : ℕ → ℤ) (calls : ℕ) :
    (∀ w : WavFile AC97_DEFAULT_SAMPLE_RATE, channel = true → file = some w.bytes →
      startupsound split AC97_DEFAULT_SAMPLE_RATE channel file pipe calls =
        (if w.data.body.length ≤ willingness pipe calls then some 0 else none,
          w.data.body.take (willingness pipe calls))) ∧
    ((channel = false ∨ ∀ w : WavFile AC97_DEFAULT_SAMPLE_RATE, file ≠ some w.bytes) →
      startupsound split AC97_DEFAULT_SAMPLE_RATE channel file pipe calls = (some (-1), [])) := by
  unfold startupsound
  constructor
  · rintro w rfl rfl
    rw [loads_wavFile, if_neg (by decide)]
    dsimp only
    rw [streamLoop_eq]
    by_cases hall : w.data.body.length ≤ willingness pipe calls
    · rw [if_pos hall, if_neg (by dsimp only; omega)]
    · rw [if_neg hall, if_pos (by dsimp only; omega)]
  · intro h
    by_cases hchannel : channel = false
    · rw [if_pos hchannel]
    · rw [if_neg hchannel, loads_nothing split (h.resolve_left hchannel)]

end Heartix.Sound
