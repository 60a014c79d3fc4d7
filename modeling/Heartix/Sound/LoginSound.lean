import Heartix.Lib.Chunks
import Heartix.Lib.Deliveries
import Heartix.Strings.Characters

/-!
How the login sound is read from its WAV file. The calls of `g_read` deliver
what they like, as long as it is something before the end of the file; that they
cannot be told apart in the result is what `Takes` says of each part of the
program. The chunk loop then comes down to a walk over the chunks behind the
header. Memory for the data chunk is taken to be there.
-/

namespace Heartix.Sound

open Chunks Deliveries Heartix.Strings

abbrev Reader := Source UInt8

def RIFF : List UInt8 := [82, 73, 70, 70]
def WAVE : List UInt8 := [87, 65, 86, 69]
def fmtId : List UInt8 := [102, 109, 116, 32]
def dataId : List UInt8 := [100, 97, 116, 97]

/-- The fields of `fmt_chunk`, which are stored in the byte order of the machine. -/
structure FmtChunk where
  audioFormat : ℕ
  numChannels : ℕ
  sampleRate : ℕ
  byteRate : ℕ
  blockAlign : ℕ
  bitsPerSample : ℕ

def FmtChunk.size : ℕ := 16

def field (memory : List UInt8) (offset size : ℕ) : ℕ :=
  LittleEndian.value ((memory.drop offset).take size)

def FmtChunk.load (memory : List UInt8) : FmtChunk where
  audioFormat := field memory 0 2
  numChannels := field memory 2 2
  sampleRate := field memory 4 4
  byteRate := field memory 8 4
  blockAlign := field memory 12 2
  bitsPerSample := field memory 14 2

section Program

variable (split : ℕ → ℕ)

/-- `g_read`. The number of bytes it returns is an `int32_t`. -/
def g_read (fd : Reader) (bytes : ℕ) : List UInt8 × Reader :=
  deliver (fun call => min (split call) (2 ^ 31 - 2)) fd bytes

/-- `readFully`, with what lies in the buffer up to the offset. -/
def readFully (fd : Reader) (buffer : List UInt8) (bytes : ℕ) :
    Option (List UInt8 × Reader) :=
  if _ : buffer.length < bytes then
    let read := g_read split fd (bytes - buffer.length)
    if _ : read.1 = [] then none
    else readFully read.2 (buffer ++ read.1) bytes
  else some (buffer, fd)
termination_by bytes - buffer.length
decreasing_by
  have hpos : 0 < (g_read split fd (bytes - buffer.length)).1.length :=
    List.length_pos_of_ne_nil ‹_›
  rw [List.length_append]
  omega

/-- How much `skipBytes` asks for: what is left, if it fits into 256 bytes. -/
def chunkLength (remaining : ℕ) : ℕ := if remaining < 256 then remaining else 256

def skipBytes (fd : Reader) (remaining : ℕ) : Option (Unit × Reader) :=
  if _ : 0 < remaining then
    let read := g_read split fd (chunkLength remaining)
    if _ : read.1 = [] then none
    else skipBytes read.2 (remaining - read.1.length)
  else some ((), fd)
termination_by remaining
decreasing_by
  have hpos := List.length_pos_of_ne_nil ‹_›
  exact Nat.sub_lt ‹_› hpos

def skipPadding (fd : Reader) (chunkSize : ℕ) : Option (Unit × Reader) :=
  if chunkSize &&& 1 ≠ 0 then (readFully split fd [] 1).map fun read => ((), read.2)
  else some ((), fd)

variable {split}

theorem readFully_eq (fd : Reader) (buffer : List UInt8) (bytes : ℕ)
    (h : buffer.length ≤ bytes) :
    Takes fd (bytes - buffer.length) (buffer ++ fd.rest.take (bytes - buffer.length))
      (readFully split fd buffer bytes) := by
  induction fd, buffer using readFully.induct split bytes with
  | case1 fd buffer hlt read hnil =>
    have hrest : fd.rest = [] := (deliver_eq_nil_iff (by omega)).mp hnil
    rw [readFully, dif_pos hlt, dif_pos hnil]
    refine ⟨fun hlen => ?_, fun _ => rfl⟩
    rw [hrest, List.length_nil] at hlen
    omega
  | case2 fd buffer hlt read hne ih =>
    have hle : read.1.length ≤ bytes - buffer.length := length_deliver_le
    have hpieces : read.1 ++ read.2.rest = fd.rest := deliver_append
    have hlen : (buffer ++ read.1).length ≤ bytes := by
      rw [List.length_append]
      omega
    have htakes := (ih hlen).of_delivered hpieces
    have hcount : read.1.length + (bytes - (buffer ++ read.1).length) = bytes - buffer.length := by
      rw [List.length_append]
      omega
    have hvalue : buffer ++ fd.rest.take (bytes - buffer.length) =
        buffer ++ read.1 ++ read.2.rest.take (bytes - (buffer ++ read.1).length) := by
      rw [← hcount, ← hpieces, List.take_length_add_append, List.append_assoc]
    rw [hcount, ← hvalue] at htakes
    rw [readFully, dif_pos hlt, dif_neg hne]
    exact htakes
  | case3 fd buffer hge =>
    have hzero : bytes - buffer.length = 0 := by omega
    rw [readFully, dif_neg hge, hzero, List.take_zero, List.append_nil]
    exact Takes.nothing fd buffer

theorem readFully_takes (split : ℕ → ℕ) (fd : Reader) (bytes : ℕ) :
    Takes fd bytes (fd.rest.take bytes) (readFully split fd [] bytes) :=
  readFully_eq fd [] bytes (Nat.zero_le bytes)

theorem skipBytes_takes (split : ℕ → ℕ) (fd : Reader) (remaining : ℕ) :
    Takes fd remaining () (skipBytes split fd remaining) := by
  induction fd, remaining using skipBytes.induct split with
  | case1 fd remaining hpos read hnil =>
    have hchunk : 0 < chunkLength remaining := by
      unfold chunkLength
      split <;> omega
    have hrest : fd.rest = [] := (deliver_eq_nil_iff hchunk).mp hnil
    rw [skipBytes, dif_pos hpos, dif_pos hnil]
    refine ⟨fun hlen => ?_, fun _ => rfl⟩
    rw [hrest, List.length_nil] at hlen
    omega
  | case2 fd remaining hpos read hne ih =>
    have hchunk : chunkLength remaining ≤ remaining := by
      unfold chunkLength
      split <;> omega
    have hle : read.1.length ≤ chunkLength remaining := length_deliver_le
    have hpieces : read.1 ++ read.2.rest = fd.rest := deliver_append
    have htakes := ih.of_delivered hpieces
    rw [Nat.add_sub_cancel' (hle.trans hchunk)] at htakes
    rw [skipBytes, dif_pos hpos, dif_neg hne]
    exact htakes
  | case3 fd remaining hzero =>
    obtain rfl : remaining = 0 := by omega
    rw [skipBytes, dif_neg hzero]
    exact Takes.nothing fd ()

theorem skipPadding_takes (split : ℕ → ℕ) (fd : Reader) (chunkSize : ℕ) :
    Takes fd (chunkSize % 2) () (skipPadding split fd chunkSize) := by
  unfold skipPadding
  rw [Nat.and_one_is_mod]
  split
  · have hodd : chunkSize % 2 = 1 := by omega
    rw [hodd]
    exact (readFully_takes split fd 1).map fun _ => ()
  · have heven : chunkSize % 2 = 0 := by omega
    rw [heven]
    exact Takes.nothing fd ()

variable (split)

/-- The body of a `fmt ` chunk, as far as it is looked at. -/
def readFmt (fd : Reader) (size : ℕ) : Option (FmtChunk × Reader) :=
  if size < FmtChunk.size then none
  else
    (readFully split fd [] FmtChunk.size).bind fun fmt =>
      (if size > FmtChunk.size then skipBytes split fmt.2 (size - FmtChunk.size)
        else some ((), fmt.2)).bind fun skipped =>
        (skipPadding split skipped.2 size).map fun padding => (FmtChunk.load fmt.1, padding.2)

/-- The body of a `data` chunk. What a read that fails leaves in the vector is
dropped with it. -/
def readData (fd : Reader) (size : ℕ) : Option (List UInt8 × Reader) :=
  (readFully split fd [] size).bind fun pcm =>
    (skipPadding split pcm.2 size).map fun padding => (pcm.1, padding.2)

/-- The body of any other chunk. -/
def skipChunk (fd : Reader) (size : ℕ) : Option (Unit × Reader) :=
  (skipBytes split fd size).bind fun skipped =>
    (skipPadding split skipped.2 size).map fun padding => ((), padding.2)

variable {split}

theorem readData_takes (split : ℕ → ℕ) (fd : Reader) (size : ℕ) :
    Takes fd (size + size % 2) (fd.rest.take size) (readData split fd size) := by
  refine (readFully_takes split fd size).bind (f := fun pcm fd =>
    (skipPadding split fd size).map fun padding => (pcm, padding.2)) fun calls => ?_
  exact (skipPadding_takes split _ size).map fun _ => fd.rest.take size

theorem skipChunk_takes (split : ℕ → ℕ) (fd : Reader) (size : ℕ) :
    Takes fd (size + size % 2) () (skipChunk split fd size) := by
  refine (skipBytes_takes split fd size).bind (f := fun _ fd =>
    (skipPadding split fd size).map fun padding => ((), padding.2)) fun calls => ?_
  exact (skipPadding_takes split _ size).map fun _ => ()

theorem readFmt_takes (split : ℕ → ℕ) (fd : Reader) {size : ℕ} (h : FmtChunk.size ≤ size) :
    Takes fd (size + size % 2) (FmtChunk.load (fd.rest.take FmtChunk.size))
      (readFmt split fd size) := by
  have hskip (fd : Reader) : Takes fd (size - FmtChunk.size) ()
      (if size > FmtChunk.size then skipBytes split fd (size - FmtChunk.size)
        else some ((), fd)) := by
    split
    · exact skipBytes_takes split fd _
    · rw [Nat.sub_eq_zero_of_le (by omega)]
      exact Takes.nothing fd ()
  have hsum : size + size % 2 = FmtChunk.size + (size - FmtChunk.size + size % 2) := by omega
  rw [readFmt, if_neg (by omega), hsum]
  refine (readFully_takes split fd FmtChunk.size).bind (f := fun fmt fd =>
    (if size > FmtChunk.size then skipBytes split fd (size - FmtChunk.size)
      else some ((), fd)).bind fun skipped =>
      (skipPadding split skipped.2 size).map fun padding => (FmtChunk.load fmt, padding.2))
    fun calls => ?_
  refine (hskip _).bind (f := fun _ fd' => (skipPadding split fd' size).map fun padding =>
    (FmtChunk.load (fd.rest.take FmtChunk.size), padding.2)) fun calls => ?_
  exact (skipPadding_takes split _ size).map fun _ => FmtChunk.load (fd.rest.take FmtChunk.size)

theorem readFmt_eq_none (fd : Reader) {size : ℕ} (h : size < FmtChunk.size) :
    readFmt split fd size = none := if_pos h

/-- A round of the chunk loop takes the header at least. -/
theorem lt_of_readFmt {fd fd' fd'' : Reader} {chunk : List UInt8} {size : ℕ} {fmt : FmtChunk}
    (hheader : readFully split fd [] 8 = some (chunk, fd'))
    (hfmt : readFmt split fd' size = some (fmt, fd'')) : fd''.rest.length < fd.rest.length := by
  have hlen := (readFully_takes split fd 8).length_rest hheader
  by_cases hsize : size < FmtChunk.size
  · rw [readFmt_eq_none fd' hsize] at hfmt
    cases hfmt
  · have hlen' := (readFmt_takes split fd' (by omega)).length_rest hfmt
    simp only at hlen hlen'
    omega

theorem lt_of_skipChunk {fd fd' fd'' : Reader} {chunk : List UInt8} {size : ℕ} {u : Unit}
    (hheader : readFully split fd [] 8 = some (chunk, fd'))
    (hskip : skipChunk split fd' size = some (u, fd'')) :
    fd''.rest.length < fd.rest.length := by
  have hlen := (readFully_takes split fd 8).length_rest hheader
  have hlen' := (skipChunk_takes split fd' size).length_rest hskip
  simp only at hlen hlen'
  omega

/-- The local variables of `loadLoginSound` after the chunk loop. -/
structure Parsed where
  haveFmt : Bool
  haveData : Bool
  pcm : List UInt8

variable (split) (AC97_DEFAULT_SAMPLE_RATE : ℕ)

/-- The chunk loop. Where it ends with a `break`, the variables are as they are. -/
def chunkLoop (fd : Reader) (parsed : Parsed) : Parsed :=
  match _ : readFully split fd [] 8 with
  | none => parsed
  | some (chunk, fd) =>
      if strncmp (chunk.take 4) fmtId 4 = some 0 then
        match _ : readFmt split fd (field chunk 4 4) with
        | none => parsed
        | some (fmt, fd) =>
            if fmt.audioFormat ≠ 1 ∨ fmt.numChannels ≠ 2 ∨ fmt.bitsPerSample ≠ 16 ∨
                fmt.sampleRate ≠ AC97_DEFAULT_SAMPLE_RATE then
              { parsed with haveFmt := true }
            else chunkLoop fd { parsed with haveFmt := true }
      else if strncmp (chunk.take 4) dataId 4 = some 0 then
        match readData split fd (field chunk 4 4) with
        | none => parsed
        | some (pcm, _) => { parsed with haveData := true, pcm := pcm }
      else
        match _ : skipChunk split fd (field chunk 4 4) with
        | none => parsed
        | some (_, fd) => chunkLoop fd parsed
termination_by fd.rest.length
decreasing_by
  · exact lt_of_readFmt ‹readFully split _ [] 8 = _› ‹readFmt split _ _ = _›
  · exact lt_of_skipChunk ‹readFully split _ [] 8 = _› ‹skipChunk split _ _ = _›

/-- `loadLoginSound` for a file with the given content, if there is one. The
vector that the caller passes has the contents `data`. -/
def loadLoginSound (file : Option (List UInt8)) (data : List UInt8) : Bool × List UInt8 :=
  match file with
  | none => (false, data)
  | some content =>
      match readFully split { rest := content, calls := 0 } [] 12 with
      | none => (false, data)
      | some (riff, fd) =>
          if strncmp (riff.take 4) RIFF 4 ≠ some 0 ∨
              strncmp ((riff.drop 8).take 4) WAVE 4 ≠ some 0 then (false, data)
          else
            let parsed := chunkLoop split AC97_DEFAULT_SAMPLE_RATE fd
              { haveFmt := false, haveData := false, pcm := [] }
            if parsed.haveFmt = false ∨ parsed.haveData = false then (false, data)
            else (true, parsed.pcm)

variable {split AC97_DEFAULT_SAMPLE_RATE}

theorem field_header (fd : Reader) : field (fd.rest.take 8) 4 4 = bodySize fd.rest := by
  rw [field, bodySize, List.drop_take, List.take_take]
  rfl

/-- What a `fmt ` chunk has to say. -/
def Supported (AC97_DEFAULT_SAMPLE_RATE : ℕ) (body : List UInt8) : Prop :=
  FmtChunk.size ≤ body.length ∧ (FmtChunk.load body).audioFormat = 1 ∧
    (FmtChunk.load body).numChannels = 2 ∧ (FmtChunk.load body).bitsPerSample = 16 ∧
    (FmtChunk.load body).sampleRate = AC97_DEFAULT_SAMPLE_RATE

instance (rate : ℕ) (body : List UInt8) : Decidable (Supported rate body) := by
  unfold Supported
  infer_instance

/-- The outcome of the walk over the chunks: the data that is accepted. -/
def selected (AC97_DEFAULT_SAMPLE_RATE : ℕ) (haveFmt : Bool) : List Chunk → Option (List UInt8)
  | [] => none
  | chunk :: chunks =>
      if chunk.id = fmtId then
        if Supported AC97_DEFAULT_SAMPLE_RATE chunk.body then
          selected AC97_DEFAULT_SAMPLE_RATE true chunks
        else none
      else if chunk.id = dataId then
        if haveFmt then some chunk.body else none
      else selected AC97_DEFAULT_SAMPLE_RATE haveFmt chunks

def Parsed.accepted (parsed : Parsed) : Option (List UInt8) :=
  if parsed.haveFmt = false ∨ parsed.haveData = false then none else some parsed.pcm

theorem FmtChunk.load_take (memory : List UInt8) :
    FmtChunk.load (memory.take FmtChunk.size) = FmtChunk.load memory := by
  simp only [FmtChunk.load, FmtChunk.size, field, List.drop_take, List.take_take]
  rfl

/-- Every branch of the loop fails if what lies behind the header is too short. -/
theorem branches_of_short (split : ℕ → ℕ) (fd : Reader) {size : ℕ}
    (h : fd.rest.length < size + size % 2) :
    readFmt split fd size = none ∧ readData split fd size = none ∧
      skipChunk split fd size = none := by
  refine ⟨?_, (readData_takes split fd size).2 h, (skipChunk_takes split fd size).2 h⟩
  by_cases hsize : size < FmtChunk.size
  · exact readFmt_eq_none fd hsize
  · exact (readFmt_takes split fd (by omega)).2 h

theorem chunkLoop_stop {fd : Reader} (h : readFully split fd [] 8 = none) (parsed : Parsed) :
    chunkLoop split AC97_DEFAULT_SAMPLE_RATE fd parsed = parsed := by
  rw [chunkLoop]
  split
  · rfl
  · simp_all

/-- A round of the chunk loop behind the header. -/
theorem chunkLoop_round {fd fd' : Reader} {chunk : List UInt8}
    (h : readFully split fd [] 8 = some (chunk, fd')) (parsed : Parsed) :
    chunkLoop split AC97_DEFAULT_SAMPLE_RATE fd parsed =
      if strncmp (chunk.take 4) fmtId 4 = some 0 then
        match readFmt split fd' (field chunk 4 4) with
        | none => parsed
        | some (fmt, fd) =>
            if fmt.audioFormat ≠ 1 ∨ fmt.numChannels ≠ 2 ∨ fmt.bitsPerSample ≠ 16 ∨
                fmt.sampleRate ≠ AC97_DEFAULT_SAMPLE_RATE then
              { parsed with haveFmt := true }
            else chunkLoop split AC97_DEFAULT_SAMPLE_RATE fd { parsed with haveFmt := true }
      else if strncmp (chunk.take 4) dataId 4 = some 0 then
        match readData split fd' (field chunk 4 4) with
        | none => parsed
        | some (pcm, _) => { parsed with haveData := true, pcm := pcm }
      else
        match skipChunk split fd' (field chunk 4 4) with
        | none => parsed
        | some (_, fd) => chunkLoop split AC97_DEFAULT_SAMPLE_RATE fd parsed := by
  rw [chunkLoop]
  split
  · simp_all
  · rename_i chunk' fd'' h'
    obtain ⟨rfl, rfl⟩ := Prod.mk.inj (Option.some.inj (h'.symm.trans h))
    split
    · split <;> simp_all
    · split
      · rfl
      · split <;> simp_all

theorem chunkLoop_of_none {fd : Reader} (h : next fd.rest = none) (parsed : Parsed) :
    chunkLoop split AC97_DEFAULT_SAMPLE_RATE fd parsed = parsed := by
  have hlen := next_eq_none_iff.mp h
  by_cases hheader : 8 ≤ fd.rest.length
  · obtain ⟨calls, hread⟩ := (readFully_takes split fd 8).1 hheader
    have hshort : (fd.rest.drop 8).length < bodySize fd.rest + bodySize fd.rest % 2 := by
      rw [List.length_drop]
      omega
    obtain ⟨hfmt, hdata, hskip⟩ := branches_of_short split ⟨fd.rest.drop 8, calls⟩ hshort
    rw [chunkLoop_round hread, field_header, hfmt, hdata, hskip]
    simp only [ite_self]
  · exact chunkLoop_stop ((readFully_takes split fd 8).2 (by omega)) parsed

section Complete

variable {fd : Reader} {c : Chunk} {rest : List UInt8}

/-- What the header says of a chunk that is complete. -/
theorem header_of_next (split : ℕ → ℕ) (h : next fd.rest = some (c, rest)) :
    ∃ calls, readFully split fd [] 8 =
        some (fd.rest.take 8, ⟨c.body ++ (c.pad ++ rest), calls⟩) ∧
      (fd.rest.take 8).take 4 = c.id ∧ field (fd.rest.take 8) 4 4 = c.body.length := by
  have hbytes := eq_of_next h
  have hlen : 8 ≤ fd.rest.length := by
    rw [hbytes, List.length_append, c.length_bytes]
    omega
  have hheader : (c.id ++ LittleEndian.bytes 4 c.body.length).length = 8 := by
    rw [List.length_append, c.length_id, LittleEndian.length_bytes]
  have hdrop : fd.rest.drop 8 = c.body ++ (c.pad ++ rest) := by
    rw [hbytes, Chunk.bytes, ← List.append_assoc c.id, List.append_assoc, List.drop_left' hheader,
      List.append_assoc]
  have hid : (fd.rest.take 8).take 4 = c.id := by
    rw [List.take_take, hbytes, Chunk.bytes, List.append_assoc]
    exact List.take_left' c.length_id
  obtain ⟨calls, hread⟩ := (readFully_takes split fd 8).1 hlen
  rw [hdrop] at hread
  refine ⟨calls, hread, hid, ?_⟩
  rw [field_header, hbytes, bodySize_bytes]

theorem strncmp_id {id : List UInt8} (c : Chunk) (hzero : 0 ∉ id) (hlen : id.length = 4) :
    strncmp c.id id 4 = some 0 ↔ c.id = id := by
  have hword := strncmp_word hzero (c.length_id.trans hlen.symm)
  rwa [hlen] at hword

/-- What lies behind the header of a chunk is long enough for its body and its padding. -/
theorem length_body_pad (c : Chunk) (rest : List UInt8) :
    c.body.length + c.body.length % 2 ≤ (c.body ++ (c.pad ++ rest)).length := by
  rw [List.length_append, List.length_append, c.length_pad]
  omega

theorem drop_body_pad (c : Chunk) (rest : List UInt8) :
    (c.body ++ (c.pad ++ rest)).drop (c.body.length + c.body.length % 2) = rest := by
  rw [List.drop_length_add_append, ← c.length_pad, List.drop_left]

variable (split AC97_DEFAULT_SAMPLE_RATE) in
theorem chunkLoop_fmt (h : next fd.rest = some (c, rest)) (hid : c.id = fmtId)
    (parsed : Parsed) :
    if Supported AC97_DEFAULT_SAMPLE_RATE c.body then
      ∃ calls, chunkLoop split AC97_DEFAULT_SAMPLE_RATE fd parsed =
        chunkLoop split AC97_DEFAULT_SAMPLE_RATE ⟨rest, calls⟩ { parsed with haveFmt := true }
    else
      ∃ haveFmt, chunkLoop split AC97_DEFAULT_SAMPLE_RATE fd parsed =
        { parsed with haveFmt := haveFmt } := by
  obtain ⟨calls, hread, hchunk, hsize⟩ := header_of_next split h
  rw [chunkLoop_round hread, hchunk, hsize,
    if_pos ((strncmp_id c (by decide) rfl).mpr hid)]
  by_cases hfmt : FmtChunk.size ≤ c.body.length
  · obtain ⟨calls', hload⟩ := (readFmt_takes split
      ⟨c.body ++ (c.pad ++ rest), calls⟩ hfmt).1 (length_body_pad c rest)
    have htake : (c.body ++ (c.pad ++ rest)).take FmtChunk.size = c.body.take FmtChunk.size :=
      List.take_append_of_le_length hfmt
    simp only [htake, FmtChunk.load_take, drop_body_pad] at hload
    have hbad : ((FmtChunk.load c.body).audioFormat ≠ 1 ∨ (FmtChunk.load c.body).numChannels ≠ 2 ∨
        (FmtChunk.load c.body).bitsPerSample ≠ 16 ∨
        (FmtChunk.load c.body).sampleRate ≠ AC97_DEFAULT_SAMPLE_RATE) ↔
          ¬ Supported AC97_DEFAULT_SAMPLE_RATE c.body := by
      simp only [Supported, hfmt, true_and, not_and_or, ne_eq]
    rw [hload]
    simp only [hbad]
    by_cases hs : Supported AC97_DEFAULT_SAMPLE_RATE c.body
    · rw [if_pos hs, if_neg (not_not.mpr hs)]
      exact ⟨calls', rfl⟩
    · rw [if_neg hs, if_pos hs]
      exact ⟨true, rfl⟩
  · have hunsupported : ¬ Supported AC97_DEFAULT_SAMPLE_RATE c.body := fun hs => hfmt hs.1
    rw [readFmt_eq_none _ (by omega), if_neg hunsupported]
    exact ⟨parsed.haveFmt, rfl⟩

theorem chunkLoop_data (h : next fd.rest = some (c, rest)) (hid : c.id = dataId)
    (parsed : Parsed) : chunkLoop split AC97_DEFAULT_SAMPLE_RATE fd parsed =
      { parsed with haveData := true, pcm := c.body } := by
  obtain ⟨calls, hread, hchunk, hsize⟩ := header_of_next split h
  have hnot : ¬ strncmp c.id fmtId 4 = some 0 := by
    rw [strncmp_id c (by decide) rfl, hid]
    decide
  obtain ⟨calls', hload⟩ := (readData_takes split
    ⟨c.body ++ (c.pad ++ rest), calls⟩ c.body.length).1 (length_body_pad c rest)
  rw [chunkLoop_round hread, hchunk, hsize, if_neg hnot,
    if_pos ((strncmp_id c (by decide) rfl).mpr hid), hload]
  simp only [List.take_left]

variable (split AC97_DEFAULT_SAMPLE_RATE) in
theorem chunkLoop_other (h : next fd.rest = some (c, rest)) (hfmt : c.id ≠ fmtId)
    (hdata : c.id ≠ dataId) (parsed : Parsed) :
    ∃ calls, chunkLoop split AC97_DEFAULT_SAMPLE_RATE fd parsed =
      chunkLoop split AC97_DEFAULT_SAMPLE_RATE ⟨rest, calls⟩ parsed := by
  obtain ⟨calls, hread, hchunk, hsize⟩ := header_of_next split h
  obtain ⟨calls', hskip⟩ := (skipChunk_takes split
    ⟨c.body ++ (c.pad ++ rest), calls⟩ c.body.length).1 (length_body_pad c rest)
  refine ⟨calls', ?_⟩
  rw [chunkLoop_round hread, hchunk, hsize, if_neg (mt (strncmp_id c (by decide) rfl).mp hfmt),
    if_neg (mt (strncmp_id c (by decide) rfl).mp hdata), hskip]
  simp only [drop_body_pad]

end Complete

variable (split AC97_DEFAULT_SAMPLE_RATE) in
/-- The chunk loop is the walk over the chunks, however they are delivered. -/
theorem chunkLoop_accepted (fd : Reader) (parsed : Parsed) (h : parsed.haveData = false) :
    (chunkLoop split AC97_DEFAULT_SAMPLE_RATE fd parsed).accepted =
      selected AC97_DEFAULT_SAMPLE_RATE parsed.haveFmt (chunksOf fd.rest) := by
  induction hn : fd.rest.length using Nat.strongRecOn generalizing fd parsed with
  | ind n ih =>
    cases hnext : next fd.rest with
    | none =>
      rw [chunkLoop_of_none hnext, chunksOf_of_none hnext]
      exact if_pos (Or.inr h)
    | some first =>
      obtain ⟨c, rest⟩ := first
      have hlt : rest.length < n := hn ▸ length_of_next hnext
      rw [chunksOf_of_some hnext, selected]
      by_cases hfmt : c.id = fmtId
      · have hround := chunkLoop_fmt split AC97_DEFAULT_SAMPLE_RATE hnext hfmt parsed
        rw [if_pos hfmt]
        split at hround
        · obtain ⟨calls, hround⟩ := hround
          rename_i hs
          rw [if_pos hs, hround]
          exact ih rest.length hlt ⟨rest, calls⟩ { parsed with haveFmt := true } h rfl
        · obtain ⟨haveFmt, hround⟩ := hround
          rename_i hs
          rw [if_neg hs, hround]
          exact if_pos (Or.inr h)
      · rw [if_neg hfmt]
        by_cases hdata : c.id = dataId
        · rw [if_pos hdata, chunkLoop_data hnext hdata, Parsed.accepted]
          cases parsed.haveFmt <;> rfl
        · obtain ⟨calls, hround⟩ := chunkLoop_other split AC97_DEFAULT_SAMPLE_RATE hnext hfmt hdata
            parsed
          rw [if_neg hdata, hround]
          exact ih rest.length hlt ⟨rest, calls⟩ parsed h rfl

end Program

section Selected

variable {rate : ℕ} {haveFmt : Bool} {chunks : List Chunk} {pcm : List UInt8}

/-- The walk passes these chunks. -/
structure Passed (rate : ℕ) (haveFmt : Bool) (before : List Chunk) : Prop where
  first : ∀ c ∈ before, c.id ≠ dataId
  announced : haveFmt = true ∨ ∃ c ∈ before, c.id = fmtId
  supported : ∀ c ∈ before, c.id = fmtId → Supported rate c.body

theorem passed_cons_fmt {chunk : Chunk} {before : List Chunk} (hid : chunk.id = fmtId) :
    Passed rate haveFmt (chunk :: before) ↔
      Supported rate chunk.body ∧ Passed rate true before := by
  constructor
  · intro h
    exact ⟨h.supported chunk List.mem_cons_self hid,
      fun c hc => h.first c (List.mem_cons_of_mem chunk hc), Or.inl rfl,
      fun c hc => h.supported c (List.mem_cons_of_mem chunk hc)⟩
  · rintro ⟨hs, h⟩
    refine ⟨?_, Or.inr ⟨chunk, List.mem_cons_self, hid⟩, ?_⟩
    · intro c hc
      rcases List.mem_cons.mp hc with rfl | hc
      · rw [hid]
        decide
      · exact h.first c hc
    · intro c hc hcid
      rcases List.mem_cons.mp hc with rfl | hc
      · exact hs
      · exact h.supported c hc hcid

theorem passed_cons_other {chunk : Chunk} {before : List Chunk} (hfmt : chunk.id ≠ fmtId)
    (hdata : chunk.id ≠ dataId) :
    Passed rate haveFmt (chunk :: before) ↔ Passed rate haveFmt before := by
  constructor
  · intro h
    refine ⟨fun c hc => h.first c (List.mem_cons_of_mem chunk hc), ?_,
      fun c hc => h.supported c (List.mem_cons_of_mem chunk hc)⟩
    refine h.announced.imp_right ?_
    rintro ⟨c, hc, hcid⟩
    rcases List.mem_cons.mp hc with rfl | hc
    · exact absurd hcid hfmt
    · exact ⟨c, hc, hcid⟩
  · intro h
    refine ⟨?_, h.announced.imp_right fun ⟨c, hc, hcid⟩ =>
      ⟨c, List.mem_cons_of_mem chunk hc, hcid⟩, ?_⟩
    · intro c hc
      rcases List.mem_cons.mp hc with rfl | hc
      · exact hdata
      · exact h.first c hc
    · intro c hc hcid
      rcases List.mem_cons.mp hc with rfl | hc
      · exact absurd hcid hfmt
      · exact h.supported c hc hcid

theorem selected_append {before : List Chunk} (h : Passed rate haveFmt before) {data : Chunk}
    (hdata : data.id = dataId) (after : List Chunk) :
    selected rate haveFmt (before ++ data :: after) = some data.body := by
  induction before generalizing haveFmt with
  | nil =>
    have hfmt : haveFmt = true := h.announced.resolve_right (by simp)
    have hid : data.id ≠ fmtId := by
      rw [hdata]
      decide
    rw [List.nil_append, selected, if_neg hid, if_pos hdata, if_pos hfmt]
  | cons chunk before ih =>
    rw [List.cons_append, selected]
    by_cases hfmt : chunk.id = fmtId
    · obtain ⟨hs, hbefore⟩ := (passed_cons_fmt hfmt).mp h
      rw [if_pos hfmt, if_pos hs]
      exact ih hbefore
    · have hnot : chunk.id ≠ dataId := h.first chunk List.mem_cons_self
      rw [if_neg hfmt, if_neg hnot]
      exact ih ((passed_cons_other hfmt hnot).mp h)

theorem exists_of_selected (h : selected rate haveFmt chunks = some pcm) :
    ∃ before data after, chunks = before ++ data :: after ∧ data.id = dataId ∧
      data.body = pcm ∧ Passed rate haveFmt before := by
  induction chunks generalizing haveFmt with
  | nil => cases h
  | cons chunk chunks ih =>
    rw [selected] at h
    by_cases hfmt : chunk.id = fmtId
    · rw [if_pos hfmt, Option.ite_none_right_eq_some] at h
      obtain ⟨before, data, after, rfl, hdata, hpcm, hpassed⟩ := ih h.2
      exact ⟨chunk :: before, data, after, rfl, hdata, hpcm,
        (passed_cons_fmt hfmt).mpr ⟨h.1, hpassed⟩⟩
    · rw [if_neg hfmt] at h
      by_cases hdata : chunk.id = dataId
      · rw [if_pos hdata, Option.ite_none_right_eq_some, Option.some_inj] at h
        exact ⟨[], chunk, chunks, rfl, hdata, h.2, by simp, Or.inl h.1, by simp⟩
      · rw [if_neg hdata] at h
        obtain ⟨before, data, after, rfl, hid, hpcm, hpassed⟩ := ih h
        exact ⟨chunk :: before, data, after, rfl, hid, hpcm,
          (passed_cons_other hfmt hdata).mpr hpassed⟩

end Selected

/-- A file whose sound is played: behind the header come chunks among which
there is a format, each format that can be played, and then the first data. -/
structure WavFile (AC97_DEFAULT_SAMPLE_RATE : ℕ) where
  riffSize : List UInt8
  before : List Chunk
  data : Chunk
  rest : List UInt8
  length_riffSize : riffSize.length = 4
  id_data : data.id = dataId
  passed : Passed AC97_DEFAULT_SAMPLE_RATE false before

def WavFile.bytes {rate : ℕ} (w : WavFile rate) : List UInt8 :=
  RIFF ++ (w.riffSize ++ (WAVE ++ (w.before.flatMap Chunk.bytes ++ (w.data.bytes ++ w.rest))))

section WavBytes

variable {rate : ℕ} (w : WavFile rate)

theorem WavFile.take_bytes : w.bytes.take 4 = RIFF :=
  List.take_left' rfl

theorem WavFile.drop_bytes :
    w.bytes.drop 8 = WAVE ++ (w.before.flatMap Chunk.bytes ++ (w.data.bytes ++ w.rest)) := by
  have hlen : (RIFF ++ w.riffSize).length = 8 := by
    rw [List.length_append, w.length_riffSize]
    rfl
  rw [WavFile.bytes, ← List.append_assoc, List.drop_left' hlen]

theorem WavFile.chunks_bytes :
    chunksOf (w.bytes.drop 12) = w.before ++ w.data :: chunksOf w.rest := by
  have hbehind : w.bytes.drop 12 =
      w.before.flatMap Chunk.bytes ++ (w.data.bytes ++ w.rest) := by
    have hsplit : w.bytes.drop 12 = (w.bytes.drop 8).drop 4 := by rw [List.drop_drop]
    rw [hsplit, w.drop_bytes]
    exact List.drop_left' rfl
  exact chunksOf_eq_append_iff.mpr ⟨w.data.bytes ++ w.rest, hbehind, chunksOf_bytes _ _⟩

theorem WavFile.length_bytes : 12 ≤ w.bytes.length := by
  have hlen : 8 ≤ w.bytes.length := by
    by_contra hshort
    have hnil := List.drop_eq_nil_of_le (Nat.le_of_not_le hshort)
    rw [w.drop_bytes] at hnil
    cases hnil
  have hbehind := congrArg List.length w.drop_bytes
  rw [List.length_drop, List.length_append] at hbehind
  have hwave : WAVE.length = 4 := rfl
  omega

end WavBytes

theorem exists_wavFile {rate : ℕ} {content pcm : List UInt8} (hriff : content.take 4 = RIFF)
    (hlen : 12 ≤ content.length) (hwave : (content.drop 8).take 4 = WAVE)
    (h : selected rate false (chunksOf (content.drop 12)) = some pcm) :
    ∃ w : WavFile rate, w.bytes = content ∧ w.data.body = pcm := by
  obtain ⟨before, data, after, hchunks, hdata, hpcm, hpassed⟩ := exists_of_selected h
  obtain ⟨behind, hbefore, hbehind⟩ := chunksOf_eq_append_iff.mp hchunks
  have hfirst : chunksOf behind = [data] ++ after := hbehind
  obtain ⟨rest, hrest, _⟩ := chunksOf_eq_append_iff.mp hfirst
  have hsize : ((content.drop 4).take 4).length = 4 := by
    rw [List.length_take, List.length_drop]
    omega
  refine ⟨⟨(content.drop 4).take 4, before, data, rest, hsize, hdata, hpassed⟩, ?_, hpcm⟩
  have htail : data.bytes ++ rest = behind := by
    rw [hrest, List.flatMap_singleton]
  have hfour : content.drop 8 = (content.drop 4).drop 4 := by rw [List.drop_drop]
  have htwelve : content.drop 12 = (content.drop 8).drop 4 := by rw [List.drop_drop]
  simp only [WavFile.bytes]
  rw [htail, ← hbefore, ← hriff, ← hwave, htwelve, List.take_append_drop, hfour,
    List.take_append_drop, List.take_append_drop]

/-- The result depends on the content of the file alone. -/
theorem loadLoginSound_eq (split : ℕ → ℕ) (rate : ℕ) (content data : List UInt8) :
    loadLoginSound split rate (some content) data =
      if 12 ≤ content.length ∧ content.take 4 = RIFF ∧ (content.drop 8).take 4 = WAVE then
        match selected rate false (chunksOf (content.drop 12)) with
        | none => (false, data)
        | some pcm => (true, pcm)
      else (false, data) := by
  by_cases hlen : 12 ≤ content.length
  · obtain ⟨calls, hread⟩ := (readFully_takes split { rest := content, calls := 0 } 12).1 hlen
    have hfirst : (content.take 12).take 4 = content.take 4 := by
      rw [List.take_take]
      rfl
    have hsecond : ((content.take 12).drop 8).take 4 = (content.drop 8).take 4 := by
      rw [List.drop_take, List.take_take]
      rfl
    have hriff : strncmp (content.take 4) RIFF 4 = some 0 ↔ content.take 4 = RIFF := by
      refine strncmp_word (s := RIFF) (by decide) ?_
      rw [List.length_take]
      exact Nat.min_eq_left (by omega)
    have hwave : strncmp ((content.drop 8).take 4) WAVE 4 = some 0 ↔
        (content.drop 8).take 4 = WAVE := by
      refine strncmp_word (s := WAVE) (by decide) ?_
      rw [List.length_take, List.length_drop]
      exact Nat.min_eq_left (by omega)
    have hloop := chunkLoop_accepted split rate ⟨content.drop 12, calls⟩
      { haveFmt := false, haveData := false, pcm := [] } rfl
    simp only [loadLoginSound, hread, hfirst, hsecond, ne_eq, hriff, hwave, hlen, true_and,
      ← not_and_or, ite_not, ← hloop, Parsed.accepted]
    split
    · split <;> rfl
    · rfl
  · rw [if_neg fun h => hlen h.1]
    simp only [loadLoginSound, (readFully_takes split { rest := content, calls := 0 } 12).2
      (Nat.lt_of_not_le hlen)]

/-- However the content is delivered, the sound is loaded exactly if the file is
one that can be played, and nothing is stored otherwise. -/
theorem loadLoginSound_exact (split : ℕ → ℕ) (AC97_DEFAULT_SAMPLE_RATE : ℕ)
    (content data : List UInt8) :
    (∀ pcm, loadLoginSound split AC97_DEFAULT_SAMPLE_RATE (some content) data = (true, pcm) ↔
      ∃ w : WavFile AC97_DEFAULT_SAMPLE_RATE, w.bytes = content ∧ w.data.body = pcm) ∧
    ((loadLoginSound split AC97_DEFAULT_SAMPLE_RATE (some content) data).1 = true ∨
      loadLoginSound split AC97_DEFAULT_SAMPLE_RATE (some content) data = (false, data)) := by
  rw [loadLoginSound_eq]
  constructor
  · intro pcm
    constructor
    · intro h
      split at h
      · rename_i hheader
        split at h
        · cases h
        · rename_i pcm' hselected
          obtain rfl := (Prod.mk.inj h).2
          exact exists_wavFile hheader.2.1 hheader.1 hheader.2.2 hselected
      · cases h
    · rintro ⟨w, rfl, rfl⟩
      have hwave : (w.bytes.drop 8).take 4 = WAVE := by
        rw [w.drop_bytes]
        exact List.take_left' rfl
      rw [if_pos ⟨w.length_bytes, w.take_bytes, hwave⟩, w.chunks_bytes,
        selected_append w.passed w.id_data]
  · split
    · split
      · exact Or.inr rfl
      · exact Or.inl rfl
    · exact Or.inr rfl

end Heartix.Sound
