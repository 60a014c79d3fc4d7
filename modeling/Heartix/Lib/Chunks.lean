import Heartix.Lib.LittleEndian

/-!
Sequences of chunks. A chunk is a tag of four bytes, the size of its body in
four bytes, lowest first, the body, and a byte behind it if the size is odd. No
chunk is a proper prefix of another one, so that a sequence of bytes has one
decomposition into chunks, and what is left is not a chunk.
-/

namespace Heartix.Chunks

structure Chunk where
  id : List UInt8
  body : List UInt8
  pad : List UInt8
  length_id : id.length = 4
  length_body : body.length < 256 ^ 4
  length_pad : pad.length = body.length % 2

variable {c d : Chunk} {content rest : List UInt8}

def Chunk.bytes (c : Chunk) : List UInt8 :=
  c.id ++ (LittleEndian.bytes 4 c.body.length ++ (c.body ++ c.pad))

theorem Chunk.ext_parts (hid : c.id = d.id) (hbody : c.body = d.body) (hpad : c.pad = d.pad) :
    c = d := by
  cases c
  cases d
  simp_all

theorem Chunk.length_bytes (c : Chunk) :
    c.bytes.length = 8 + c.body.length + c.body.length % 2 := by
  rw [Chunk.bytes, List.length_append, List.length_append, List.length_append, c.length_id,
    LittleEndian.length_bytes, c.length_pad]
  omega

/-- Where the size of the first chunk is read. -/
def bodySize (content : List UInt8) : ℕ := LittleEndian.value ((content.drop 4).take 4)

theorem bodySize_bytes (c : Chunk) (rest : List UInt8) :
    bodySize (c.bytes ++ rest) = c.body.length := by
  have hlen := LittleEndian.length_bytes 4 c.body.length
  have hdrop : ((c.bytes ++ rest).drop 4).take 4 = LittleEndian.bytes 4 c.body.length := by
    rw [Chunk.bytes, List.append_assoc, List.drop_left' c.length_id, List.append_assoc,
      List.take_left' hlen]
  rw [bodySize, hdrop, LittleEndian.value_bytes c.length_body]

/-- The first chunk, and what lies behind it. -/
def next (content : List UInt8) : Option (Chunk × List UInt8) :=
  if _ : 8 + bodySize content + bodySize content % 2 ≤ content.length then
    some ({ id := content.take 4
            body := (content.drop 8).take (bodySize content)
            pad := (content.drop (8 + bodySize content)).take (bodySize content % 2)
            length_id := by
              rw [List.length_take]
              omega
            length_body := by
              have hlt := LittleEndian.value_lt ((content.drop 4).take 4)
              have hlen : ((content.drop 4).take 4).length = 4 := by
                rw [List.length_take, List.length_drop]
                omega
              rw [hlen] at hlt
              rw [List.length_take]
              exact Nat.lt_of_le_of_lt (Nat.min_le_left _ _) hlt
            length_pad := by
              rw [List.length_take, List.length_take, List.length_drop, List.length_drop]
              omega },
      content.drop (8 + bodySize content + bodySize content % 2))
  else none

/-- Two chunks in front of the same bytes are one. -/
theorem Chunk.bytes_inj {rest' : List UInt8} (h : c.bytes ++ rest = d.bytes ++ rest') :
    c = d ∧ rest = rest' := by
  have hsize : c.body.length = d.body.length := by
    rw [← bodySize_bytes c rest, h, bodySize_bytes]
  have hlen : c.bytes.length = d.bytes.length := by
    rw [c.length_bytes, d.length_bytes, hsize]
  obtain ⟨hbytes, hrest⟩ := List.append_inj h hlen
  obtain ⟨hid, hsized⟩ := List.append_inj hbytes (c.length_id.trans d.length_id.symm)
  obtain ⟨_, hpadded⟩ := List.append_inj hsized
    ((LittleEndian.length_bytes 4 _).trans (LittleEndian.length_bytes 4 _).symm)
  obtain ⟨hbody, hpad⟩ := List.append_inj hpadded hsize
  exact ⟨Chunk.ext_parts hid hbody hpad, hrest⟩

theorem eq_of_next (h : next content = some (c, rest)) : content = c.bytes ++ rest := by
  unfold next at h
  split at h
  · rename_i hlen
    obtain ⟨rfl, rfl⟩ := Prod.mk.inj (Option.some.inj h)
    have hbody : ((content.drop 8).take (bodySize content)).length = bodySize content := by
      rw [List.length_take, List.length_drop]
      omega
    have hfour : ((content.drop 4).take 4).length = 4 := by
      rw [List.length_take, List.length_drop]
      omega
    have hsize : LittleEndian.bytes 4 (bodySize content) = (content.drop 4).take 4 := by
      rw [← LittleEndian.bytes_value ((content.drop 4).take 4), hfour]
      rfl
    have hpad : content.drop (8 + bodySize content + bodySize content % 2) =
        (content.drop (8 + bodySize content)).drop (bodySize content % 2) := List.drop_drop.symm
    have hbehind : content.drop (8 + bodySize content) =
        (content.drop 8).drop (bodySize content) := List.drop_drop.symm
    have hheader : content.drop 8 = (content.drop 4).drop 4 := by rw [List.drop_drop]
    simp only [Chunk.bytes, hbody, hsize, List.append_assoc]
    rw [hpad, List.take_append_drop, hbehind, List.take_append_drop, hheader,
      List.take_append_drop, List.take_append_drop]
  · cases h

theorem next_bytes (c : Chunk) (rest : List UInt8) : next (c.bytes ++ rest) = some (c, rest) := by
  have hlen : 8 + bodySize (c.bytes ++ rest) + bodySize (c.bytes ++ rest) % 2 ≤
      (c.bytes ++ rest).length := by
    rw [bodySize_bytes, List.length_append, c.length_bytes]
    omega
  obtain ⟨d, rest', hnext⟩ : ∃ d rest', next (c.bytes ++ rest) = some (d, rest') :=
    ⟨_, _, dif_pos hlen⟩
  obtain ⟨rfl, rfl⟩ := Chunk.bytes_inj (eq_of_next hnext)
  exact hnext

theorem next_eq_none_iff :
    next content = none ↔ content.length < 8 + bodySize content + bodySize content % 2 := by
  rw [next, dite_eq_right_iff]
  constructor
  · intro h
    by_contra hlen
    exact absurd (h (by omega)) (Option.some_ne_none _)
  · intro hlen h
    omega

theorem length_of_next (h : next content = some (c, rest)) : rest.length < content.length := by
  rw [eq_of_next h, List.length_append, c.length_bytes]
  omega

/-- The chunks in front of what is not a chunk. -/
def chunksOf (content : List UInt8) : List Chunk :=
  match _ : next content with
  | none => []
  | some (c, rest) => c :: chunksOf rest
termination_by content.length
decreasing_by exact length_of_next ‹_›

theorem chunksOf_of_none (h : next content = none) : chunksOf content = [] := by
  rw [chunksOf]
  split
  · rfl
  · simp_all

theorem chunksOf_of_some (h : next content = some (c, rest)) :
    chunksOf content = c :: chunksOf rest := by
  rw [chunksOf]
  split
  · simp_all
  · simp_all

theorem chunksOf_bytes (c : Chunk) (rest : List UInt8) :
    chunksOf (c.bytes ++ rest) = c :: chunksOf rest :=
  chunksOf_of_some (next_bytes c rest)

/-- A decomposition of the beginning is found. -/
theorem chunksOf_eq_append_iff {chunks more : List Chunk} :
    chunksOf content = chunks ++ more ↔
      ∃ rest, content = chunks.flatMap Chunk.bytes ++ rest ∧ chunksOf rest = more := by
  induction chunks generalizing content with
  | nil => simp
  | cons c chunks ih =>
    constructor
    · intro h
      cases hnext : next content with
      | none => simp [chunksOf_of_none hnext] at h
      | some first =>
        obtain ⟨d, behind⟩ := first
        rw [chunksOf_of_some hnext, List.cons_append] at h
        obtain ⟨rfl, htail⟩ := List.cons.inj h
        obtain ⟨rest, hbehind, hmore⟩ := ih.mp htail
        refine ⟨rest, ?_, hmore⟩
        rw [eq_of_next hnext, hbehind, List.flatMap_cons, List.append_assoc]
    · rintro ⟨rest, rfl, hmore⟩
      rw [List.flatMap_cons, List.append_assoc, chunksOf_bytes, List.cons_append,
        ih.mpr ⟨rest, rfl, hmore⟩]

end Heartix.Chunks
