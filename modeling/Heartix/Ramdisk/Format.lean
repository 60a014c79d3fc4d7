import Heartix.Lib.Forest
import Heartix.Lib.LittleEndian

/-!
The documented format of a ramdisk: entries one after another, each with its
type, its number, the number of its parent, its name and, for a file, its
content. All numbers have four bytes, in little-endian order.
-/

namespace Heartix.Ramdisk

/-- Files have a name and a content, folders a name. -/
abbrev Tree := Forest (List UInt8 × List UInt8) (List UInt8)

abbrev Entry := Forest.Entry (List UInt8 × List UInt8) (List UInt8)

def integer (bytes : List UInt8) : Option (ℕ × List UInt8) :=
  if 4 ≤ bytes.length then some (LittleEndian.value (bytes.take 4), bytes.drop 4) else none

/-- A length, and as many bytes. -/
def content (bytes : List UInt8) : Option (List UInt8 × List UInt8) :=
  match integer bytes with
  | none => none
  | some (length, rest) =>
      if length ≤ rest.length then some (rest.take length, rest.drop length) else none

/-- The first entry, and what follows it. -/
def entry : List UInt8 → Option (Entry × List UInt8)
  | [] => none
  | type :: rest => do
      let (id, rest) ← integer rest
      let (parent, rest) ← integer rest
      let (name, rest) ← content rest
      if type = 0 then some (⟨id, parent, .inr name⟩, rest)
      else if type = 1 then
        let (data, rest) ← content rest
        some (⟨id, parent, .inl (name, data)⟩, rest)
      else none

/-- The first number bounds the entries. -/
def entries : ℕ → List UInt8 → Option (List Entry)
  | _, [] => some []
  | 0, _ :: _ => none
  | fuel + 1, b :: bytes =>
      match entry (b :: bytes) with
      | none => none
      | some (e, rest) => (entries fuel rest).map (e :: ·)

/-- The entries of an image. All its bytes belong to one of them. -/
def parse (image : List UInt8) : Option (List Entry) := entries image.length image

/-- An entry in the format. -/
def encode (e : Entry) : List UInt8 :=
  let header (type : UInt8) (name : List UInt8) :=
    type :: (LittleEndian.bytes 4 e.id ++ (LittleEndian.bytes 4 e.parent ++
      (LittleEndian.bytes 4 name.length ++ name)))
  match e.value with
  | .inl (name, data) => header 1 name ++ (LittleEndian.bytes 4 data.length ++ data)
  | .inr name => header 0 name

/-- The numbers and lengths fit into their fields. -/
def Fits (e : Entry) : Prop :=
  e.id < 2 ^ 32 ∧ e.parent < 2 ^ 32 ∧
    match e.value with
    | .inl (name, data) => name.length < 2 ^ 32 ∧ data.length < 2 ^ 32
    | .inr name => name.length < 2 ^ 32

theorem integer_bytes {n : ℕ} (hn : n < 2 ^ 32) (rest : List UInt8) :
    integer (LittleEndian.bytes 4 n ++ rest) = some (n, rest) := by
  have hlen := LittleEndian.length_bytes 4 n
  unfold integer
  rw [if_pos, List.take_left' hlen, List.drop_left' hlen, LittleEndian.value_bytes hn]
  rw [List.length_append, hlen]
  omega

theorem content_bytes {data : List UInt8} (hdata : data.length < 2 ^ 32) (rest : List UInt8) :
    content (LittleEndian.bytes 4 data.length ++ (data ++ rest)) = some (data, rest) := by
  unfold content
  rw [integer_bytes hdata]
  dsimp only
  rw [if_pos, List.take_left, List.drop_left]
  rw [List.length_append]
  omega

theorem entry_encode {e : Entry} (he : Fits e) (rest : List UInt8) :
    entry (encode e ++ rest) = some (e, rest) := by
  obtain ⟨id, parent, value⟩ := e
  obtain ⟨hid, hparent, hvalue⟩ := he
  cases value with
  | inl file =>
    obtain ⟨hname, hdata⟩ := hvalue
    simp [encode, entry, integer_bytes hid, integer_bytes hparent, content_bytes hname,
      content_bytes hdata]
  | inr name =>
    simp [encode, entry, integer_bytes hid, integer_bytes hparent, content_bytes hvalue]

theorem encode_ne_nil (e : Entry) : encode e ≠ [] := by
  obtain ⟨id, parent, value⟩ := e
  cases value <;> exact List.cons_ne_nil _ _

theorem entries_flatMap_encode {es : List Entry} (hes : ∀ e ∈ es, Fits e) {fuel : ℕ}
    (hfuel : es.length ≤ fuel) : entries fuel (es.flatMap encode) = some es := by
  induction es generalizing fuel with
  | nil => cases fuel <;> rfl
  | cons e es ih =>
    cases fuel with
    | zero => cases hfuel
    | succ fuel =>
      have hrest := ih (fun d hd => hes d (List.mem_cons_of_mem e hd))
        (Nat.le_of_succ_le_succ hfuel)
      have hentry := entry_encode (hes e List.mem_cons_self) (es.flatMap encode)
      obtain ⟨b, bytes, hbytes⟩ := List.exists_cons_of_ne_nil
        (List.append_ne_nil_of_left_ne_nil (encode_ne_nil e) (es.flatMap encode))
      rw [hbytes] at hentry
      rw [List.flatMap_cons, hbytes, entries, hentry]
      dsimp only
      rw [hrest]
      rfl

theorem length_le_flatMap_encode (es : List Entry) :
    es.length ≤ (es.flatMap encode).length := by
  induction es with
  | nil => exact Nat.le_refl _
  | cons e es ih =>
    have hpos := List.length_pos_of_ne_nil (encode_ne_nil e)
    rw [List.flatMap_cons, List.length_append, List.length_cons]
    omega

/-- What is written in the format is read back, to the last byte. -/
theorem parse_flatMap_encode {es : List Entry} (hes : ∀ e ∈ es, Fits e) :
    parse (es.flatMap encode) = some es :=
  entries_flatMap_encode hes (length_le_flatMap_encode es)

end Heartix.Ramdisk
