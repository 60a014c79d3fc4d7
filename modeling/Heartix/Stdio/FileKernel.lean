import Heartix.Stdio.Cursor

/-!
A kernel with one regular file behind every descriptor. A transfer moves at most
`chunk + 1` bytes, so that every chunk size occurs.
-/

namespace Heartix.Stdio

structure FileWorld where
  file : FlatFile UInt8
  offset : ℕ

def FileWorld.seekTarget (distance : ℤ) (w : FileWorld) : Whence → ℤ
  | .seekSet => distance
  | .seekCur => w.offset + distance
  | .seekEnd => w.file.size + distance

def fileKernel (chunk : ℕ) : Kernel FileWorld where
  write _ bytes w :=
    (some ⟨min (chunk + 1) bytes.length, Nat.lt_succ_of_le (Nat.min_le_right _ _)⟩,
      { file := w.file.write w.offset (bytes.take (min (chunk + 1) bytes.length))
        offset := w.offset + min (chunk + 1) bytes.length })
  read _ len w :=
    (some ⟨w.file.read w.offset (min (chunk + 1) len), by
        rw [FlatFile.length_read]
        omega⟩,
      { w with offset := w.offset + (w.file.read w.offset (min (chunk + 1) len)).length })
  lseek _ distance whence w :=
    if 0 ≤ w.seekTarget distance whence then
      (w.seekTarget distance whence,
        { w with offset := (w.seekTarget distance whence).toNat })
    else (-1, w)
  tell _ w := (w.offset, w)
  close _ w := (0, w)
  openFile _ _ w := (3, { w with offset := 0 })
  malloc len w := (some (4096, Vector.replicate len 0), w)
  free _ w := w
  mutexInitialize w := (1, w)
  mutexTryAcquire _ := true

/-- The file kernel is one the position law speaks of. -/
def fileKernel_seekable (chunk : ℕ) (fd : ℤ) : SeekableFile (fileKernel chunk) fd where
  file w := w.file
  offset w := w.offset
  write_spec bytes w hne := by
    have hpos := List.length_pos_of_ne_nil hne
    refine ⟨_, _, rfl, ?_, rfl, rfl⟩
    show 0 < min (chunk + 1) bytes.length
    omega
  read_spec len w hlen := by
    refine ⟨min (chunk + 1) len, _, _, rfl, by omega, rfl, rfl, rfl⟩
  seek_set target w h := ⟨_, if_pos h, rfl, rfl⟩
  seek_cur distance w h := ⟨_, if_pos h, rfl, rfl⟩
  seek_end distance w h := ⟨_, if_pos h, rfl, rfl⟩
  tell_spec w := ⟨w, rfl, rfl, rfl⟩
  malloc_spec len w := ⟨_, w, rfl, rfl, rfl⟩
  free_spec address w := ⟨rfl, rfl⟩

/-- A stream over a file that holds the bytes, with a buffer of the given size. -/
def fileStream (bytes : List UInt8) (size : ℕ) : State FileWorld :=
  ⟨openedStream updateFlags (List.replicate size 0) .iofbf, ⟨FlatFile.ofList bytes, 0⟩⟩

end Heartix.Stdio
