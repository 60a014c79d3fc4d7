import Mathlib.Data.List.Basic
import Mathlib.Data.List.DropRight
import Mathlib.Tactic.Ring

/-!
The ramdisk writer. It walks through the source directory, numbers what it
finds and writes an entry for each file and each folder. The lines of the file
`.rdignore` exclude paths.
-/

namespace Heartix.Ramdisk

def S_IFMT : ℕ := 0xF000
def S_IFDIR : ℕ := 0x4000
def S_IFREG : ℕ := 0x8000

structure Stat where
  st_mode : ℕ
  st_size : ℕ

/-- A name as `readdir` returns it. -/
structure Name where
  chars : List UInt8
  terminated : 0 ∉ chars
  short : chars.length < 256

/-- What `readdir` returns, in order, with what is found at each path: the
result of `stat`, the content if it can be read, and whether `opendir` works. -/
inductive Directory where
  | nil
  | entry (d_name : Name) (stat : Option Stat) (content : Option (List UInt8)) (opens : Bool)
      (children rest : Directory)

def dot : List UInt8 := ['.'.toUInt8]
def dotDot : List UInt8 := ['.'.toUInt8, '.'.toUInt8]
def slash : List UInt8 := ['/'.toUInt8]
def star : List UInt8 := ['*'.toUInt8]

/-- The content of `.rdignore`. -/
def Directory.rdignore : Directory → Option (List UInt8)
  | .nil => none
  | .entry d_name _ content _ _ rest =>
      if d_name.chars = ".rdignore".toUTF8.toList then content else rest.rdignore

def npos : ℕ := 2 ^ 64 - 1

/-- The first position of `part` in `str`. -/
def find (str part : List UInt8) : ℕ :=
  ((List.range (str.length + 1)).find? fun i => part.isPrefixOf (str.drop i)).getD npos

/-- The difference of two lengths. -/
def lengthSub (m n : ℕ) : ℕ := (m + 2 ^ 64 - n) % 2 ^ 64

def isBlank (c : UInt8) : Bool := c ∈ " \r\n\t".toUTF8.toList

/-- Undefined on a line of blanks, where `substr` throws. -/
def trim (str : List UInt8) : Option (List UInt8) :=
  if 0 < str.length then
    if str.all isBlank then none else some ((str.dropWhile isBlank).rdropWhile isBlank)
  else some str

def readIgnores : Option (List UInt8) → Option (List (List UInt8))
  | none => some []
  | some text => ((text.splitOn '\n'.toUInt8).filter fun line => 0 < line.length).mapM trim

/-- Whether a line of `.rdignore` excludes a path. -/
def skips (basePath path ign : List UInt8) : Bool :=
  let suffix := ign.drop 1
  let start := ign.take (ign.length - 1)
  (find ign star = 0 ∧ find path suffix = lengthSub path.length suffix.length) ∨
    (find ign star = lengthSub ign.length 1 ∧ find path (basePath ++ slash ++ start) = 0) ∨
    basePath ++ slash ++ ign = path

structure GhostRamdisk where
  idCounter : ℕ
  out : List UInt8
  ignores : List (List UInt8)

def bufferSize : ℕ := 0x10000

/-- The four bytes of a number. -/
def word (n : ℕ) : List UInt8 :=
  [((n >>> 0) &&& 0xFF).toUInt8, ((n >>> 8) &&& 0xFF).toUInt8,
    ((n >>> 16) &&& 0xFF).toUInt8, ((n >>> 24) &&& 0xFF).toUInt8]

def strlen (s : List UInt8) : ℕ := (s.takeWhile (· ≠ 0)).length

namespace GhostRamdisk

def write (bytes : List UInt8) (r : GhostRamdisk) : GhostRamdisk :=
  { r with out := r.out ++ bytes }

/-- The fields before the content. The name goes through the buffer. -/
def writeHeader (entryId parentId : ℕ) (name : List UInt8) (isFile : Bool) (r : GhostRamdisk) :
    Option GhostRamdisk :=
  let namelen := strlen name
  if namelen ≤ bufferSize then
    some (((((r.write [if isFile then 1 else 0]).write (word entryId)).write
      (word parentId)).write (word namelen)).write (name.take namelen))
  else none

/-- The content of a file, through the buffer. A round that does not fill the
buffer is the last one. The first number bounds the rounds. -/
def copy : ℕ → List UInt8 → GhostRamdisk → GhostRamdisk
  | 0, _, r => r
  | fuel + 1, input, r =>
      let r := r.write (input.take bufferSize)
      if bufferSize ≤ input.length then r.copy fuel (input.drop bufferSize) else r

/-- The length of a file, and its content if it can be read. -/
def writeContent (contentLength : ℕ) (content : Option (List UInt8)) (r : GhostRamdisk) :
    GhostRamdisk :=
  match content with
  | none => r.write (word contentLength)
  | some input => (r.write (word contentLength)).copy (input.length + 1) input

/-- One file or folder, where `content` is found at the path and
`readDirectory` is the loop over the folder. Undefined where the counter
overflows. -/
def writeRecursive (basePath path name : List UInt8) (contentLength parentId : ℕ)
    (isFile : Bool) (content : Option (List UInt8))
    (readDirectory : ℕ → GhostRamdisk → Option GhostRamdisk) (r : GhostRamdisk) :
    Option GhostRamdisk :=
  if r.ignores.any (skips basePath path) then some r
  else if r.idCounter + 1 < 2 ^ 31 then
    let entryId := r.idCounter
    let r := { r with idCounter := r.idCounter + 1 }
    match if 0 < entryId then r.writeHeader entryId parentId name isFile else some r with
    | none => none
    | some r =>
        if isFile then some (r.writeContent contentLength content)
        else readDirectory entryId r
  else none

/-- The loop over a directory. It ends at the first path that `stat` cannot
read. -/
def writeDirectory (basePath : List UInt8) :
    Directory → List UInt8 → ℕ → GhostRamdisk → Option GhostRamdisk
  | .nil, _, _, r => some r
  | .entry d_name stat content opens children rest, path, entryId, r =>
      let entryPath := path ++ slash ++ d_name.chars
      match stat with
      | none => some r
      | some s =>
          let written :=
            if s.st_mode &&& S_IFREG ≠ 0 then
              r.writeRecursive basePath entryPath d_name.chars (s.st_size % 2 ^ 32) entryId true
                content fun _ r => some r
            else if s.st_mode &&& S_IFDIR ≠ 0 then
              if d_name.chars = dot ∨ d_name.chars = dotDot then some r
              else
                r.writeRecursive basePath entryPath d_name.chars 0 entryId false none
                  fun entryId r =>
                    if opens then writeDirectory basePath children entryPath entryId r else some r
            else some r
          match written with
          | none => none
          | some r => writeDirectory basePath rest path entryId r

end GhostRamdisk

/-- The bytes of the image. -/
def create (sourcePath : List UInt8) (opens : Bool) (root : Directory) : Option (List UInt8) :=
  match readIgnores root.rdignore with
  | none => none
  | some ignores =>
      let r : GhostRamdisk := { idCounter := 0, out := [], ignores := ignores }
      (r.writeRecursive sourcePath sourcePath [] 0 0 false none fun entryId r =>
        if opens then r.writeDirectory sourcePath root sourcePath entryId else some r).map
          GhostRamdisk.out

end Heartix.Ramdisk
