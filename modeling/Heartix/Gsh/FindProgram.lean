import Heartix.Gsh.LineEditor
import Heartix.Gsh.Pipeline

/-!
Where the shell finds a program. It tries five places, then the directories of
`PATH`, and all of that once more for the name with `.bin` appended.
-/

namespace Heartix.Gsh

def extension : List UInt8 := text ".bin"

def pathSeparator : UInt8 := ':'.toUInt8

def defaultPath : List UInt8 := text "/system/bin:/system/sbin:/applications"

/-- What the shell searches for the value of `PATH`. -/
def pathValue (envPath : Option (List UInt8)) : List UInt8 :=
  match envPath with
  | none => defaultPath
  | some value => if value.isEmpty then defaultPath else value

/-- The name in a directory of `PATH`, where no directory is the current one. -/
def inDirectory (name dir : List UInt8) : List UInt8 :=
  (if dir.isEmpty then text "." else dir) ++ slash :: name

/-- The name ends in `.bin`. -/
def hasExtension (name : List UInt8) : Bool :=
  4 ≤ name.length ∧ name.drop (name.length - 4) = extension

theorem hasExtension_append (name : List UInt8) : hasExtension (name ++ extension) = true := by
  have hlen : extension.length = 4 := by decide
  simp [hasExtension, hlen]

section Search

-- `gshFileExists` is the file system as it is during the search.
variable (gshFileExists : List UInt8 → Bool)

/-- The loop over the directories of `PATH`. -/
def pathLoop (pathValue name : List UInt8) (start : ℕ) : Option (List UInt8) :=
  if start ≤ pathValue.length then
    let rest := pathValue.drop start
    let sep := rest.idxOf pathSeparator
    let candidate := inDirectory name (rest.take sep)
    if gshFileExists candidate then some candidate
    else if sep = rest.length then none
    else pathLoop pathValue name (start + sep + 1)
  else none
termination_by pathValue.length + 1 - start

def gshFindProgram (envPath : Option (List UInt8)) (cwd name : List UInt8) : List UInt8 :=
  if gshFileExists (cwd ++ slash :: name) then cwd ++ slash :: name
  else if gshFileExists name then name
  else if gshFileExists (text "/applications/" ++ name) then text "/applications/" ++ name
  else if gshFileExists (text "/system/bin/" ++ name) then text "/system/bin/" ++ name
  else if gshFileExists (text "/system/sbin/" ++ name) then text "/system/sbin/" ++ name
  else match pathLoop gshFileExists (pathValue envPath) name 0 with
    | some candidate => candidate
    | none =>
        if hasExtension name = false then gshFindProgram envPath cwd (name ++ extension)
        else name
termination_by if hasExtension name then 0 else 1
decreasing_by simp_all [hasExtension_append]

end Search

/-- The paths that are tried for one name, in order. -/
def placesOf (envPath : Option (List UInt8)) (cwd name : List UInt8) : List (List UInt8) :=
  [cwd ++ slash :: name, name, text "/applications/" ++ name, text "/system/bin/" ++ name,
    text "/system/sbin/" ++ name] ++
    ((pathValue envPath).splitOn pathSeparator).map (inDirectory name)

def withExtension (name : List UInt8) : List UInt8 :=
  if hasExtension name then name else name ++ extension

/-- All paths that are tried. -/
def places (envPath : Option (List UInt8)) (cwd name : List UInt8) : List (List UInt8) :=
  placesOf envPath cwd name ++
    if hasExtension name then [] else placesOf envPath cwd (name ++ extension)

/-- The text up to the first separator is the first part. -/
theorem splitOn_idxOf (rest : List UInt8) :
    rest.splitOn pathSeparator = rest.take (rest.idxOf pathSeparator) ::
      if rest.idxOf pathSeparator = rest.length then []
      else (rest.drop (rest.idxOf pathSeparator + 1)).splitOn pathSeparator := by
  by_cases hmem : pathSeparator ∈ rest
  · obtain ⟨a, w, rfl, ha⟩ := List.eq_append_cons_of_mem hmem
    have hidx : (a ++ pathSeparator :: w).idxOf pathSeparator = a.length := by
      rw [List.idxOf_append_of_notMem ha, List.idxOf_cons_self, Nat.add_zero]
    have hlen : a.length ≠ (a ++ pathSeparator :: w).length := by simp
    have hdrop : (a ++ pathSeparator :: w).drop (a.length + 1) = w := by simp
    rw [hidx, List.splitOn_append_cons_self_of_not_mem ha, List.take_left' rfl, if_neg hlen, hdrop]
  · rw [List.idxOf_eq_length hmem, List.take_length, if_pos rfl, List.splitOn_eq_singleton hmem]

section Search

variable (gshFileExists : List UInt8 → Bool)

theorem pathLoop_eq (value name : List UInt8) (start : ℕ) (hstart : start ≤ value.length) :
    pathLoop gshFileExists value name start =
      (((value.drop start).splitOn pathSeparator).map (inDirectory name)).find?
        gshFileExists := by
  induction start using pathLoop.induct gshFileExists value name with
  | case1 start hle rest sep candidate hexist =>
    rw [pathLoop, if_pos hle, if_pos hexist, splitOn_idxOf, List.map_cons, List.find?_cons_of_pos]
    exact hexist
  | case2 start hle rest sep candidate hexist hend =>
    rw [pathLoop, if_pos hle, if_neg hexist, if_pos hend, splitOn_idxOf, if_pos hend,
      List.map_cons, List.map_nil, List.find?_cons_of_neg hexist, List.find?_nil]
  | case3 start hle rest sep candidate hexist hend ih =>
    have hle_sep : sep ≤ rest.length := List.idxOf_le_length
    have hlen : rest.length = value.length - start := List.length_drop
    have hdrop : rest.drop (sep + 1) = value.drop (start + sep + 1) := List.drop_drop
    rw [pathLoop, if_pos hle, if_neg hexist, if_neg hend, ih (by omega),
      splitOn_idxOf (value.drop start), if_neg hend, List.map_cons,
      List.find?_cons_of_neg hexist, hdrop]
  | case4 start hnot => exact absurd hstart hnot

variable (envPath : Option (List UInt8)) (cwd : List UInt8)

theorem getD_find?_cons (p : List UInt8 → Bool) (path name : List UInt8)
    (paths : List (List UInt8)) :
    ((path :: paths).find? p).getD name = if p path then path else (paths.find? p).getD name := by
  rw [List.find?_cons]
  cases p path with
  | true => rfl
  | false => rfl

/-- A round of the search, for one name. -/
theorem gshFindProgram_eq (name : List UInt8) :
    gshFindProgram gshFileExists envPath cwd name =
      ((placesOf envPath cwd name).find? gshFileExists).getD
        (if hasExtension name then name
        else gshFindProgram gshFileExists envPath cwd (name ++ extension)) := by
  rw [gshFindProgram, pathLoop_eq _ _ _ _ (Nat.zero_le _), List.drop_zero, placesOf]
  simp only [List.cons_append, List.nil_append, getD_find?_cons]
  generalize ((pathValue envPath).splitOn pathSeparator).map (inDirectory name) = dirs
  cases dirs.find? gshFileExists with
  | none => cases hasExtension name <;> rfl
  | some candidate => rfl

/-- The program that is found is the first of all these places where there is a
file, and the name with `.bin` where there is none. -/
theorem gshFindProgram_eq_first (name : List UInt8) :
    gshFindProgram gshFileExists envPath cwd name =
      ((places envPath cwd name).find? gshFileExists).getD (withExtension name) := by
  rw [gshFindProgram_eq, places, withExtension, List.find?_append]
  by_cases hext : hasExtension name = true
  · rw [if_pos hext, if_pos hext, if_pos hext, List.find?_nil, Option.or_none]
  · rw [if_neg hext, if_neg hext, if_neg hext, gshFindProgram_eq,
      if_pos (hasExtension_append name)]
    cases (placesOf envPath cwd name).find? gshFileExists with
    | none => rfl
    | some path => rfl

end Search

end Heartix.Gsh
