import Heartix.Process.Arguments
import Heartix.Strings.Characters

/-!
`parseargs` in memory. The line that the kernel delivers is taken apart where it
lies: the argument vector points into it, the separators become terminators and
unquoting moves the rest of an argument to the left. Two loops that do not know
of each other count the arguments and fill the vector, and what is proved first
is that both follow the fields of the line. A read or a store outside of the
line or of the vector has no result.
-/

namespace Heartix.Process.InPlace

open Fields Heartix.Strings

/-- The buffer of `parseargs` after `g_cli_args_release`. -/
structure DeliveredLine where
  bytes : List UInt8
  length_eq : bytes.length = G_CLIARGS_BUFFER_LENGTH
  terminated : 0 ∈ bytes

/-- A pointer of the argument vector. The name of the executable lies in memory
of its own. -/
inductive Pointer
  | null
  | name (text : List UInt8)
  | line (offset : ℕ)
  deriving DecidableEq

/-- The memory of the argument vector. A slot that was not stored to is `none`. -/
abbrev Slots := List (Option Pointer)

structure ArgumentVector where
  argc : ℕ
  argv : Slots
  line : List UInt8

def store (argv : Slots) (i : ℕ) (pointer : Pointer) : Option Slots :=
  if i < argv.length then some (argv.set i (some pointer)) else none

/-- The inner loop of the counting loop, which leaves the separator behind. -/
def pastSeparator (buffer : List UInt8) (pos : ℕ) : Option ℕ :=
  if _ : pos < buffer.length then
    if buffer[pos] = 0 then some pos
    else if buffer[pos] = G_CLIARGS_SEPARATOR then some (pos + 1)
    else pastSeparator buffer (pos + 1)
  else none
termination_by buffer.length - pos

/-- The inner loop of the splitting loop, which stops at the separator. -/
def untilSeparator (buffer : List UInt8) (pos : ℕ) : Option ℕ :=
  if _ : pos < buffer.length then
    if buffer[pos] = 0 then some pos
    else if buffer[pos] = G_CLIARGS_SEPARATOR then some pos
    else untilSeparator buffer (pos + 1)
  else none
termination_by buffer.length - pos

theorem le_of_untilSeparator {buffer : List UInt8} {pos stop : ℕ}
    (h : untilSeparator buffer pos = some stop) : pos ≤ stop := by
  induction pos using untilSeparator.induct buffer with
  | case1 pos hpos hzero =>
    rw [untilSeparator, dif_pos hpos, if_pos hzero, Option.some_inj] at h
    exact h.le
  | case2 pos hpos hzero hsep =>
    rw [untilSeparator, dif_pos hpos, if_neg hzero, if_pos hsep, Option.some_inj] at h
    exact h.le
  | case3 pos hpos hzero hsep ih =>
    rw [untilSeparator, dif_pos hpos, if_neg hzero, if_neg hsep] at h
    exact Nat.le_of_succ_le (ih h)
  | case4 pos hpos =>
    rw [untilSeparator, dif_neg hpos] at h
    cases h

/-- The inner loops differ in what becomes of the separator. -/
theorem pastSeparator_eq (buffer : List UInt8) (pos : ℕ) :
    pastSeparator buffer pos = (untilSeparator buffer pos).map fun stop =>
      if buffer[stop]? = some 0 then stop else stop + 1 := by
  induction pos using pastSeparator.induct buffer with
  | case1 pos hpos hzero =>
    rw [pastSeparator, untilSeparator, dif_pos hpos, dif_pos hpos, if_pos hzero, if_pos hzero,
      Option.map_some, List.getElem?_eq_getElem hpos, hzero, if_pos rfl]
  | case2 pos hpos hzero hsep =>
    have hne : buffer[pos]? ≠ some 0 := by
      rw [List.getElem?_eq_getElem hpos, ne_eq, Option.some_inj]
      exact hzero
    rw [pastSeparator, untilSeparator, dif_pos hpos, dif_pos hpos, if_neg hzero, if_neg hzero,
      if_pos hsep, if_pos hsep, Option.map_some, if_neg hne]
  | case3 pos hpos hzero hsep ih =>
    rw [pastSeparator, untilSeparator, dif_pos hpos, dif_pos hpos, if_neg hzero, if_neg hzero,
      if_neg hsep, if_neg hsep, ih]
  | case4 pos hpos =>
    rw [pastSeparator, untilSeparator, dif_neg hpos, dif_neg hpos, Option.map_none]

/-- A round of the counting loop moves forward. -/
theorem lt_of_pastSeparator {buffer : List UInt8} {pos next : ℕ} (hpos : pos < buffer.length)
    (hzero : buffer[pos] ≠ 0) (h : pastSeparator buffer pos = some next) : pos < next := by
  rw [pastSeparator_eq, Option.map_eq_some_iff] at h
  obtain ⟨stop, hstop, rfl⟩ := h
  have hle := le_of_untilSeparator hstop
  split
  · rename_i hend
    have hne : stop ≠ pos := by
      rintro rfl
      rw [List.getElem?_eq_getElem hpos, Option.some_inj] at hend
      exact hzero hend
    omega
  · omega

/-- The counting loop. -/
def countLoop (buffer : List UInt8) (pos argc : ℕ) : Option ℕ :=
  if _ : pos < buffer.length then
    if _ : buffer[pos] = 0 then some argc
    else
      match _ : pastSeparator buffer pos with
      | none => none
      | some next => countLoop buffer next (argc + 1)
  else none
termination_by buffer.length - pos
decreasing_by
  have hlt := lt_of_pastSeparator ‹_› ‹_› ‹_›
  omega

/-- The splitting loop. It returns the line, the vector and the next slot. -/
def splitLoop (buffer : List UInt8) (argv : Slots) (pos argpp : ℕ) :
    Option (List UInt8 × Slots × ℕ) :=
  if _ : pos < buffer.length then
    if buffer[pos] = 0 then some (buffer, argv, argpp)
    else
      match store argv argpp (Pointer.line pos), _ : untilSeparator buffer pos with
      | some argv, some stop =>
          if buffer[stop]? = some 0 then some (buffer, argv, argpp + 1)
          else splitLoop (buffer.set stop 0) argv (stop + 1) (argpp + 1)
      | _, _ => none
  else none
termination_by buffer.length - pos
decreasing_by
  have hle := le_of_untilSeparator ‹_›
  rw [List.length_set]
  omega

/-- The loops of the cleanup that move the rest of the argument, up to its
terminator, one place to the left. -/
def shiftLoop (buffer : List UInt8) (arg x arglen : ℕ) : Option (List UInt8) :=
  if x < arglen then
    match buffer[arg + (x + 1)]? with
    | none => none
    | some c => shiftLoop (buffer.set (arg + x) c) arg (x + 1) arglen
  else some buffer
termination_by arglen - x

/-- The cleanup of one argument. The index goes back by one before it goes on, so
that the position is looked at again. -/
def cleanLoop (buffer : List UInt8) (arg p arglen : ℕ) (esc : Bool) : Option (List UInt8) :=
  if p < arglen then
    match buffer[arg + p]? with
    | none => none
    | some c =>
        if esc = false ∧ c = backslash then
          match shiftLoop buffer arg p arglen with
          | none => none
          | some buffer => cleanLoop buffer arg p (arglen - 1) true
        else if esc = false ∧ c = quotationMark then
          match shiftLoop buffer arg p arglen with
          | none => none
          | some buffer => cleanLoop buffer arg p (arglen - 1) false
        else cleanLoop buffer arg (p + 1) arglen false
  else some buffer
termination_by arglen - p

/-- The cleanup of the arguments from the slot `i` on. -/
def cleanArguments (argv : Slots) (argc i : ℕ) (buffer : List UInt8) : Option (List UInt8) :=
  if i < argc then
    match argv[i]? with
    | some (some (Pointer.line arg)) =>
        match strlen (buffer.drop arg) with
        | none => none
        | some arglen =>
            match cleanLoop buffer arg 0 arglen false with
            | none => none
            | some buffer => cleanArguments argv argc (i + 1) buffer
    | _ => none
  else some buffer
termination_by argc - i

/-- `parseargs`, which returns -1 in the case of `some none`. What
`get_executable_name` returns is a parameter. -/
def parseargs (malloc : ℕ → Bool) (execName : Pointer) (unparsedCommandLine : DeliveredLine) :
    Option (Option ArgumentVector) :=
  if malloc G_CLIARGS_BUFFER_LENGTH = false then some none
  else
    match countLoop unparsedCommandLine.bytes 0 1 with
    | none => none
    | some argc =>
        if malloc (8 * (argc + 1)) = false then some none
        else
          match store (List.replicate (argc + 1) none) 0 execName with
          | none => none
          | some argv =>
              match splitLoop unparsedCommandLine.bytes argv 0 1 with
              | none => none
              | some (buffer, argv, argpp) =>
                  match store argv argpp Pointer.null with
                  | none => none
                  | some argv =>
                      (cleanArguments argv argc 1 buffer).map fun buffer =>
                        some { argc := argc, argv := argv, line := buffer }

/-- The arguments of a line: what stands between its separators. Only behind the
last separator is no argument if nothing stands there. -/
def DeliveredLine.arguments (buffer : DeliveredLine) : List (List UInt8) :=
  fields G_CLIARGS_SEPARATOR (cString buffer.bytes)

/-- The slot `i` of the vector points to the argument in the line, where it stands
without quotation marks and backslashes. -/
structure PointsTo (buffer : DeliveredLine) (built : ArgumentVector) (i : ℕ)
    (argument : List UInt8) (offset : ℕ) : Prop where
  slot : built.argv[i]? = some (some (Pointer.line offset))
  inside : offset < (cString buffer.bytes).length
  delivered : argument <+: (cString buffer.bytes).drop offset
  terminated : strlen (built.line.drop offset) = some (unquoted false argument).length
  text : cString (built.line.drop offset) = unquoted false argument
  length_le : (unquoted false argument).length ≤ argument.length

/-- What `main` may rely on. -/
structure Built (execName : Pointer) (buffer : DeliveredLine) (built : ArgumentVector) :
    Prop where
  argc : built.argc = buffer.arguments.length + 1
  length_argv : built.argv.length = built.argc + 1
  name : built.argv[0]? = some (some execName)
  argument : ∀ i argument, buffer.arguments[i]? = some argument →
    ∃ offset, PointsTo buffer built (i + 1) argument offset
  null : built.argv[built.argc]? = some (some Pointer.null)
  length_line : built.line.length = buffer.bytes.length

section Loops

variable {buffer front rest unit : List UInt8}

theorem untilSeparator_of_ne {pos : ℕ} {c : UInt8} (hc : buffer[pos]? = some c) (hzero : c ≠ 0)
    (hsep : c ≠ G_CLIARGS_SEPARATOR) :
    untilSeparator buffer pos = untilSeparator buffer (pos + 1) := by
  obtain ⟨hpos, rfl⟩ := List.getElem?_eq_some_iff.mp hc
  rw [untilSeparator, dif_pos hpos, if_neg hzero, if_neg hsep]

/-- The inner loops walk through a field to what stands behind it. -/
theorem untilSeparator_unit (front : List UInt8) (hsep : G_CLIARGS_SEPARATOR ∉ unit)
    (hzero : 0 ∉ unit) {c : UInt8} (hc : c = 0 ∨ c = G_CLIARGS_SEPARATOR) (rest : List UInt8) :
    untilSeparator (front ++ (unit ++ c :: rest)) front.length =
      some (front.length + unit.length) := by
  induction unit generalizing front with
  | nil =>
    rw [untilSeparator, dif_pos (by simp)]
    rcases hc with rfl | rfl <;> simp
  | cons a unit ih =>
    rw [List.mem_cons, not_or] at hsep hzero
    have hget : (front ++ (a :: unit ++ c :: rest))[front.length]? = some a := by simp
    have hnext := ih (front ++ [a]) hsep.2 hzero.2
    simp only [List.append_assoc, List.singleton_append, List.length_append,
      List.length_singleton] at hnext
    rw [untilSeparator_of_ne hget (Ne.symm hzero.1) (Ne.symm hsep.1), List.cons_append, hnext,
      List.length_cons]
    congr 1
    omega

theorem pastSeparator_last (front : List UInt8) (hsep : G_CLIARGS_SEPARATOR ∉ unit)
    (hzero : 0 ∉ unit) (rest : List UInt8) :
    pastSeparator (front ++ (unit ++ 0 :: rest)) front.length =
      some (front.length + unit.length) := by
  have hget : (front ++ (unit ++ 0 :: rest))[front.length + unit.length]? = some 0 := by simp
  rw [pastSeparator_eq, untilSeparator_unit front hsep hzero (Or.inl rfl) rest, Option.map_some,
    if_pos hget]

theorem pastSeparator_unit (front : List UInt8) (hsep : G_CLIARGS_SEPARATOR ∉ unit)
    (hzero : 0 ∉ unit) (rest : List UInt8) :
    pastSeparator (front ++ (unit ++ G_CLIARGS_SEPARATOR :: rest)) front.length =
      some (front.length + unit.length + 1) := by
  have hget : (front ++ (unit ++ G_CLIARGS_SEPARATOR :: rest))[front.length + unit.length]? =
      some G_CLIARGS_SEPARATOR := by simp
  have hne : (front ++ (unit ++ G_CLIARGS_SEPARATOR :: rest))[front.length + unit.length]? ≠
      some 0 := by
    rw [hget]
    decide
  rw [pastSeparator_eq, untilSeparator_unit front hsep hzero (Or.inr rfl) rest, Option.map_some,
    if_neg hne]

/-- A round begins at a character that is not the terminator. -/
theorem first_of_ne_nil {s : List UInt8} (hs : 0 ∉ s) (hne : s ≠ []) (front rest : List UInt8) :
    ∃ c, (front ++ (s ++ rest))[front.length]? = some c ∧ c ≠ 0 := by
  obtain ⟨c, s, rfl⟩ := List.exists_cons_of_ne_nil hne
  refine ⟨c, by simp, ?_⟩
  rintro rfl
  exact hs List.mem_cons_self

theorem countLoop_end {pos : ℕ} (h : buffer[pos]? = some 0) (argc : ℕ) :
    countLoop buffer pos argc = some argc := by
  obtain ⟨hpos, hzero⟩ := List.getElem?_eq_some_iff.mp h
  rw [countLoop, dif_pos hpos, dif_pos hzero]

theorem countLoop_next {pos next : ℕ} {c : UInt8} (hc : buffer[pos]? = some c) (hzero : c ≠ 0)
    (hnext : pastSeparator buffer pos = some next) (argc : ℕ) :
    countLoop buffer pos argc = countLoop buffer next (argc + 1) := by
  obtain ⟨hpos, rfl⟩ := List.getElem?_eq_some_iff.mp hc
  rw [countLoop, dif_pos hpos, dif_neg hzero]
  split
  · simp_all
  · simp_all

/-- The counting loop counts the fields of the line. -/
theorem countLoop_eq (s front rest : List UInt8) (hs : 0 ∉ s) (argc : ℕ) :
    countLoop (front ++ (s ++ 0 :: rest)) front.length argc =
      some (argc + (fields G_CLIARGS_SEPARATOR s).length) := by
  induction s using line_induction G_CLIARGS_SEPARATOR generalizing front argc with
  | nil =>
    have hget : (front ++ ([] ++ 0 :: rest))[front.length]? = some 0 := by simp
    rw [countLoop_end hget, fields_nil]
    rfl
  | last unit hsep hne =>
    obtain ⟨c, hget, hc⟩ := first_of_ne_nil hs hne front (0 :: rest)
    have hend : (front ++ (unit ++ 0 :: rest))[front.length + unit.length]? = some 0 := by simp
    rw [countLoop_next hget hc (pastSeparator_last front hsep hs rest), countLoop_end hend,
      fields_of_notMem hsep hne]
    rfl
  | cons unit s hsep ih =>
    obtain ⟨c, hget, hc⟩ := first_of_ne_nil hs (by simp) front (0 :: rest)
    rw [List.mem_append, List.mem_cons, not_or, not_or] at hs
    have hround := pastSeparator_unit front hsep hs.1 (s ++ 0 :: rest)
    have hrest := ih (front ++ (unit ++ [G_CLIARGS_SEPARATOR])) hs.2.2 (argc + 1)
    simp only [List.append_assoc, List.cons_append, List.nil_append, List.length_append,
      List.length_singleton, ← Nat.add_assoc] at hround hrest hget ⊢
    rw [countLoop_next hget hc hround, hrest, fields_append_cons hsep, List.length_cons]
    congr 1
    omega

variable {argv : Slots} {pos stop argpp : ℕ}

theorem splitLoop_end (h : buffer[pos]? = some 0) (argv : Slots) (argpp : ℕ) :
    splitLoop buffer argv pos argpp = some (buffer, argv, argpp) := by
  obtain ⟨hpos, hzero⟩ := List.getElem?_eq_some_iff.mp h
  rw [splitLoop, dif_pos hpos, if_pos hzero]

/-- A round of the splitting loop, which is the last one where the line ends. -/
theorem splitLoop_round {c : UInt8} (hc : buffer[pos]? = some c) (hzero : c ≠ 0)
    (hslot : argpp < argv.length) (hstop : untilSeparator buffer pos = some stop) :
    splitLoop buffer argv pos argpp =
      if buffer[stop]? = some 0 then
        some (buffer, argv.set argpp (some (Pointer.line pos)), argpp + 1)
      else
        splitLoop (buffer.set stop 0) (argv.set argpp (some (Pointer.line pos))) (stop + 1)
          (argpp + 1) := by
  obtain ⟨hpos, rfl⟩ := List.getElem?_eq_some_iff.mp hc
  have hstore : store argv argpp (Pointer.line pos) =
      some (argv.set argpp (some (Pointer.line pos))) := if_pos hslot
  rw [splitLoop, dif_pos hpos, if_neg hzero]
  split
  · simp_all
  · simp_all

/-- Where the arguments begin. -/
def starts (pos : ℕ) : List (List UInt8) → List ℕ
  | [] => []
  | unit :: units => pos :: starts (pos + unit.length + 1) units

def pointers (pos : ℕ) (units : List (List UInt8)) : Slots :=
  (starts pos units).map fun offset => some (Pointer.line offset)

/-- The arguments as they lie behind each other in memory. -/
def terminated (units : List (List UInt8)) : List UInt8 := units.flatMap (· ++ [0])

@[simp] theorem pointers_nil (pos : ℕ) : pointers pos [] = [] := rfl

@[simp] theorem pointers_cons (pos : ℕ) (unit : List UInt8) (units : List (List UInt8)) :
    pointers pos (unit :: units) =
      some (Pointer.line pos) :: pointers (pos + unit.length + 1) units :=
  rfl

@[simp] theorem terminated_nil : terminated [] = [] := rfl

@[simp] theorem terminated_cons (unit : List UInt8) (units : List (List UInt8)) :
    terminated (unit :: units) = unit ++ [0] ++ terminated units :=
  rfl

/-- The splitting loop fills one slot for each field and ends each field. -/
theorem splitLoop_eq (s front rest : List UInt8) (hs : 0 ∉ s) (done used free : Slots)
    (hused : used.length = (fields G_CLIARGS_SEPARATOR s).length) :
    ∃ rest', splitLoop (front ++ (s ++ 0 :: rest)) (done ++ (used ++ free)) front.length
        done.length =
      some (front ++ (terminated (fields G_CLIARGS_SEPARATOR s) ++ rest'),
        done ++ (pointers front.length (fields G_CLIARGS_SEPARATOR s) ++ free),
        done.length + (fields G_CLIARGS_SEPARATOR s).length) ∧
      (terminated (fields G_CLIARGS_SEPARATOR s) ++ rest').length = (s ++ 0 :: rest).length := by
  induction s using line_induction G_CLIARGS_SEPARATOR
    generalizing front done used with
  | nil =>
    have hget : (front ++ ([] ++ 0 :: rest))[front.length]? = some 0 := by simp
    obtain rfl := List.length_eq_zero_iff.mp (hused.trans (by rw [fields_nil]; rfl))
    refine ⟨0 :: rest, ?_, by simp⟩
    rw [splitLoop_end hget, fields_nil]
    simp
  | last unit hsep hne =>
    rw [fields_of_notMem hsep hne] at hused ⊢
    obtain ⟨slot, rfl⟩ := List.length_eq_one_iff.mp hused
    obtain ⟨c, hget, hc⟩ := first_of_ne_nil hs hne front (0 :: rest)
    have hend : (front ++ (unit ++ 0 :: rest))[front.length + unit.length]? = some 0 := by simp
    refine ⟨rest, ?_, by simp⟩
    rw [splitLoop_round hget hc (by simp) (untilSeparator_unit front hsep hs (Or.inl rfl) rest),
      if_pos hend]
    simp
  | cons unit s hsep ih =>
    rw [fields_append_cons hsep] at hused ⊢
    obtain ⟨slot, used, rfl⟩ := List.exists_cons_of_length_eq_add_one hused
    obtain ⟨c, hget, hc⟩ := first_of_ne_nil hs (by simp) front (0 :: rest)
    rw [List.mem_append, List.mem_cons, not_or, not_or] at hs
    have hstop := untilSeparator_unit front hsep hs.1 (Or.inr rfl) (s ++ 0 :: rest)
    have hne : (front ++ (unit ++ G_CLIARGS_SEPARATOR :: (s ++ 0 :: rest)))[front.length +
        unit.length]? ≠ some 0 := by
      simp [G_CLIARGS_SEPARATOR]
    obtain ⟨rest', hrest, hlen⟩ := ih (front ++ (unit ++ [0])) hs.2.2
      (done ++ [some (Pointer.line front.length)]) used (Nat.succ.inj hused)
    refine ⟨rest', ?_, ?_⟩
    · simp only [List.append_assoc, List.cons_append, List.nil_append, List.length_append,
        List.length_singleton, ← Nat.add_assoc] at hrest hget ⊢
      rw [splitLoop_round hget hc (by simp) hstop, if_neg hne]
      have hset : (front ++ (unit ++ G_CLIARGS_SEPARATOR :: (s ++ 0 :: rest))).set
          (front.length + unit.length) 0 = front ++ (unit ++ 0 :: (s ++ 0 :: rest)) := by simp
      have hslot : (done ++ slot :: (used ++ free)).set done.length
          (some (Pointer.line front.length)) =
            done ++ some (Pointer.line front.length) :: (used ++ free) := by simp
      rw [hset, hslot, hrest, terminated_cons, pointers_cons, List.length_cons,
        Nat.add_right_comm done.length 1]
      simp only [List.append_assoc, List.cons_append, List.nil_append, Nat.add_assoc]
    · rw [terminated_cons, List.append_assoc, List.length_append, hlen]
      simp only [List.length_append, List.length_cons, List.length_nil]
      omega

/-- Moving a string one place to the left doubles its terminator. -/
theorem shiftLoop_eq (front : List UInt8) (c : UInt8) (tail back : List UInt8) (arg x : ℕ)
    (hfront : arg + x = front.length) :
    shiftLoop (front ++ (c :: tail ++ 0 :: back)) arg x (x + (c :: tail).length) =
      some (front ++ (tail ++ 0 :: 0 :: back)) := by
  induction tail generalizing front c x with
  | nil =>
    have hget : (front ++ ([c] ++ 0 :: back))[arg + (x + 1)]? = some 0 := by
      rw [← Nat.add_assoc, hfront]
      simp
    rw [shiftLoop, if_pos (by simp), hget]
    simp only [hfront]
    rw [shiftLoop, if_neg (by simp)]
    simp
  | cons d tail ih =>
    have hget : (front ++ (c :: d :: tail ++ 0 :: back))[arg + (x + 1)]? = some d := by
      rw [← Nat.add_assoc, hfront]
      simp
    have hnext := ih (front ++ [d]) d (x + 1) (by simp [← hfront, Nat.add_assoc])
    have hset : (front ++ (c :: d :: tail ++ 0 :: back)).set front.length d =
        front ++ [d] ++ (d :: tail ++ 0 :: back) := by simp
    have hlen : x + (c :: d :: tail).length = x + 1 + (d :: tail).length := by
      simp only [List.length_cons]
      omega
    rw [shiftLoop, if_pos (by simp), hget, hfront]
    simp only [hset]
    rw [hlen, hnext]
    simp

/-- An argument in its memory after the cleanup. -/
def cleaned (unit : List UInt8) : List UInt8 :=
  unquoted false unit ++ List.replicate (unit.length + 1 - (unquoted false unit).length) 0

theorem length_cleaned (unit : List UInt8) : (cleaned unit).length = unit.length + 1 := by
  have hle := length_unquoted_le false unit
  rw [cleaned, List.length_append, List.length_replicate]
  omega

theorem cleaned_terminated (unit : List UInt8) :
    ∃ zeros, cleaned unit = unquoted false unit ++ 0 :: zeros := by
  have hle := length_unquoted_le false unit
  refine ⟨List.replicate (unit.length - (unquoted false unit).length) 0, ?_⟩
  rw [cleaned, Nat.sub_add_comm hle, List.replicate_succ]

/-- The cleanup keeps what it has passed and unquotes the rest. Each character
that is removed leaves one more terminator behind the argument. -/
theorem cleanLoop_eq (front done todo back : List UInt8) (k : ℕ) (esc : Bool) :
    cleanLoop (front ++ (done ++ (todo ++ (List.replicate (k + 1) 0 ++ back)))) front.length
        done.length (done.length + todo.length) esc =
      some (front ++ (done ++ (unquoted esc todo ++
        (List.replicate (k + 1 + (todo.length - (unquoted esc todo).length)) 0 ++ back)))) := by
  induction todo generalizing done k esc with
  | nil => rw [cleanLoop, if_neg (by simp), unquoted]; rfl
  | cons c todo ih =>
    have hget : (front ++ (done ++ (c :: todo ++ (List.replicate (k + 1) 0 ++ back))))[
        front.length + done.length]? = some c := by simp
    have hshift : shiftLoop (front ++ (done ++ (c :: todo ++ (List.replicate (k + 1) 0 ++ back))))
        front.length done.length (done.length + (c :: todo).length) =
          some (front ++ (done ++ (todo ++ (List.replicate (k + 1 + 1) 0 ++ back)))) := by
      have hmoved := shiftLoop_eq (front ++ done) c todo (List.replicate k 0 ++ back) front.length
        done.length List.length_append.symm
      simpa only [List.append_assoc, List.replicate_succ, List.cons_append] using hmoved
    have hremoved (esc' : Bool) : k + 1 + ((c :: todo).length - (unquoted esc' todo).length) =
        k + 1 + 1 + (todo.length - (unquoted esc' todo).length) := by
      have hle := length_unquoted_le esc' todo
      rw [List.length_cons]
      omega
    have hlen : done.length + (c :: todo).length - 1 = done.length + todo.length := rfl
    rw [cleanLoop, if_pos (by simp), hget, unquoted, hshift, hlen]
    simp only [ih]
    split
    · rw [hremoved]
    · split
      · rw [hremoved]
      · have hkept := ih (done ++ [c]) k false
        rw [List.length_append, List.length_singleton, Nat.add_assoc, Nat.add_comm 1] at hkept
        simpa only [List.append_assoc, List.cons_append, List.nil_append, List.length_cons,
          Nat.add_sub_add_right] using hkept

theorem cleanArguments_eq (front back : List UInt8) (units : List (List UInt8))
    (hunits : ∀ unit ∈ units, 0 ∉ unit) (done behind : Slots) :
    cleanArguments (done ++ (pointers front.length units ++ behind)) (done.length + units.length)
        done.length (front ++ (terminated units ++ back)) =
      some (front ++ (units.flatMap cleaned ++ back)) := by
  induction units generalizing front done with
  | nil =>
    rw [cleanArguments, if_neg (by simp)]
    rfl
  | cons unit units ih =>
    have hunit := hunits unit List.mem_cons_self
    have hget : (done ++ (pointers front.length (unit :: units) ++ behind))[done.length]? =
        some (some (Pointer.line front.length)) := by simp
    have hlen : strlen ((front ++ (terminated (unit :: units) ++ back)).drop front.length) =
        some unit.length := by
      have hstr := strlen_terminated hunit (terminated units ++ back)
      simpa using hstr
    have hclean : cleanLoop (front ++ (terminated (unit :: units) ++ back)) front.length 0
        unit.length false = some (front ++ (cleaned unit ++ (terminated units ++ back))) := by
      have hle := length_unquoted_le false unit
      have hloop := cleanLoop_eq front [] unit (terminated units ++ back) 0 false
      rw [← Nat.add_sub_assoc hle, Nat.zero_add, Nat.add_comm 1] at hloop
      simpa [cleaned] using hloop
    have hrest := ih (front ++ cleaned unit) (fun u hu => hunits u (List.mem_cons_of_mem unit hu))
      (done ++ [some (Pointer.line front.length)])
    rw [List.length_append, length_cleaned, List.length_append, List.length_singleton] at hrest
    rw [cleanArguments, if_pos (by simp), hget]
    simp only [hlen, hclean, pointers_cons, List.flatMap_cons, List.length_cons]
    simpa only [List.append_assoc, List.cons_append, List.nil_append, Nat.add_assoc,
      Nat.add_comm 1] using hrest

theorem pointers_getElem? {units : List (List UInt8)} {i : ℕ} (hi : i < units.length) (pos : ℕ) :
    (pointers pos units)[i]? =
      some (some (Pointer.line (pos + (terminated (units.take i)).length))) := by
  induction units generalizing pos i with
  | nil => exact absurd hi (Nat.not_lt_zero i)
  | cons unit units ih =>
    cases i with
    | zero => rfl
    | succ i =>
      have hrest := ih (Nat.lt_of_succ_lt_succ hi) (pos + unit.length + 1)
      rw [pointers_cons, List.getElem?_cons_succ, hrest, List.take_succ_cons, terminated_cons]
      simp only [List.length_append, List.length_singleton, Nat.add_assoc]

/-- Each field is found where its argument begins. -/
theorem field_stands (s : List UInt8) {i : ℕ} {unit : List UInt8}
    (h : (fields G_CLIARGS_SEPARATOR s)[i]? = some unit) :
    (terminated ((fields G_CLIARGS_SEPARATOR s).take i)).length < s.length ∧
      unit <+: s.drop (terminated ((fields G_CLIARGS_SEPARATOR s).take i)).length := by
  induction s using line_induction G_CLIARGS_SEPARATOR generalizing i with
  | nil => simp at h
  | last field hsep hne =>
    rw [fields_of_notMem hsep hne] at h ⊢
    rw [List.getElem?_singleton] at h
    split at h
    · obtain rfl := Option.some.inj h
      rename_i hi
      rw [hi]
      exact ⟨List.length_pos_of_ne_nil hne, List.prefix_refl field⟩
    · cases h
  | cons field s hsep ih =>
    rw [fields_append_cons hsep] at h ⊢
    cases i with
    | zero =>
      obtain rfl := Option.some.inj h
      exact ⟨List.length_pos_of_ne_nil (by simp), List.prefix_append _ _⟩
    | succ i =>
      obtain ⟨hlt, hstands⟩ := ih h
      rw [List.take_succ_cons, terminated_cons, List.length_append, List.length_append,
        List.length_singleton]
      constructor
      · simp only [List.length_append, List.length_cons]
        omega
      · rw [List.append_cons, ← List.length_singleton (a := G_CLIARGS_SEPARATOR),
          ← List.length_append, List.drop_length_add_append]
        exact hstands

/-- The memory after the cleanup, from the beginning of an argument on. -/
theorem drop_cleaned {units : List (List UInt8)} {i : ℕ} {unit : List UInt8}
    (h : units[i]? = some unit) (rest : List UInt8) :
    ∃ back, (units.flatMap cleaned ++ rest).drop (terminated (units.take i)).length =
      unquoted false unit ++ 0 :: back := by
  induction units generalizing i with
  | nil => simp at h
  | cons first units ih =>
    cases i with
    | zero =>
      obtain rfl := Option.some.inj h
      obtain ⟨zeros, hzeros⟩ := cleaned_terminated first
      refine ⟨zeros ++ (units.flatMap cleaned ++ rest), ?_⟩
      rw [List.flatMap_cons, hzeros]
      simp
    | succ i =>
      obtain ⟨back, hback⟩ := ih h
      refine ⟨back, ?_⟩
      have hlen := length_cleaned first
      rw [List.take_succ_cons, terminated_cons, List.flatMap_cons, List.length_append,
        List.length_append, List.length_singleton, ← hlen, List.append_assoc,
        List.drop_length_add_append]
      exact hback

theorem length_flatMap_cleaned (units : List (List UInt8)) :
    (units.flatMap cleaned).length = (terminated units).length := by
  induction units with
  | nil => rfl
  | cons unit units ih =>
    rw [List.flatMap_cons, terminated_cons, List.length_append, List.length_append, ih,
      length_cleaned, List.length_append, List.length_singleton]

theorem mem_of_mem_unquoted {c : UInt8} {esc : Bool} {arg : List UInt8}
    (h : c ∈ unquoted esc arg) : c ∈ arg := by
  induction arg generalizing esc with
  | nil => exact h
  | cons d arg ih =>
    unfold unquoted at h
    split at h
    · exact List.mem_cons_of_mem d (ih h)
    · split at h
      · exact List.mem_cons_of_mem d (ih h)
      · rcases List.mem_cons.mp h with rfl | h
        · exact List.mem_cons_self
        · exact List.mem_cons_of_mem d (ih h)

end Loops

/-- The state of the buffer: the text, its terminator and whatever lies behind. -/
theorem DeliveredLine.exists_text (buffer : DeliveredLine) :
    ∃ s rest, buffer.bytes = s ++ 0 :: rest ∧ 0 ∉ s ∧ cString buffer.bytes = s := by
  obtain ⟨s, rest, hbytes, hs⟩ := List.eq_append_cons_of_mem buffer.terminated
  refine ⟨s, rest, hbytes, hs, ?_⟩
  rw [hbytes]
  exact cString_terminated hs

theorem DeliveredLine.countLoop_eq (buffer : DeliveredLine) :
    countLoop buffer.bytes 0 1 = some (buffer.arguments.length + 1) := by
  obtain ⟨s, rest, hbytes, hs, htext⟩ := buffer.exists_text
  have hcount := InPlace.countLoop_eq s [] rest hs 1
  rw [hbytes, DeliveredLine.arguments, htext, Nat.add_comm _ 1]
  exact hcount

theorem zero_notMem_of_mem_arguments {buffer : DeliveredLine} {argument : List UInt8}
    (h : argument ∈ buffer.arguments) : 0 ∉ argument := by
  obtain ⟨s, rest, hbytes, hs, htext⟩ := buffer.exists_text
  obtain ⟨i, hi⟩ := List.getElem?_of_mem h
  rw [DeliveredLine.arguments, htext] at hi
  have hstands := (field_stands s hi).2
  intro hzero
  exact hs (List.mem_of_mem_drop (hstands.subset hzero))

theorem length_pointers (pos : ℕ) (units : List (List UInt8)) :
    (pointers pos units).length = units.length := by
  induction units generalizing pos with
  | nil => rfl
  | cons unit units ih => rw [pointers_cons, List.length_cons, ih, List.length_cons]

/-- The loops of `parseargs` with the memory that is allocated between them. -/
theorem loops_eq (execName : Pointer) (buffer : DeliveredLine) :
    ∃ argv rest, store (List.replicate (buffer.arguments.length + 1 + 1) none) 0 execName =
        some argv ∧
      splitLoop buffer.bytes argv 0 1 = some (terminated buffer.arguments ++ rest,
        some execName :: (pointers 0 buffer.arguments ++ [none]), buffer.arguments.length + 1) ∧
      (terminated buffer.arguments ++ rest).length = buffer.bytes.length := by
  obtain ⟨s, rest, hbytes, hs, htext⟩ := buffer.exists_text
  have harguments : buffer.arguments = fields G_CLIARGS_SEPARATOR s := by
    rw [DeliveredLine.arguments, htext]
  obtain ⟨rest', hsplit, hlen⟩ := splitLoop_eq s [] rest hs [some execName]
    (List.replicate buffer.arguments.length none) [none] (by rw [List.length_replicate, harguments])
  refine ⟨some execName :: (List.replicate buffer.arguments.length none ++ [none]), rest', ?_, ?_,
    ?_⟩
  · rw [store, if_pos (by simp), List.replicate_succ, List.set_cons_zero, List.replicate_succ']
  · rw [hbytes, Nat.add_comm _ 1, harguments] at *
    exact hsplit
  · rw [hbytes, harguments, hlen]

/-- A run of `parseargs` whose allocations succeed. -/
theorem parseargs_eq {malloc : ℕ → Bool} (execName : Pointer) (buffer : DeliveredLine)
    (hline : malloc G_CLIARGS_BUFFER_LENGTH = true)
    (hargv : malloc (8 * (buffer.arguments.length + 1 + 1)) = true) :
    ∃ rest, parseargs malloc execName buffer = some (some
        { argc := buffer.arguments.length + 1
          argv := some execName :: (pointers 0 buffer.arguments ++ [some Pointer.null])
          line := buffer.arguments.flatMap cleaned ++ rest }) ∧
      (buffer.arguments.flatMap cleaned ++ rest).length = buffer.bytes.length := by
  obtain ⟨argv, rest, hstore, hsplit, hlen⟩ := loops_eq execName buffer
  have hnull : store (some execName :: (pointers 0 buffer.arguments ++ [none]))
      (buffer.arguments.length + 1) Pointer.null =
        some (some execName :: (pointers 0 buffer.arguments ++ [some Pointer.null])) := by
    have hlen := length_pointers 0 buffer.arguments
    rw [store, if_pos (by simp [hlen]), List.set_cons_succ, ← hlen]
    simp
  have hclean : cleanArguments (some execName :: (pointers 0 buffer.arguments ++
      [some Pointer.null])) (buffer.arguments.length + 1) 1 (terminated buffer.arguments ++ rest) =
        some (buffer.arguments.flatMap cleaned ++ rest) := by
    have hloop := cleanArguments_eq [] rest buffer.arguments
      (fun _ => zero_notMem_of_mem_arguments) [some execName] [some Pointer.null]
    rw [List.length_singleton, Nat.add_comm 1] at hloop
    exact hloop
  refine ⟨rest, ?_, ?_⟩
  · unfold parseargs
    simp only [hline, hargv, buffer.countLoop_eq, hstore, hsplit, hnull, hclean, Bool.true_eq_false,
      if_false, Option.map_some]
  · rw [← hlen, List.length_append, List.length_append, length_flatMap_cleaned]

/-- What a failed allocation leads to. -/
theorem parseargs_out_of_memory {malloc : ℕ → Bool} (execName : Pointer) (buffer : DeliveredLine)
    (h : malloc G_CLIARGS_BUFFER_LENGTH = false ∨
      malloc (8 * (buffer.arguments.length + 1 + 1)) = false) :
    parseargs malloc execName buffer = some none := by
  unfold parseargs
  by_cases hline : malloc G_CLIARGS_BUFFER_LENGTH = false
  · rw [if_pos hline]
  · rw [if_neg hline, buffer.countLoop_eq]
    exact if_pos (h.resolve_left hline)

theorem pointsTo (buffer : DeliveredLine) (execName : Pointer) (rest : List UInt8) {i : ℕ}
    {argument : List UInt8} (h : buffer.arguments[i]? = some argument) :
    PointsTo buffer
      { argc := buffer.arguments.length + 1
        argv := some execName :: (pointers 0 buffer.arguments ++ [some Pointer.null])
        line := buffer.arguments.flatMap cleaned ++ rest } (i + 1) argument
      (terminated (buffer.arguments.take i)).length := by
  have hi : i < buffer.arguments.length := (List.getElem?_eq_some_iff.mp h).1
  have hzero := zero_notMem_of_mem_arguments (List.mem_of_getElem? h)
  have hunquoted : 0 ∉ unquoted false argument := fun hmem => hzero (mem_of_mem_unquoted hmem)
  obtain ⟨hinside, hstands⟩ := field_stands (cString buffer.bytes) h
  obtain ⟨back, hback⟩ := drop_cleaned h rest
  refine ⟨?_, hinside, hstands, ?_, ?_, length_unquoted_le false argument⟩
  · have hslot := pointers_getElem? hi 0
    rw [Nat.zero_add] at hslot
    rw [List.getElem?_cons_succ, List.getElem?_append_left (by rw [length_pointers]; exact hi),
      hslot]
  · rw [hback]
    exact strlen_terminated hunquoted back
  · rw [hback]
    exact cString_terminated hunquoted

/-- `parseargs` returns -1 if an allocation fails. Otherwise the vector has one
slot for each argument of the line between the name and the NULL pointer, and
every argument stands in the line as it is meant. -/
theorem parseargs_builds (malloc : ℕ → Bool) (execName : Pointer) (buffer : DeliveredLine) :
    (parseargs malloc execName buffer = some none ∧
      (malloc G_CLIARGS_BUFFER_LENGTH = false ∨
        malloc (8 * (buffer.arguments.length + 1 + 1)) = false)) ∨
    ∃ built, parseargs malloc execName buffer = some (some built) ∧
      Built execName buffer built := by
  by_cases hmalloc : malloc G_CLIARGS_BUFFER_LENGTH = false ∨
      malloc (8 * (buffer.arguments.length + 1 + 1)) = false
  · exact Or.inl ⟨parseargs_out_of_memory execName buffer hmalloc, hmalloc⟩
  · rw [not_or, Bool.not_eq_false, Bool.not_eq_false] at hmalloc
    obtain ⟨rest, hparse, hlen⟩ := parseargs_eq execName buffer hmalloc.1 hmalloc.2
    have hpointers := length_pointers 0 buffer.arguments
    refine Or.inr ⟨_, hparse, rfl, ?_, rfl, ?_, ?_, hlen⟩
    · simp only [List.length_cons, List.length_append, hpointers, List.length_nil]
    · intro i argument h
      exact ⟨_, pointsTo buffer execName rest h⟩
    · rw [List.getElem?_cons_succ, ← hpointers]
      simp

/-- The string that a slot points to. -/
def slotString (buffer : List UInt8) : Option Pointer → Option (List UInt8)
  | some (Pointer.name text) => some text
  | some (Pointer.line offset) => some (cString (buffer.drop offset))
  | _ => none

def ArgumentVector.strings (built : ArgumentVector) : List (List UInt8) :=
  built.argv.filterMap (slotString built.line)

theorem strings_pointers (front rest : List UInt8) (units : List (List UInt8))
    (hunits : ∀ unit ∈ units, 0 ∉ unit) :
    (pointers front.length units).filterMap
        (slotString (front ++ (units.flatMap cleaned ++ rest))) =
      units.map (unquoted false) := by
  induction units generalizing front with
  | nil => rfl
  | cons unit units ih =>
    obtain ⟨zeros, hzeros⟩ := cleaned_terminated unit
    have hfirst : cString (unquoted false unit ++ 0 :: (zeros ++ (units.flatMap cleaned ++ rest))) =
        unquoted false unit :=
      cString_terminated fun hmem => hunits unit List.mem_cons_self (mem_of_mem_unquoted hmem)
    have hrest := ih (front ++ cleaned unit)
      (fun u hu => hunits u (List.mem_cons_of_mem unit hu))
    rw [List.length_append, length_cleaned, List.append_assoc, ← Nat.add_assoc] at hrest
    rw [pointers_cons, List.flatMap_cons, List.append_assoc, List.filterMap_cons, hrest,
      List.map_cons, hzeros]
    simp only [slotString, List.drop_left, List.append_assoc, List.cons_append, hfirst]

/-- Read as strings, the vector is what taking the line apart as a list yields. -/
theorem parseargs_refines (malloc : ℕ → Bool) (text : List UInt8) (buffer : DeliveredLine) :
    (parseargs malloc (Pointer.name text) buffer).map
        (Option.map fun built => (built.argc, built.strings)) =
      some (Process.parseargs malloc text buffer.bytes) := by
  have hcount : countArguments (cString buffer.bytes) 1 + 1 = buffer.arguments.length + 1 + 1 := by
    rw [countArguments_eq, Nat.add_comm 1]
    rfl
  by_cases hline : malloc G_CLIARGS_BUFFER_LENGTH = false
  · rw [parseargs_out_of_memory _ buffer (Or.inl hline), Process.parseargs, if_pos hline]
    rfl
  · by_cases hargv : malloc (8 * (buffer.arguments.length + 1 + 1)) = false
    · rw [parseargs_out_of_memory _ buffer (Or.inr hargv), Process.parseargs, if_neg hline]
      simp only [hcount, if_pos hargv]
      rfl
    · have hlist : Process.parseargs malloc text buffer.bytes =
          Process.parseargs (fun _ => true) text buffer.bytes := by
        rw [Process.parseargs, Process.parseargs, if_neg hline]
        simp only [hcount, if_neg hargv, Bool.true_eq_false, if_false]
      rw [Bool.not_eq_false] at hline hargv
      obtain ⟨rest, hparse, _⟩ := parseargs_eq (Pointer.name text) buffer hline hargv
      have hstrings := strings_pointers [] rest buffer.arguments
        (fun _ => zero_notMem_of_mem_arguments)
      rw [hparse, hlist, Process.parseargs_eq fun _ => rfl]
      simp only [List.nil_append, List.length_nil] at hstrings
      simp only [Option.map_some, ArgumentVector.strings, List.filterMap_cons,
        List.filterMap_append, hstrings]
      simp only [slotString, List.filterMap_nil, List.append_nil]
      rfl

end Heartix.Process.InPlace
