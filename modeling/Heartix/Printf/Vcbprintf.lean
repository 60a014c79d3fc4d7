import Heartix.Printf.Directive

/-!
The formatting engine and the functions that use it. The engine passes its
output to a callback; one callback stores it in a buffer of limited size, and
the allocating function formats twice, the first time for the size.
-/

namespace Heartix.Printf

variable {σ : Type*}

/-- The state of the callback, the count, and what `%n` has stored. -/
structure Output (σ : Type*) where
  sink : σ
  written : ℤ
  counts : List (BitVec 64 × ℤ)

def Output.start (sink : σ) : Output σ := ⟨sink, 0, []⟩

/-- Whether all sites are passed on. The callback returns how much it accepts. -/
def emit (callback : σ → List UInt8 → ℤ × σ) : List Site → Output σ → Bool × Output σ
  | [], o => (true, o)
  | site :: sites, o =>
      match callback o.sink site.chunk with
      | (accepted, sink) =>
          if accepted ≠ site.chunk.length then (false, { o with sink := sink })
          else emit callback sites { o with
            sink := sink
            written := (o.written + site.added).bmod (2 ^ 32) }

/-- The loop over the format. The first number bounds the rounds. Undefined at a
conversion of a floating point number. -/
def vcbprintfLoop (callback : σ → List UInt8 → ℤ × σ) (strings : BitVec 64 → List UInt8) :
    ℕ → List UInt8 → VaList → Output σ → Option (ℤ × Output σ)
  | 0, _, _, _ => none
  | fuel + 1, s, args, o =>
      match directive strings s args with
      | (.ended, _, _) => some (o.written, o)
      | (.invalid, _, _) => some (-1, o)
      | (.floating, _, _) => none
      | (.sites sites, s, args) =>
          match emit callback sites o with
          | (false, o) => some (-1, o)
          | (true, o) =>
              match step s with
              | none => some (o.written, o)
              | some s => vcbprintfLoop callback strings fuel s args o
      | (.count address, s, args) =>
          let counted := { o with counts := o.counts ++ [(address, o.written)] }
          match step s with
          | none => some (counted.written, counted)
          | some s => vcbprintfLoop callback strings fuel s args counted

/-- The engine: the return value, and the state of the callback. -/
def vcbprintf (callback : σ → List UInt8 → ℤ × σ) (param : σ)
    (strings : BitVec 64 → List UInt8) (format : List UInt8) (arglist : VaList) :
    Option (ℤ × Output σ) :=
  vcbprintfLoop callback strings (format.length + 1) format arglist (.start param)

def Action.isFloating : Action → Bool
  | .floating => true
  | _ => false

/-- The directives of a format, whether the engine gets to them or not. -/
def directives (strings : BitVec 64 → List UInt8) : ℕ → List UInt8 → VaList → List Action
  | 0, _, _ => []
  | fuel + 1, s, args =>
      match directive strings s args with
      | (action, s, args) =>
          action ::
            match step s with
            | none => []
            | some s => directives strings fuel s args

/-- Memory from some address on. -/
abbrev Memory := ℕ → UInt8

/-- The memory with the bytes at an offset. -/
def Memory.store (memory : Memory) (offset : ℕ) (bytes : List UInt8) : Memory := fun i =>
  if offset ≤ i then (bytes[i - offset]?).getD (memory i) else memory i

structure VsnprintfData where
  out : Memory
  maximum : ℕ
  written : ℕ
  produced : ℕ

def vsnprintfCallback (data : VsnprintfData) (str : List UInt8) : ℤ × VsnprintfData :=
  let stored :=
    if data.produced < data.maximum then
      let space := data.maximum - data.produced
      let writable := if str.length < space then str.length else space
      { data with
        out := data.out.store data.produced (str.take writable)
        written := (data.written + writable) % 2 ^ 64 }
    else data
  (str.length, { stored with produced := (stored.produced + str.length) % 2 ^ 64 })

def vsnprintf (strings : BitVec 64 → List UInt8) (s : Memory) (n : ℕ) (format : List UInt8)
    (arg : VaList) : Option (ℤ × Memory) :=
  let info : VsnprintfData :=
    { out := s, maximum := if n ≠ 0 then n - 1 else 0, written := 0, produced := 0 }
  match vcbprintf vsnprintfCallback info strings format arg with
  | none => none
  | some (result, o) =>
      let info := o.sink
      some (result, if n ≠ 0 then info.out.store info.written [0] else info.out)

/-- An allocated block: its size and its content. -/
structure Block where
  size : ℕ
  content : Memory

/-- The return value, and the string. `malloc` gives the content of a new block of
some size, `strp` tells whether there is a place for the string. -/
def vasprintf (malloc : ℕ → Option Memory) (strings : BitVec 64 → List UInt8) (null : Memory)
    (strp : Bool) (format : Option (List UInt8)) (arg : VaList) : Option (ℤ × Option Block) :=
  match strp, format with
  | true, some format =>
      match vsnprintf strings null 0 format arg with
      | none => none
      | some (needed, _) =>
          if needed < 0 then some (-1, none)
          else
            let size := (sizeT needed + 1) % 2 ^ 64
            match malloc size with
            | none => some (-1, none)
            | some buf =>
                match vsnprintf strings buf size format arg with
                | none => none
                | some (written, buf) =>
                    if written < 0 then some (-1, none) else some (written, some ⟨size, buf⟩)
  | _, _ => some (-1, none)

end Heartix.Printf
