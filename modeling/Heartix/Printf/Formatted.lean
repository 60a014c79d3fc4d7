import Heartix.Printf.Text

/-!
The engine with the conversions of floating point numbers, and the text that a format
describes. The text does not depend on the callback, as long as it accepts everything;
what the engine returns is the length of the text, or -1 where the format has an unknown
conversion.
-/

namespace Heartix.Printf

/-- What a conversion of a floating point number passes to the callback, if it comes to
an end. It is given the format and the arguments at the directive, and computes with the
numbers of the machine. -/
abbrev Floating := List UInt8 → VaList → Option (List (List UInt8))

/-- One round, with the floating point numbers. -/
def directiveWith (floating : Floating) (strings : BitVec 64 → List UInt8) (s : List UInt8)
    (args : VaList) : Action × List UInt8 × VaList :=
  match directive strings s args with
  | (.floating, t, rest) =>
      match floating s args with
      | none => (.floating, t, rest)
      | some chunks => (.sites (chunks.map fun chunk => ⟨chunk, chunk.length⟩), t, rest)
  | read => read

variable {σ : Type*}

/-- The loop over the format. The first number bounds the rounds. No result where a
conversion of a floating point number does not end. -/
def vcbprintfLoopWith (floating : Floating) (callback : σ → List UInt8 → ℤ × σ)
    (strings : BitVec 64 → List UInt8) :
    ℕ → List UInt8 → VaList → Output σ → Option (ℤ × Output σ)
  | 0, _, _, _ => none
  | fuel + 1, s, args, o =>
      match directiveWith floating strings s args with
      | (.ended, _, _) => some (o.written, o)
      | (.invalid, _, _) => some (-1, o)
      | (.floating, _, _) => none
      | (.sites sites, s, args) =>
          match emit callback sites o with
          | (false, o) => some (-1, o)
          | (true, o) =>
              match step s with
              | none => some (o.written, o)
              | some s => vcbprintfLoopWith floating callback strings fuel s args o
      | (.count address, s, args) =>
          let counted := { o with counts := o.counts ++ [(address, o.written)] }
          match step s with
          | none => some (counted.written, counted)
          | some s => vcbprintfLoopWith floating callback strings fuel s args counted

def vcbprintfWith (floating : Floating) (callback : σ → List UInt8 → ℤ × σ) (param : σ)
    (strings : BitVec 64 → List UInt8) (format : List UInt8) (arglist : VaList) :
    Option (ℤ × Output σ) :=
  vcbprintfLoopWith floating callback strings (format.length + 1) format arglist (.start param)

def vsnprintfWith (floating : Floating) (strings : BitVec 64 → List UInt8) (s : Memory) (n : ℕ)
    (format : List UInt8) (arg : VaList) : Option (ℤ × Memory) :=
  let info : VsnprintfData :=
    { out := s, maximum := if n ≠ 0 then n - 1 else 0, written := 0, produced := 0 }
  match vcbprintfWith floating vsnprintfCallback info strings format arg with
  | none => none
  | some (result, o) =>
      let info := o.sink
      some (result, if n ≠ 0 then info.out.store info.written [0] else info.out)

/-- The sites of a whole format, and whether all its conversions are known. -/
def formattedLoop (floating : Floating) (strings : BitVec 64 → List UInt8) :
    ℕ → List UInt8 → VaList → Option (Bool × List Site)
  | 0, _, _ => none
  | fuel + 1, s, args =>
      match directiveWith floating strings s args with
      | (.ended, _, _) => some (true, [])
      | (.invalid, _, _) => some (false, [])
      | (.floating, _, _) => none
      | (.sites sites, s, args) =>
          match step s with
          | none => some (true, sites)
          | some s =>
              (formattedLoop floating strings fuel s args).map fun (known, more) =>
                (known, sites ++ more)
      | (.count _, s, args) =>
          match step s with
          | none => some (true, [])
          | some s => formattedLoop floating strings fuel s args

/-- The text that a format describes, up to the first conversion that is not known. -/
def formatted (floating : Floating) (strings : BitVec 64 → List UInt8) (format : List UInt8)
    (arglist : VaList) : Option (Bool × List UInt8) :=
  (formattedLoop floating strings (format.length + 1) format arglist).map
    fun (known, sites) => (known, text sites)

section Engine

variable {floating : Floating} {strings : BitVec 64 → List UInt8}
  {callback : σ → List UInt8 → ℤ × σ}

/-- Where no floating point number is converted, the two engines are one. -/
theorem vcbprintfLoopWith_none (fuel : ℕ) (s : List UInt8) (args : VaList) (o : Output σ) :
    vcbprintfLoopWith (fun _ _ => none) callback strings fuel s args o =
      vcbprintfLoop callback strings fuel s args o := by
  induction fuel generalizing s args o with
  | zero => rfl
  | succ fuel ih =>
    have hsame : directiveWith (fun _ _ => none) strings s args = directive strings s args := by
      unfold directiveWith
      generalize directive strings s args = d
      obtain ⟨action, t, rest⟩ := d
      cases action with
      | _ => rfl
    unfold vcbprintfLoopWith vcbprintfLoop
    rw [hsame]
    generalize directive strings s args = d
    obtain ⟨action, t, rest⟩ := d
    cases action with
    | sites sites =>
      dsimp only
      generalize emit callback sites o = emitted
      obtain ⟨accepted, o⟩ := emitted
      cases accepted with
      | false => rfl
      | true =>
        cases step t with
        | none => rfl
        | some u => exact ih u rest o
    | count address =>
      dsimp only
      cases step t with
      | none => rfl
      | some u => exact ih u rest _
    | _ => rfl

/-- A callback that accepts everything is given all chunks, and all characters are
counted. -/
theorem emit_accepts (h : Accepts callback) {sites : List Site}
    (hcounted : ∀ site ∈ sites, site.Counted) {o : Output σ} {n : ℕ}
    (hn : o.written = (n : ℤ).bmod (2 ^ 32)) :
    emit callback sites o = (true,
      ⟨(sites.map Site.chunk).foldl (fun s chunk => (callback s chunk).2) o.sink,
        ((n + (text sites).length : ℕ) : ℤ).bmod (2 ^ 32), o.counts⟩) := by
  induction sites generalizing o n with
  | nil =>
    rw [text_nil, List.length_nil, Nat.add_zero, ← hn]
    rfl
  | cons site sites ih =>
    have hsite : site.added = site.chunk.length := hcounted site List.mem_cons_self
    have hrest : ∀ t ∈ sites, t.Counted := by
      intro t ht
      exact hcounted t (List.mem_cons_of_mem site ht)
    have hwritten : (o.written + site.added).bmod (2 ^ 32) =
        ((n + site.chunk.length : ℕ) : ℤ).bmod (2 ^ 32) := by
      rw [hn, hsite, Int.bmod_add_bmod]
      rfl
    rw [emit]
    dsimp only
    rw [if_neg (not_not.mpr (h o.sink site.chunk)), ih hrest hwritten, text_cons,
      List.length_append, Nat.add_assoc]
    rfl

theorem counted_directiveWith {s : List UInt8} {args : VaList} {sites : List Site}
    (h : (directiveWith floating strings s args).1 = .sites sites) :
    ∀ site ∈ sites, site.Counted := by
  have hplain : ∀ sites, (directive strings s args).1 = .sites sites →
      ∀ site ∈ sites, site.Counted := fun _ => counted_directive
  unfold directiveWith at h
  generalize directive strings s args = d at h hplain
  obtain ⟨action, t, rest⟩ := d
  cases action with
  | sites _ =>
    apply hplain
    exact h
  | floating =>
    dsimp only at h
    cases hend : floating s args with
    | none =>
      rw [hend] at h
      cases h
    | some chunks =>
      rw [hend] at h
      rw [← Action.sites.inj h]
      intro site hsite
      obtain ⟨chunk, -, rfl⟩ := List.mem_map.mp hsite
      rfl
  | _ => cases h

variable (floating strings) in
/-- The engine passes on the text of the format. -/
theorem vcbprintfLoopWith_formatted (h : Accepts callback) (fuel : ℕ) (s : List UInt8)
    (args : VaList) {o : Output σ} {n : ℕ} (hn : o.written = (n : ℤ).bmod (2 ^ 32)) :
    (formattedLoop floating strings fuel s args = none →
      vcbprintfLoopWith floating callback strings fuel s args o = none) ∧
    ∀ known sites, formattedLoop floating strings fuel s args = some (known, sites) →
      ∃ counts, vcbprintfLoopWith floating callback strings fuel s args o =
        some (if known then ((n + (text sites).length : ℕ) : ℤ).bmod (2 ^ 32) else -1,
          ⟨(sites.map Site.chunk).foldl (fun s chunk => (callback s chunk).2) o.sink,
            ((n + (text sites).length : ℕ) : ℤ).bmod (2 ^ 32), counts⟩) := by
  induction fuel generalizing s args o n with
  | zero =>
    refine ⟨fun _ => rfl, ?_⟩
    intro known sites h
    cases h
  | succ fuel ih =>
    have hcounted : ∀ sites, (directiveWith floating strings s args).1 = .sites sites →
        ∀ site ∈ sites, site.Counted := fun _ => counted_directiveWith
    unfold formattedLoop vcbprintfLoopWith
    generalize directiveWith floating strings s args = d at hcounted
    obtain ⟨action, t, rest⟩ := d
    cases action with
    | ended =>
      refine ⟨fun hnone => (by cases hnone), ?_⟩
      intro known sites hsome
      cases hsome
      refine ⟨o.counts, ?_⟩
      rw [if_pos rfl, text_nil, List.length_nil, Nat.add_zero, ← hn]
      rfl
    | invalid =>
      refine ⟨fun hnone => (by cases hnone), ?_⟩
      intro known sites hsome
      cases hsome
      refine ⟨o.counts, ?_⟩
      rw [if_neg Bool.false_ne_true, text_nil, List.length_nil, Nat.add_zero, ← hn]
      rfl
    | floating =>
      refine ⟨fun _ => rfl, ?_⟩
      intro known sites hsome
      cases hsome
    | sites front =>
      dsimp only
      rw [emit_accepts h (hcounted front rfl) hn]
      dsimp only
      cases step t with
      | none =>
        refine ⟨fun hnone => (by cases hnone), ?_⟩
        intro known sites hsome
        cases hsome
        refine ⟨o.counts, ?_⟩
        rw [if_pos rfl]
      | some u =>
        dsimp only
        obtain ⟨hnone, hsome⟩ := ih u rest
          (o := ⟨(front.map Site.chunk).foldl (fun s chunk => (callback s chunk).2) o.sink,
            ((n + (text front).length : ℕ) : ℤ).bmod (2 ^ 32), o.counts⟩)
          (n := n + (text front).length) (by simp only)
        generalize formattedLoop floating strings fuel u rest = result at hnone hsome
        cases result with
        | none => exact ⟨fun _ => hnone rfl, fun _ _ h => by cases h⟩
        | some result =>
          obtain ⟨known, more⟩ := result
          refine ⟨fun hnone => (by cases hnone), ?_⟩
          intro known' sites heq
          cases heq
          obtain ⟨counts, hloop⟩ := hsome known more rfl
          refine ⟨counts, ?_⟩
          rw [hloop, text_append, List.length_append, Nat.add_assoc, List.map_append,
            List.foldl_append]
    | count address =>
      dsimp only
      cases step t with
      | none =>
        refine ⟨fun hnone => (by cases hnone), ?_⟩
        intro known sites hsome
        cases hsome
        refine ⟨o.counts ++ [(address, o.written)], ?_⟩
        rw [if_pos rfl, text_nil, List.length_nil, Nat.add_zero, ← hn]
        rfl
      | some u => exact ih u rest hn

/-- Rounds enough for the whole format. -/
theorem formattedLoop_returns (h : ∀ s args, (floating s args).isSome = true) {fuel : ℕ}
    {s : List UInt8} (args : VaList) (hfuel : s.length < fuel) :
    ∃ known sites, formattedLoop floating strings fuel s args = some (known, sites) := by
  induction fuel generalizing s args with
  | zero => cases hfuel
  | succ fuel ih =>
    have hlength := length_directive strings s args
    unfold formattedLoop directiveWith
    generalize directive strings s args = d at hlength
    obtain ⟨action, t, rest⟩ := d
    have hnext : ∀ u, step t = some u → ∃ known sites,
        formattedLoop floating strings fuel u rest = some (known, sites) := by
      intro u hu
      have hshorter := length_step hu
      apply ih
      dsimp only at hlength
      omega
    have hsites : ∀ sites : List Site, ∃ known more,
        (match step t with
          | none => some (true, sites)
          | some u => (formattedLoop floating strings fuel u rest).map fun (known, more) =>
              (known, sites ++ more)) = some (known, more) := by
      intro sites
      cases hstep : step t with
      | none => exact ⟨_, _, rfl⟩
      | some u =>
        obtain ⟨known, more, hloop⟩ := hnext u hstep
        dsimp only
        rw [hloop]
        exact ⟨_, _, rfl⟩
    cases action with
    | ended => exact ⟨_, _, rfl⟩
    | invalid => exact ⟨_, _, rfl⟩
    | floating =>
      obtain ⟨chunks, hchunks⟩ := Option.isSome_iff_exists.mp (h s args)
      dsimp only
      rw [hchunks]
      exact hsites _
    | sites sites => exact hsites sites
    | count address =>
      dsimp only
      cases hstep : step t with
      | none => exact ⟨_, _, rfl⟩
      | some u => exact hnext u hstep

theorem formatted_returns (h : ∀ s args, (floating s args).isSome = true) (format : List UInt8)
    (arglist : VaList) :
    ∃ known output, formatted floating strings format arglist = some (known, output) := by
  obtain ⟨known, sites, hloop⟩ : ∃ known sites,
      formattedLoop floating strings (format.length + 1) format arglist = some (known, sites) :=
    formattedLoop_returns h arglist (Nat.lt_succ_self format.length)
  refine ⟨known, text sites, ?_⟩
  unfold formatted
  rw [hloop]
  rfl

variable (floating strings) in
/-- What `vsnprintf` returns and stores. -/
theorem vsnprintfWith_formatted (memory : Memory) (n : ℕ) (format : List UInt8)
    (arglist : VaList) :
    (formatted floating strings format arglist = none →
      vsnprintfWith floating strings memory n format arglist = none) ∧
    ∀ known output, formatted floating strings format arglist = some (known, output) →
      ∃ content, vsnprintfWith floating strings memory n format arglist =
          some (if known then (output.length : ℤ).bmod (2 ^ 32) else -1, content) ∧
        (output.length < 2 ^ 64 → content = stored memory n output) := by
  let info : VsnprintfData :=
    { out := memory, maximum := if n ≠ 0 then n - 1 else 0, written := 0, produced := 0 }
  have hinfo : info = .after memory info.maximum [] := by
    unfold VsnprintfData.after
    rw [List.take_nil, store_nil]
    rfl
  have hzero : (0 : ℤ) = ((0 : ℕ) : ℤ).bmod (2 ^ 32) := by
    decide
  have hstart : (Output.start info).written = ((0 : ℕ) : ℤ).bmod (2 ^ 32) := hzero
  obtain ⟨hnone, hsome⟩ := vcbprintfLoopWith_formatted floating strings
    accepts_vsnprintfCallback (format.length + 1) format arglist hstart
  have hvsnprintf : vsnprintfWith floating strings memory n format arglist =
      (vcbprintfLoopWith floating vsnprintfCallback strings (format.length + 1) format arglist
        (.start info)).map fun (result, o) =>
          (result, if n ≠ 0 then o.sink.out.store o.sink.written [0] else o.sink.out) := by
    show (match vcbprintfLoopWith floating vsnprintfCallback strings (format.length + 1) format
      arglist (.start info) with | none => none | some (result, o) => _) = _
    generalize vcbprintfLoopWith floating vsnprintfCallback strings (format.length + 1) format
      arglist (.start info) = run
    cases run with
    | none => rfl
    | some run => rfl
  rw [hvsnprintf]
  unfold formatted
  generalize formattedLoop floating strings (format.length + 1) format arglist = result at *
  cases result with
  | none =>
    refine ⟨fun _ => ?_, fun known output h => by cases h⟩
    rw [hnone rfl]
    rfl
  | some result =>
    obtain ⟨known, sites⟩ := result
    refine ⟨fun h => (by cases h), ?_⟩
    intro known' output h
    cases h
    obtain ⟨counts, hloop⟩ := hsome known sites rfl
    rw [hloop, Nat.zero_add]
    refine ⟨_, rfl, ?_⟩
    intro hlength
    have hfold : (sites.map Site.chunk).foldl (fun s chunk => (vsnprintfCallback s chunk).2)
        (Output.start info).sink = .after memory info.maximum (text sites) := by
      rw [show (Output.start info).sink = .after memory info.maximum [] from hinfo]
      exact foldl_vsnprintfCallback hlength
    have hmaximum : info.maximum = if n ≠ 0 then n - 1 else 0 := rfl
    rw [hfold, hmaximum]
    unfold stored
    by_cases hn : n = 0
    · rw [if_neg (not_not.mpr hn), if_neg (not_not.mpr hn), if_pos hn]
      rfl
    · rw [if_pos hn, if_pos hn, if_neg hn]
      exact store_store memory _ [0]

theorem vsnprintfWith_none (memory : Memory) (n : ℕ) (format : List UInt8) (arg : VaList) :
    vsnprintfWith (fun _ _ => none) strings memory n format arg =
      vsnprintf strings memory n format arg := by
  unfold vsnprintfWith vsnprintf vcbprintfWith vcbprintf
  dsimp only
  generalize hrun :
    vcbprintfLoop vsnprintfCallback strings (format.length + 1) format arg _ = run
  cases run with
  | none => simp only [vcbprintfLoopWith_none, hrun]
  | some run => simp only [vcbprintfLoopWith_none, hrun]

end Engine

end Heartix.Printf
