import Heartix.Printf.Vcbprintf

/-!
What the engine tells its callers. Each site adds the length of its chunk to the
count, and a callback that accepts everything sees the same chunks as any other
one. The buffer therefore holds a prefix of the output, and the allocated block
all of it.
-/

namespace Heartix.Printf

variable {σ : Type*}

/-- The callback that records the chunks. -/
def record (chunks : List (List UInt8)) (chunk : List UInt8) : ℤ × List (List UInt8) :=
  (chunk.length, chunks ++ [chunk])

def Site.Counted (site : Site) : Prop := site.added = site.chunk.length

def Accepts (callback : σ → List UInt8 → ℤ × σ) : Prop :=
  ∀ s chunk, (callback s chunk).1 = chunk.length

/-- The state of a callback that has seen the recorded chunks. -/
def Output.through (callback : σ → List UInt8 → ℤ × σ) (param : σ)
    (o : Output (List (List UInt8))) : Output σ where
  sink := o.sink.foldl (fun s chunk => (callback s chunk).2) param
  written := o.written
  counts := o.counts

section Counted

theorem counted_char (c : Char) : (char c).Counted := rfl

theorem counted_repeated {n : ℕ} {c : Char} : ∀ site ∈ repeated n c, site.Counted := by
  intro site hsite
  rw [List.eq_of_mem_replicate hsite]
  exact counted_char c

theorem counted_nil : ∀ site ∈ ([] : List Site), site.Counted := by
  intro site hsite
  cases hsite

theorem counted_append {l m : List Site} (hl : ∀ site ∈ l, site.Counted)
    (hm : ∀ site ∈ m, site.Counted) : ∀ site ∈ l ++ m, site.Counted := by
  intro site hsite
  rcases List.mem_append.mp hsite with h | h
  · exact hl site h
  · exact hm site h

theorem counted_ite {p : Prop} [Decidable p] {l m : List Site} (hl : ∀ site ∈ l, site.Counted)
    (hm : ∀ site ∈ m, site.Counted) : ∀ site ∈ (if p then l else m), site.Counted := by
  by_cases hp : p
  · rw [if_pos hp]
    exact hl
  · rw [if_neg hp]
    exact hm

theorem counted_singleton {site : Site} (h : site.Counted) : ∀ s ∈ [site], s.Counted := by
  intro s hs
  rw [List.mem_singleton.mp hs]
  exact h

theorem counted_padding {p : Prop} [Decidable p] {n : ℕ} {c : Char} :
    ∀ site ∈ (if p then repeated n c else []), site.Counted :=
  counted_ite counted_repeated counted_nil

theorem counted_signSites (flags : Flags) (isnegative : Bool) :
    ∀ site ∈ signSites flags isnegative, site.Counted := by
  unfold signSites
  exact counted_ite (counted_singleton (counted_char _))
    (counted_ite (counted_singleton (counted_char _))
      (counted_ite (counted_singleton (counted_char _)) counted_nil))

theorem counted_additionalSites (force : Bool) (specifier : Char) :
    ∀ site ∈ additionalSites force specifier, site.Counted := by
  unfold additionalSites
  refine counted_ite ?_ (counted_ite (counted_singleton (counted_char _)) counted_nil)
  intro site hsite
  rcases List.mem_cons.mp hsite with rfl | hsite
  · exact counted_char _
  · rw [List.mem_singleton.mp hsite]
    split
    · exact counted_char _
    · exact counted_char _

theorem counted_integerSites (spec : Spec) (value : BitVec 64) :
    ∀ site ∈ integerSites spec value, site.Counted := by
  unfold integerSites
  apply counted_append
  · apply counted_append
    · apply counted_append
      · apply counted_append
        · exact counted_append counted_padding (counted_signSites _ _)
        · exact counted_padding
      · exact counted_additionalSites _ _
    · exact counted_singleton rfl
  · exact counted_padding

theorem counted_characterSites (spec : Spec) (value : UInt8) :
    ∀ site ∈ characterSites spec value, site.Counted := by
  unfold characterSites
  apply counted_append
  · exact counted_append counted_padding (counted_singleton rfl)
  · exact counted_padding

theorem counted_stringSites (spec : Spec) (value : List UInt8) :
    ∀ site ∈ stringSites spec value, site.Counted := by
  unfold stringSites
  apply counted_append
  · apply counted_append
    · apply counted_append
      · exact counted_padding
      · apply counted_singleton
        unfold Site.Counted
        dsimp only
        rw [List.length_take, Nat.min_eq_left]
        split
        · rename_i hshorter
          exact Nat.le_of_lt hshorter.2
        · exact Nat.le_refl _
    · exact counted_padding
  · exact counted_padding

theorem convert_sites {strings : BitVec 64 → List UInt8} {spec : Spec} {args : VaList}
    {sites : List Site} (h : (convert strings spec args).1 = .sites sites) :
    (∃ value, sites = integerSites spec value) ∨ (∃ value, sites = characterSites spec value) ∨
      ∃ value, sites = stringSites spec value := by
  unfold convert at h
  split at h
  case h_16 =>
    split at h
    · exact Or.inr (Or.inl ⟨_, (Action.sites.inj h).symm⟩)
    · exact Or.inr (Or.inl ⟨_, (Action.sites.inj h).symm⟩)
    · cases h
  case h_17 =>
    split at h
    · exact Or.inr (Or.inr ⟨_, (Action.sites.inj h).symm⟩)
    · exact Or.inr (Or.inr ⟨_, (Action.sites.inj h).symm⟩)
    · cases h
  case h_18 => cases h
  case h_19 => cases h
  all_goals
    split at h
    all_goals first
      | exact Or.inl ⟨_, (Action.sites.inj h).symm⟩
      | cases h

/-- Every site of every directive counts what it passes on. -/
theorem counted_directive {strings : BitVec 64 → List UInt8} {s : List UInt8} {args : VaList}
    {sites : List Site} (h : (directive strings s args).1 = .sites sites) :
    ∀ site ∈ sites, site.Counted := by
  unfold directive at h
  split at h
  · cases h
  · split at h
    · split at h
      · cases h
      · split at h
        · rw [← Action.sites.inj h]
          exact counted_singleton (counted_char _)
        · split at h
          · cases h
          · rcases convert_sites h with ⟨value, rfl⟩ | ⟨value, rfl⟩ | ⟨value, rfl⟩
            · exact counted_integerSites _ _
            · exact counted_characterSites _ _
            · exact counted_stringSites _ _
    · rw [← Action.sites.inj h]
      exact counted_singleton rfl

end Counted

section Length

variable {s s' : List UInt8} {args args' : VaList}

theorem length_step (h : step s = some s') : s'.length < s.length := by
  unfold step at h
  split at h
  · obtain rfl := Option.some.inj h
    exact Nat.lt_succ_self _
  · cases h

theorem length_readFlags {flags flags' : Flags} (h : readFlags flags s = some (flags', s')) :
    s'.length ≤ s.length := by
  induction s generalizing flags with
  | nil =>
    obtain ⟨rfl, rfl⟩ := Option.some.inj h
    exact Nat.le_refl _
  | cons c rest ih =>
    unfold readFlags at h
    split at h
    · obtain ⟨rfl, rfl⟩ := Option.some.inj h
      exact Nat.le_refl _
    · split at h
      · cases h
      · exact Nat.le_succ_of_le (ih h)

theorem length_getNumber (res : ℤ) (s : List UInt8) : (getNumber res s).2.length ≤ s.length := by
  induction s generalizing res with
  | nil => exact Nat.le_refl _
  | cons c rest ih =>
    unfold getNumber
    split
    · exact Nat.le_succ_of_le (ih _)
    · exact Nat.le_refl _

theorem length_readNumber {missing n : ℤ} (h : readNumber missing s args = some (n, s', args')) :
    s'.length ≤ s.length := by
  unfold readNumber at h
  split at h
  · obtain ⟨rfl, rfl, rfl⟩ := Option.some.inj h
    exact Nat.le_refl _
  · split at h
    · obtain ⟨t, ht, heq⟩ := Option.map_eq_some_iff.mp h
      cases heq
      exact Nat.le_of_lt (length_step ht)
    · split at h
      · rename_i c rest _ _
        have hle := length_getNumber 0 (c :: rest)
        generalize getNumber 0 (c :: rest) = number at h hle
        cases h
        exact hle
      · cases h
        exact Nat.le_refl _

theorem length_readPrecision {precision : ℤ × Bool}
    (h : readPrecision s args = some (precision, s', args')) : s'.length ≤ s.length := by
  unfold readPrecision at h
  split at h
  · split at h
    · cases h
    · rename_i t ht
      obtain ⟨⟨n, u⟩, hnumber, heq⟩ := Option.map_eq_some_iff.mp h
      cases heq
      exact Nat.le_trans (length_readNumber hnumber) (Nat.le_of_lt (length_step ht))
  · cases h
    exact Nat.le_refl _

theorem length_map_step {length length' : Length}
    (h : (step s).map (fun t => (length, t)) = some (length', s')) : s'.length ≤ s.length := by
  obtain ⟨t, ht, heq⟩ := Option.map_eq_some_iff.mp h
  cases heq
  exact Nat.le_of_lt (length_step ht)

theorem length_readLength {length : Length} (h : readLength s = some (length, s')) :
    s'.length ≤ s.length := by
  unfold readLength at h
  split at h
  · cases h
    exact Nat.le_refl _
  · split at h
    case h_1 | h_2 =>
      split at h
      · cases h
      · rename_i t ht
        split at h
        · exact Nat.le_trans (length_map_step h) (Nat.le_of_lt (length_step ht))
        · cases h
          exact Nat.le_of_lt (length_step ht)
    case h_7 =>
      cases h
      exact Nat.le_refl _
    all_goals exact length_map_step h

theorem length_readSpec {spec : Spec} (h : readSpec s args = some (spec, s', args')) :
    s'.length ≤ s.length := by
  unfold readSpec at h
  split at h
  · cases h
  · rename_i hflags
    split at h
    · cases h
    · rename_i hwidth
      split at h
      · cases h
      · rename_i hprecision
        split at h
        · cases h
        · rename_i hlength
          cases h
          exact Nat.le_trans (length_readLength hlength) (Nat.le_trans
            (length_readPrecision hprecision) (Nat.le_trans (length_readNumber hwidth)
              (length_readFlags hflags)))

theorem length_directive (strings : BitVec 64 → List UInt8) (s : List UInt8) (args : VaList) :
    (directive strings s args).2.1.length ≤ s.length := by
  unfold directive
  split
  · exact Nat.le_refl _
  · split
    · split
      · exact Nat.zero_le _
      · rename_i t ht
        split
        · exact Nat.le_of_lt (length_step ht)
        · split
          · exact Nat.zero_le _
          · rename_i hspec
            exact Nat.le_trans (length_readSpec hspec) (Nat.le_of_lt (length_step ht))
    · exact Nat.le_refl _

end Length

section Engine

variable {callback : σ → List UInt8 → ℤ × σ} {param : σ} {strings : BitVec 64 → List UInt8}
  {o q : Output (List (List UInt8))}

theorem emit_record_cons (site : Site) (sites : List Site) (o : Output (List (List UInt8))) :
    emit record (site :: sites) o = emit record sites { o with
      sink := o.sink ++ [site.chunk]
      written := (o.written + site.added).bmod (2 ^ 32) } := by
  rw [emit]
  exact if_neg (not_not.mpr rfl)

/-- A callback that accepts everything is given what the recording one is. -/
theorem emit_through (h : Accepts callback) (sites : List Site)
    (o : Output (List (List UInt8))) :
    (emit record sites o).1 = true ∧ emit callback sites (o.through callback param) =
      (true, (emit record sites o).2.through callback param) := by
  induction sites generalizing o with
  | nil => exact ⟨rfl, rfl⟩
  | cons site sites ih =>
    let next : Output (List (List UInt8)) := { o with
      sink := o.sink ++ [site.chunk]
      written := (o.written + site.added).bmod (2 ^ 32) }
    have hrecord : emit record (site :: sites) o = emit record sites next :=
      emit_record_cons site sites o
    have hcallback : emit callback (site :: sites) (o.through callback param) =
        emit callback sites (next.through callback param) := by
      rw [emit]
      dsimp only
      rw [if_neg (not_not.mpr (h _ _))]
      congr 2
      simp [Output.through, next]
    rw [hrecord, hcallback]
    exact ih next

theorem vcbprintfLoop_through (h : Accepts callback) (fuel : ℕ) (s : List UInt8)
    (args : VaList) (o : Output (List (List UInt8))) :
    vcbprintfLoop callback strings fuel s args (o.through callback param) =
      (vcbprintfLoop record strings fuel s args o).map
        fun (result, o) => (result, o.through callback param) := by
  induction fuel generalizing s args o with
  | zero => rfl
  | succ fuel ih =>
    unfold vcbprintfLoop
    generalize directive strings s args = d
    obtain ⟨action, s, args⟩ := d
    cases action with
    | ended => rfl
    | invalid => rfl
    | floating => rfl
    | sites sites =>
      obtain ⟨hrecord, hcallback⟩ := emit_through h sites o
      dsimp only
      rw [hcallback]
      generalize emit record sites o = emitted at hrecord ⊢
      obtain ⟨accepted, o⟩ := emitted
      cases hrecord
      dsimp only
      cases step s with
      | none => rfl
      | some s => exact ih s args o
    | count address =>
      dsimp only
      cases step s with
      | none => rfl
      | some s => exact ih s args { o with counts := o.counts ++ [(address, o.written)] }

/-- The count is the length of what has been recorded, as an `int`. -/
def Output.Consistent (o : Output (List (List UInt8))) : Prop :=
  o.written = (o.sink.flatten.length : ℤ).bmod (2 ^ 32)

theorem consistent_start : (Output.start []).Consistent := by
  unfold Output.Consistent Output.start
  simp

theorem Output.Consistent.emit {sites : List Site} (hsites : ∀ site ∈ sites, site.Counted)
    (ho : o.Consistent) : (emit record sites o).2.Consistent := by
  induction sites generalizing o with
  | nil => exact ho
  | cons site sites ih =>
    have hcounted := hsites site List.mem_cons_self
    rw [emit_record_cons]
    apply ih (fun t ht => hsites t (List.mem_cons_of_mem site ht))
    unfold Output.Consistent at ho ⊢
    dsimp only
    rw [ho, hcounted, Int.bmod_add_bmod, List.flatten_append, List.length_append,
      List.flatten_singleton]
    rfl

/-- The engine returns the count or reports an error, and the count is right. -/
theorem vcbprintfLoop_consistent {fuel : ℕ} {s : List UInt8} {args : VaList} {result : ℤ}
    (ho : o.Consistent) (h : vcbprintfLoop record strings fuel s args o = some (result, q)) :
    q.Consistent ∧ (result = q.written ∨ result = -1) := by
  induction fuel generalizing s args o with
  | zero => cases h
  | succ fuel ih =>
    have hcounted : ∀ sites, (directive strings s args).1 = .sites sites →
        ∀ site ∈ sites, site.Counted := fun _ => counted_directive
    unfold vcbprintfLoop at h
    generalize directive strings s args = d at h hcounted
    obtain ⟨action, s, args⟩ := d
    cases action with
    | ended =>
      cases h
      exact ⟨ho, Or.inl rfl⟩
    | invalid =>
      cases h
      exact ⟨ho, Or.inr rfl⟩
    | floating => cases h
    | sites sites =>
      have hemitted := ho.emit (hcounted sites rfl)
      dsimp only at h
      generalize emit record sites o = emitted at h hemitted
      obtain ⟨accepted, o⟩ := emitted
      cases accepted with
      | false =>
        cases h
        exact ⟨hemitted, Or.inr rfl⟩
      | true =>
        dsimp only at h
        generalize step s = next at h
        cases next with
        | none =>
          cases h
          exact ⟨hemitted, Or.inl rfl⟩
        | some s => exact ih hemitted h
    | count address =>
      dsimp only at h
      generalize step s = next at h
      cases next with
      | none =>
        cases h
        exact ⟨ho, Or.inl rfl⟩
      | some s => exact ih (o := { o with counts := o.counts ++ [(address, o.written)] }) ho h

/-- Where the format has no conversion of a floating point number, the engine
returns. -/
theorem vcbprintfLoop_returns {fuel : ℕ} {s : List UInt8} {args : VaList}
    (hfuel : s.length < fuel)
    (hplain : ∀ action ∈ directives strings fuel s args, action.isFloating = false)
    (o : Output (List (List UInt8))) :
    ∃ result q, vcbprintfLoop record strings fuel s args o = some (result, q) := by
  induction fuel generalizing s args o with
  | zero => cases hfuel
  | succ fuel ih =>
    have hlength := length_directive strings s args
    unfold vcbprintfLoop
    unfold directives at hplain
    generalize directive strings s args = d at hplain hlength
    obtain ⟨action, t, args⟩ := d
    have hhead := hplain action List.mem_cons_self
    have hnext : ∀ u, step t = some u → ∀ o, ∃ result q,
        vcbprintfLoop record strings fuel u args o = some (result, q) := by
      intro u hu o
      have hshorter := length_step hu
      apply ih
      · dsimp only at hlength
        omega
      · intro a ha
        apply hplain a
        dsimp only
        rw [hu]
        exact List.mem_cons_of_mem _ ha
    cases action with
    | ended => exact ⟨_, _, rfl⟩
    | invalid => exact ⟨_, _, rfl⟩
    | floating => cases hhead
    | sites sites =>
      dsimp only
      generalize emit record sites o = emitted
      obtain ⟨accepted, o⟩ := emitted
      cases accepted with
      | false => exact ⟨_, _, rfl⟩
      | true =>
        dsimp only
        generalize step t = next at hnext
        cases next with
        | none => exact ⟨_, _, rfl⟩
        | some u => exact hnext u rfl o
    | count address =>
      dsimp only
      generalize step t = next at hnext
      cases next with
      | none => exact ⟨_, _, rfl⟩
      | some u => exact hnext u rfl _

end Engine

section Buffer

variable {memory : Memory} {maximum : ℕ}

theorem store_nil (memory : Memory) (offset : ℕ) : memory.store offset [] = memory := by
  funext i
  simp [Memory.store]

theorem store_store (memory : Memory) (front back : List UInt8) :
    (memory.store 0 front).store front.length back = memory.store 0 (front ++ back) := by
  funext i
  unfold Memory.store
  by_cases hi : front.length ≤ i
  · rw [if_pos hi, if_pos (Nat.zero_le i), if_pos (Nat.zero_le i), Nat.sub_zero,
      List.getElem?_append_right hi, List.getElem?_eq_none hi]
    rfl
  · rw [if_neg hi, if_pos (Nat.zero_le i), if_pos (Nat.zero_le i), Nat.sub_zero,
      List.getElem?_append_left (by omega)]

/-- The state of the limited buffer after some output. -/
def VsnprintfData.after (memory : Memory) (maximum : ℕ) (output : List UInt8) :
    VsnprintfData where
  out := memory.store 0 (output.take maximum)
  maximum := maximum
  written := (output.take maximum).length
  produced := output.length

/-- The part of a chunk that is stored. -/
theorem take_writable (chunk : List UInt8) (space : ℕ) :
    let writable := if chunk.length < space then chunk.length else space
    chunk.take writable = chunk.take space ∧ writable = (chunk.take space).length := by
  dsimp only
  by_cases hshort : chunk.length < space
  · rw [if_pos hshort, List.take_length, List.take_of_length_le (Nat.le_of_lt hshort)]
    exact ⟨rfl, rfl⟩
  · rw [if_neg hshort, List.length_take, Nat.min_eq_left (by omega)]
    exact ⟨rfl, rfl⟩

theorem vsnprintfCallback_after {output chunk : List UInt8}
    (hlength : (output ++ chunk).length < 2 ^ 64) :
    (vsnprintfCallback (.after memory maximum output) chunk).2 =
      .after memory maximum (output ++ chunk) := by
  rw [List.length_append] at hlength
  unfold vsnprintfCallback VsnprintfData.after
  dsimp only
  by_cases hroom : output.length < maximum
  · obtain ⟨hstored, hwritable⟩ := take_writable chunk (maximum - output.length)
    have hfront : output.take maximum = output :=
      List.take_of_length_le (Nat.le_of_lt hroom)
    have hback : (output ++ chunk).take maximum =
        output ++ chunk.take (maximum - output.length) := by
      rw [List.take_append, hfront]
    have hle : (chunk.take (maximum - output.length)).length ≤ chunk.length := by
      rw [List.length_take]
      exact Nat.min_le_right _ _
    rw [if_pos hroom, hstored, hwritable, hfront, hback, store_store, List.length_append,
      List.length_append, Nat.mod_eq_of_lt (by omega), Nat.mod_eq_of_lt (by omega)]
  · have hfront : (output ++ chunk).take maximum = output.take maximum :=
      List.take_append_of_le_length (by omega)
    rw [if_neg hroom, hfront, List.length_append, Nat.mod_eq_of_lt hlength]

theorem foldl_vsnprintfCallback {chunks : List (List UInt8)} {output : List UInt8}
    (hlength : (output ++ chunks.flatten).length < 2 ^ 64) :
    chunks.foldl (fun s chunk => (vsnprintfCallback s chunk).2) (.after memory maximum output) =
      .after memory maximum (output ++ chunks.flatten) := by
  induction chunks generalizing output with
  | nil => rw [List.flatten_nil, List.append_nil, List.foldl_nil]
  | cons chunk chunks ih =>
    rw [List.flatten_cons, ← List.append_assoc] at hlength ⊢
    have hchunk : (output ++ chunk).length < 2 ^ 64 := by
      rw [List.length_append] at hlength
      omega
    rw [List.foldl_cons, vsnprintfCallback_after hchunk, ih hlength]

theorem accepts_vsnprintfCallback : Accepts vsnprintfCallback := fun _ _ => rfl

end Buffer

/-- What a buffer of size `n` holds after some output. -/
def stored (memory : Memory) (n : ℕ) (output : List UInt8) : Memory :=
  memory.store 0 (if n = 0 then [] else output.take (n - 1) ++ [0])

/-- No conversion of the format is one of a floating point number. -/
def Plain (strings : BitVec 64 → List UInt8) (format : List UInt8) (arglist : VaList) : Prop :=
  ∀ action ∈ directives strings (format.length + 1) format arglist, action.isFloating = false

section Callers

variable {strings : BitVec 64 → List UInt8} {format : List UInt8} {arglist : VaList}
  {result : ℤ} {o : Output (List (List UInt8))}

theorem vcbprintf_returns (h : Plain strings format arglist) :
    ∃ result o, vcbprintf record [] strings format arglist = some (result, o) :=
  vcbprintfLoop_returns (Nat.lt_succ_self _) h _

/-- The return value is the length of the output, if it is no error. -/
theorem vcbprintf_result (h : vcbprintf record [] strings format arglist = some (result, o))
    (hlength : o.sink.flatten.length < 2 ^ 31) (hresult : 0 ≤ result) :
    result = o.sink.flatten.length := by
  obtain ⟨hwritten, hvalue⟩ := vcbprintfLoop_consistent consistent_start h
  rcases hvalue with rfl | rfl
  · unfold Output.Consistent at hwritten
    rw [hwritten]
    exact Int.bmod_eq_of_le (by omega) (by omega)
  · exact absurd hresult (by decide)

theorem vcbprintf_through {callback : σ → List UInt8 → ℤ × σ} (h : Accepts callback) (param : σ)
    (strings : BitVec 64 → List UInt8) (format : List UInt8) (arglist : VaList) :
    vcbprintf callback param strings format arglist =
      (vcbprintf record [] strings format arglist).map
        fun (result, o) => (result, o.through callback param) :=
  vcbprintfLoop_through h (format.length + 1) format arglist (.start [])

theorem vsnprintf_stored (h : vcbprintf record [] strings format arglist = some (result, o))
    (hlength : o.sink.flatten.length < 2 ^ 64) (memory : Memory) (n : ℕ) :
    vsnprintf strings memory n format arglist =
      some (result, stored memory n o.sink.flatten) := by
  have hempty (maximum : ℕ) : VsnprintfData.mk memory maximum 0 0 =
      .after memory maximum [] := by
    unfold VsnprintfData.after
    rw [List.take_nil, store_nil]
    rfl
  have hfold (maximum : ℕ) :
      o.sink.foldl (fun s chunk => (vsnprintfCallback s chunk).2) (.after memory maximum []) =
        .after memory maximum ([] ++ o.sink.flatten) :=
    foldl_vsnprintfCallback hlength
  unfold vsnprintf
  dsimp only
  rw [hempty, vcbprintf_through accepts_vsnprintfCallback, h]
  unfold Output.through
  dsimp only [Option.map_some]
  rw [hfold, List.nil_append]
  unfold stored
  by_cases hn : n = 0
  · rw [if_neg (not_not.mpr hn), if_neg (not_not.mpr hn), if_pos hn]
    rfl
  · rw [if_pos hn, if_pos hn, if_neg hn]
    exact congrArg (fun m => some (result, m)) (store_store memory _ [0])

theorem vasprintf_allocated (h : vcbprintf record [] strings format arglist = some (result, o))
    (hlength : o.sink.flatten.length < 2 ^ 31) (hresult : 0 ≤ result)
    {malloc : ℕ → Option Memory} {block : Memory}
    (hmalloc : malloc (o.sink.flatten.length + 1) = some block) (null : Memory) :
    vasprintf malloc strings null true (some format) arglist =
      some (result, some ⟨o.sink.flatten.length + 1,
        block.store 0 (o.sink.flatten ++ [0])⟩) := by
  have hlen := vcbprintf_result h hlength hresult
  have hsize : (sizeT result + 1) % 2 ^ 64 = o.sink.flatten.length + 1 := by
    unfold sizeT
    rw [hlen]
    omega
  have hstored : stored block (o.sink.flatten.length + 1) o.sink.flatten =
      block.store 0 (o.sink.flatten ++ [0]) := by
    unfold stored
    rw [if_neg (Nat.succ_ne_zero _), Nat.add_sub_cancel, List.take_length]
  have hvsnprintf := vsnprintf_stored h (by omega : o.sink.flatten.length < 2 ^ 64)
  unfold vasprintf
  dsimp only
  rw [hvsnprintf]
  dsimp only
  rw [if_neg (Int.not_lt.mpr hresult), hsize, hmalloc]
  dsimp only
  rw [hvsnprintf]
  dsimp only
  rw [if_neg (Int.not_lt.mpr hresult), hstored]

end Callers

/-- One engine and its callers. With `O` the output passed to a callback that
accepts everything, a return value that is no error is the length of `O`, the
limited buffer holds a prefix of `O` and returns the same, and the allocated
block is just large enough for `O`. -/
theorem one_engine_consistent_sinks (strings : BitVec 64 → List UInt8) (format : List UInt8)
    (arglist : VaList) (hplain : Plain strings format arglist) :
    ∃ result o, vcbprintf record [] strings format arglist = some (result, o) ∧
      (o.sink.flatten.length < 2 ^ 31 →
        (0 ≤ result → result = o.sink.flatten.length) ∧
        (∀ memory n, vsnprintf strings memory n format arglist =
          some (result, stored memory n o.sink.flatten)) ∧
        (0 ≤ result → ∀ malloc block null, malloc (o.sink.flatten.length + 1) = some block →
          vasprintf malloc strings null true (some format) arglist =
            some (result, some ⟨o.sink.flatten.length + 1,
              block.store 0 (o.sink.flatten ++ [0])⟩))) := by
  obtain ⟨result, o, h⟩ := vcbprintf_returns hplain
  refine ⟨result, o, h, fun hlength => ⟨vcbprintf_result h hlength, ?_, ?_⟩⟩
  · intro memory n
    exact vsnprintf_stored h (by omega) memory n
  · intro hresult malloc block null hmalloc
    exact vasprintf_allocated h hlength hresult hmalloc null

/-- `%5d` and a string, with the arguments 42 and the address of `ok`. -/
def sampleFormat : List UInt8 := "%5d %s".toList.map Char.toUInt8

def sampleStrings (_ : BitVec 64) : List UInt8 := "ok".toList.map Char.toUInt8

def sampleArguments : VaList where
  words := fun i => if i = 0 then 42 else 4096
  position := 0

theorem sample_consistent_sinks :
    ∃ result o, vcbprintf record [] sampleStrings sampleFormat sampleArguments =
        some (result, o) ∧
      (o.sink.flatten.length < 2 ^ 31 →
        (0 ≤ result → result = o.sink.flatten.length) ∧
        (∀ memory n, vsnprintf sampleStrings memory n sampleFormat sampleArguments =
          some (result, stored memory n o.sink.flatten)) ∧
        (0 ≤ result → ∀ malloc block null, malloc (o.sink.flatten.length + 1) = some block →
          vasprintf malloc sampleStrings null true (some sampleFormat) sampleArguments =
            some (result, some ⟨o.sink.flatten.length + 1,
              block.store 0 (o.sink.flatten ++ [0])⟩))) :=
  one_engine_consistent_sinks sampleStrings sampleFormat sampleArguments
    (by unfold Plain; decide +kernel)

end Heartix.Printf
