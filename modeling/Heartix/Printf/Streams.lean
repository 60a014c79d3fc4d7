import Heartix.Printf.Formatted
import Heartix.Printf.Conversion
import Heartix.Stdio.Delivery
import Heartix.Stdio.Stored

/-!
The formatting engine on a stream. `vfprintf` passes each chunk of its output to `fwrite`,
and stops where one is not written. On a buffered stream the chunks make no difference: what
happens to the stream is what `fputc` would do with the characters of the text.
-/

namespace Heartix.Printf

open Stdio

variable {W : Type}

/-- `vcbprintf_vfprintf_callback`; the number of bytes is returned as an `ssize_t`. No stream
is left where its buffer would be overrun. -/
def vfprintfCallback (K : Kernel W) (stream : Option (State W)) (string : List UInt8) :
    ℤ × Option (State W) :=
  match stream with
  | none => (0, none)
  | some s =>
      match fwriteUnlocked K string 1 string.length s with
      | none => (0, none)
      | some (n, t) => ((n : ℤ).bmod (2 ^ 64), some t)

/-- `__vfprintf_unlocked`. -/
def vfprintfUnlocked (K : Kernel W) (floating : Floating) (strings : BitVec 64 → List UInt8)
    (format : List UInt8) (arg : VaList) (s : State W) : Option (ℤ × State W) :=
  if s.stream.mode.write = false then some (EOF, s.setError)
  else
    match vcbprintfWith floating (vfprintfCallback K) (some s) strings format arg with
    | none => none
    | some (result, o) => o.sink.map (result, ·)

/-- The bytes are written one by one, until one is not. -/
def putBytes (K : Kernel W) : List UInt8 → State W → Option (Bool × State W)
  | [], s => some (true, s)
  | b :: bytes, s =>
      match fputcUnlocked K b.toNat s with
      | none => none
      | some (r, t) => if r = EOF then some (false, t) else putBytes K bytes t

/-- A stream on which no write was refused so far. -/
structure Open (mode : ModeFlags) (s : State W) : Prop where
  sound : s.stream.Sound
  live : s.stream.Live mode

section Bytes

variable {K : Kernel W} {mode : ModeFlags} {s t : State W}

theorem fputc_open (K : Kernel W) (h : Open mode s) (b : UInt8) :
    ∃ r t, fputcUnlocked K b.toNat s = some (r, t) ∧
      (r ≠ EOF → Open mode t ∧ t.stream.stored = s.stream.stored ++ [b]) := by
  obtain ⟨r, t, hput, hsound, _⟩ :=
    fputcUnlocked_sound K b.toNat h.sound (h.live.not_overruns h.sound)
  refine ⟨r, t, hput, fun hr => ?_⟩
  have hlive := (fputcUnlocked_live K h.sound h.live hput).resolve_right fun hst => hr hst.1
  obtain ⟨l, hstored, hl⟩ := fputcUnlocked_stored K h.sound hput
  rw [hl.resolve_left hr, toByte_toNat] at hstored
  exact ⟨⟨hsound, hlive⟩, hstored⟩

/-- What writing byte by byte comes to. -/
theorem putBytes_open (K : Kernel W) (bytes : List UInt8) (h : Open mode s) :
    ∃ all t, putBytes K bytes s = some (all, t) ∧
      (all = true → Open mode t ∧ t.stream.stored = s.stream.stored ++ bytes) := by
  induction bytes generalizing s with
  | nil => exact ⟨true, s, rfl, fun _ => ⟨h, (List.append_nil _).symm⟩⟩
  | cons b bytes ih =>
    obtain ⟨r, u, hput, hu⟩ := fputc_open K h b
    unfold putBytes
    rw [hput]
    dsimp only
    by_cases hr : r = EOF
    · rw [if_pos hr]
      exact ⟨false, u, rfl, fun hall => Bool.noConfusion hall⟩
    · rw [if_neg hr]
      obtain ⟨hopen, hstored⟩ := hu hr
      obtain ⟨all, t, hrest, ht⟩ := ih hopen
      refine ⟨all, t, hrest, fun hall => ⟨(ht hall).1, ?_⟩⟩
      rw [(ht hall).2, hstored, List.append_assoc, List.singleton_append]

theorem putBytes_append (front back : List UInt8) (s : State W) :
    putBytes K (front ++ back) s =
      match putBytes K front s with
      | some (true, t) => putBytes K back t
      | stopped => stopped := by
  induction front generalizing s with
  | nil => rfl
  | cons b front ih =>
    rw [List.cons_append, putBytes, putBytes]
    cases fputcUnlocked K b.toNat s with
    | none => rfl
    | some result =>
      obtain ⟨r, t⟩ := result
      dsimp only
      by_cases hr : r = EOF
      · rw [if_pos hr, if_pos hr]
      · rw [if_neg hr, if_neg hr, ih]

/-- The byte loop of `fwrite` returns the number of bytes exactly if it wrote them all. -/
theorem fwriteLoop_putBytes {bytes : List UInt8} (done : ℕ) {all : Bool}
    (h : putBytes K bytes s = some (all, t)) :
    ∃ n, fwriteLoop K 1 (done + bytes.length) done bytes s = some (n, t) ∧
      if all then n = done + bytes.length else n < done + bytes.length := by
  induction bytes generalizing done s with
  | nil =>
    obtain ⟨rfl, rfl⟩ := Prod.mk.inj (Option.some.inj h)
    exact ⟨done, rfl, rfl⟩
  | cons b bytes ih =>
    unfold putBytes at h
    unfold fwriteLoop
    cases hput : fputcUnlocked K b.toNat s with
    | none =>
      rw [hput] at h
      cases h
    | some result =>
      obtain ⟨r, u⟩ := result
      rw [hput] at h
      dsimp only at h ⊢
      by_cases hr : r = EOF
      · rw [if_pos hr] at h ⊢
        obtain ⟨rfl, rfl⟩ := Prod.mk.inj (Option.some.inj h)
        refine ⟨_, rfl, ?_⟩
        rw [Nat.div_one, if_neg Bool.false_ne_true, List.length_cons]
        omega
      · rw [if_neg hr] at h ⊢
        have hlength : done + (b :: bytes).length = done + 1 + bytes.length := by
          rw [List.length_cons]
          omega
        rw [hlength]
        exact ih (done + 1) h

/-- Once there is a buffer, `fputc` finds it. -/
theorem putBytes_ensured {bytes : List UInt8} (hne : bytes ≠ []) {r : ℤ}
    (hensure : ensureBuffer K s = (r, t)) :
    (r = EOF → putBytes K bytes s = some (false, t)) ∧
      (r ≠ EOF → ensureBuffer K t = (0, t) → putBytes K bytes s = putBytes K bytes t) := by
  cases bytes with
  | nil => exact absurd rfl hne
  | cons b bytes =>
    constructor
    · rintro rfl
      have hput : fputcUnlocked K b.toNat s = some (EOF, t) := by
        unfold fputcUnlocked
        rw [hensure]
        exact if_pos rfl
      rw [putBytes, hput]
      exact if_pos rfl
    · intro hr hagain
      have hput : fputcUnlocked K b.toNat s = fputcUnlocked K b.toNat t := by
        unfold fputcUnlocked
        rw [hensure, hagain]
        dsimp only
        rw [if_neg hr, if_neg zero_ne_EOF]
      rw [putBytes, putBytes, hput]

/-- A chunk is written as its bytes are. -/
theorem callback_putBytes (h : Open mode s) (hwrite : mode.write = true) {string : List UInt8}
    (hlength : string.length < 2 ^ 63) {all : Bool} (hput : putBytes K string s = some (all, t)) :
    ∃ n, vfprintfCallback K (some s) string = (n, some t) ∧ (n = string.length ↔ all = true) := by
  unfold vfprintfCallback
  dsimp only
  unfold fwriteUnlocked
  cases string with
  | nil =>
    obtain ⟨rfl, rfl⟩ := Prod.mk.inj (Option.some.inj hput)
    have hempty : (1 = 0 ∨ ([] : List UInt8).length = 0) := Or.inr rfl
    refine ⟨0, ?_, iff_of_true rfl rfl⟩
    rw [if_pos hempty]
    rfl
  | cons b bytes =>
    have hmode : s.stream.mode.write ≠ false := by
      rw [h.live.mode_eq, hwrite]
      exact Bool.noConfusion
    have hsome : ¬ (1 = 0 ∨ (b :: bytes).length = 0) :=
      not_or.mpr ⟨Nat.one_ne_zero, Nat.succ_ne_zero _⟩
    rw [if_neg hsome, if_neg hmode]
    obtain ⟨r, u, hensure, hu, hresult⟩ := ensureBuffer_sound K h.sound
    obtain ⟨hfailed, hgoes⟩ := putBytes_ensured (List.cons_ne_nil b bytes) hensure
    rw [hensure]
    dsimp only
    rcases hresult with ⟨rfl, _, _⟩ | ⟨rfl, hset, _, _⟩
    · obtain ⟨rfl, rfl⟩ := Prod.mk.inj (Option.some.inj (hput.symm.trans (hfailed rfl)))
      rw [if_pos rfl]
      have hfull : ((SIZE_MAX : ℕ) : ℤ).bmod (2 ^ 64) = -1 := by decide
      refine ⟨-1, ?_, iff_of_false (by omega) Bool.false_ne_true⟩
      rw [← hfull]
    · have hagain : ensureBuffer K u = (0, u) := if_pos hset
      rw [hgoes zero_ne_EOF hagain] at hput
      obtain ⟨n, hloop, hn⟩ := fwriteLoop_putBytes 0 hput
      rw [Nat.zero_add] at hloop hn
      rw [if_neg zero_ne_EOF, if_neg (hu.buffered hset).1, hloop]
      refine ⟨_, rfl, ?_⟩
      cases all with
      | true =>
        rw [if_pos rfl] at hn
        refine iff_of_true ?_ rfl
        rw [hn]
        exact Int.bmod_eq_of_le (by omega) (by omega)
      | false =>
        rw [if_neg Bool.false_ne_true] at hn
        refine iff_of_false ?_ Bool.false_ne_true
        rw [Int.bmod_eq_of_le (by omega) (by omega)]
        omega

end Bytes

section Engine

variable {K : Kernel W} {mode : ModeFlags} {s t : State W} {floating : Floating}
  {strings : BitVec 64 → List UInt8}

/-- The sites of a directive are written as their text is. -/
theorem emit_putBytes (hwrite : mode.write = true) {sites : List Site}
    (hcounted : ∀ site ∈ sites, site.Counted) (hlength : (text sites).length < 2 ^ 63)
    (h : Open mode s) {n : ℕ} {written : ℤ} (hn : written = (n : ℤ).bmod (2 ^ 32))
    (counts : List (BitVec 64 × ℤ)) {all : Bool}
    (hput : putBytes K (text sites) s = some (all, t)) :
    ∃ count, emit (vfprintfCallback K) sites ⟨some s, written, counts⟩ =
        (all, ⟨some t, count, counts⟩) ∧
      (all = true → count = ((n + (text sites).length : ℕ) : ℤ).bmod (2 ^ 32)) := by
  induction sites generalizing s n written with
  | nil =>
    obtain ⟨rfl, rfl⟩ := Prod.mk.inj (Option.some.inj hput)
    exact ⟨written, rfl, fun _ => hn⟩
  | cons site sites ih =>
    rw [text_cons, List.length_append] at hlength
    rw [text_cons, putBytes_append] at hput
    obtain ⟨stored, u, hsite, hu⟩ := putBytes_open K site.chunk h
    obtain ⟨accepted, hcallback, haccepted⟩ := callback_putBytes h hwrite (by omega) hsite
    rw [hsite] at hput
    unfold emit
    dsimp only
    rw [hcallback]
    cases stored with
    | false =>
      obtain ⟨rfl, rfl⟩ := Prod.mk.inj (Option.some.inj hput)
      refine ⟨written, ?_, fun hall => Bool.noConfusion hall⟩
      rw [if_pos fun hall => Bool.false_ne_true (haccepted.mp hall)]
    | true =>
      have hadded : site.added = site.chunk.length := hcounted site List.mem_cons_self
      have hwritten : (written + site.added).bmod (2 ^ 32) =
          ((n + site.chunk.length : ℕ) : ℤ).bmod (2 ^ 32) := by
        rw [hn, hadded, Int.bmod_add_bmod]
        rfl
      obtain ⟨count, hemit, hcount⟩ := ih (fun x hx => hcounted x (List.mem_cons_of_mem _ hx))
        (by omega) (hu rfl).1 hwritten hput
      refine ⟨count, ?_, fun hall => ?_⟩
      · rw [if_neg (not_not_intro (haccepted.mpr rfl))]
        exact hemit
      · rw [hcount hall, text_cons, List.length_append, Nat.add_assoc]

/-- The engine writes the text of the format, and returns early where a byte is not written. -/
theorem vcbprintfLoopWith_putBytes (hwrite : mode.write = true) {fuel : ℕ} {format : List UInt8}
    {args : VaList} {known : Bool} {sites : List Site}
    (hformat : formattedLoop floating strings fuel format args = some (known, sites))
    (hlength : (text sites).length < 2 ^ 63) (h : Open mode s) {n : ℕ} {written : ℤ}
    (hn : written = (n : ℤ).bmod (2 ^ 32)) (counts : List (BitVec 64 × ℤ)) {all : Bool}
    (hput : putBytes K (text sites) s = some (all, t)) :
    ∃ o, vcbprintfLoopWith floating (vfprintfCallback K) strings fuel format args
        ⟨some s, written, counts⟩ =
          some (if all = true ∧ known = true then
            ((n + (text sites).length : ℕ) : ℤ).bmod (2 ^ 32) else -1, o) ∧
      o.sink = some t := by
  induction fuel generalizing format args known sites s n written counts with
  | zero => cases hformat
  | succ fuel ih =>
    have hcounted : ∀ sites, (directiveWith floating strings format args).1 = .sites sites →
        ∀ site ∈ sites, site.Counted := fun _ => counted_directiveWith
    unfold formattedLoop at hformat
    unfold vcbprintfLoopWith
    generalize directiveWith floating strings format args = d at hcounted hformat
    obtain ⟨action, rest, left⟩ := d
    cases action with
    | ended =>
      obtain ⟨rfl, rfl⟩ := Prod.mk.inj (Option.some.inj hformat)
      obtain ⟨rfl, rfl⟩ := Prod.mk.inj (Option.some.inj hput)
      refine ⟨⟨some s, written, counts⟩, ?_, rfl⟩
      rw [if_pos ⟨rfl, rfl⟩, text_nil, List.length_nil, Nat.add_zero, ← hn]
    | invalid =>
      obtain ⟨rfl, rfl⟩ := Prod.mk.inj (Option.some.inj hformat)
      obtain ⟨rfl, rfl⟩ := Prod.mk.inj (Option.some.inj hput)
      refine ⟨⟨some s, written, counts⟩, ?_, rfl⟩
      rw [if_neg fun h => Bool.false_ne_true h.2]
    | floating => cases hformat
    | sites front =>
      dsimp only at hformat ⊢
      cases hstep : step rest with
      | none =>
        rw [hstep] at hformat
        obtain ⟨rfl, rfl⟩ := Prod.mk.inj (Option.some.inj hformat)
        obtain ⟨count, hemit, hcount⟩ :=
          emit_putBytes hwrite (hcounted front rfl) hlength h hn counts hput
        rw [hemit]
        cases all with
        | false =>
          refine ⟨⟨some t, count, counts⟩, ?_, rfl⟩
          rw [if_neg fun h => Bool.false_ne_true h.1]
        | true =>
          refine ⟨⟨some t, count, counts⟩, ?_, rfl⟩
          rw [if_pos ⟨rfl, rfl⟩, ← hcount rfl]
      | some next =>
        rw [hstep] at hformat
        obtain ⟨⟨last, more⟩, hmore, heq⟩ := Option.map_eq_some_iff.mp hformat
        obtain ⟨rfl, rfl⟩ := Prod.mk.inj heq
        dsimp only at hlength hput ⊢
        rw [text_append, List.length_append] at hlength
        rw [text_append, putBytes_append] at hput
        obtain ⟨stored, u, hfront, hu⟩ := putBytes_open K (text front) h
        obtain ⟨count, hemit, hcount⟩ :=
          emit_putBytes hwrite (hcounted front rfl) (by omega) h hn counts hfront
        rw [hfront] at hput
        rw [hemit]
        cases stored with
        | false =>
          obtain ⟨rfl, rfl⟩ := Prod.mk.inj (Option.some.inj hput)
          refine ⟨⟨some u, count, counts⟩, ?_, rfl⟩
          rw [if_neg fun h => Bool.false_ne_true h.1]
        | true =>
          rw [text_append, List.length_append, ← Nat.add_assoc]
          exact ih hmore (by omega) (hu rfl).1 (hcount rfl) counts hput
    | count address =>
      dsimp only at hformat ⊢
      cases hstep : step rest with
      | none =>
        rw [hstep] at hformat
        obtain ⟨rfl, rfl⟩ := Prod.mk.inj (Option.some.inj hformat)
        obtain ⟨rfl, rfl⟩ := Prod.mk.inj (Option.some.inj hput)
        refine ⟨⟨some s, written, counts ++ [(address, written)]⟩, ?_, rfl⟩
        rw [if_pos ⟨rfl, rfl⟩, text_nil, List.length_nil, Nat.add_zero, ← hn]
      | some next =>
        rw [hstep] at hformat
        exact ih hformat hlength h hn _ hput

end Engine

/-- The characters of the text are written one by one. -/
theorem vfprintfUnlocked_putBytes {K : Kernel W} {floating : Floating}
    {strings : BitVec 64 → List UInt8} {format : List UInt8} {arg : VaList} {mode : ModeFlags}
    (hwrite : mode.write = true) {s t : State W} (h : Open mode s) {known : Bool}
    {output : List UInt8} (hformat : formatted floating strings format arg = some (known, output))
    (hlength : output.length < 2 ^ 63) {all : Bool} (hput : putBytes K output s = some (all, t)) :
    vfprintfUnlocked K floating strings format arg s =
      some (if all = true ∧ known = true then (output.length : ℤ).bmod (2 ^ 32) else EOF, t) := by
  obtain ⟨⟨last, sites⟩, hloop, heq⟩ := Option.map_eq_some_iff.mp hformat
  obtain ⟨rfl, rfl⟩ := Prod.mk.inj heq
  have hzero : (0 : ℤ) = ((0 : ℕ) : ℤ).bmod (2 ^ 32) := by decide
  obtain ⟨o, hengine, hsink⟩ :=
    vcbprintfLoopWith_putBytes hwrite hloop hlength h hzero [] hput
  have hmode : s.stream.mode.write ≠ false := by
    rw [h.live.mode_eq, hwrite]
    exact Bool.noConfusion
  rw [Nat.zero_add] at hengine
  unfold vfprintfUnlocked vcbprintfWith Output.start
  rw [if_neg hmode, hengine]
  dsimp only
  rw [hsink]
  rfl

/-- `vfprintf` on a buffered stream does to it what `fputc` does with the characters that
the format describes, whatever chunks they come in. It returns their number, if all are
written and all conversions are known, and then they are what the stream has been given. -/
theorem vfprintf_putBytes (K : Kernel W) (floating : Floating) (strings : BitVec 64 → List UInt8)
    (format : List UInt8) (arg : VaList) {mode : ModeFlags} (hwrite : mode.write = true)
    {s : State W} (h : Open mode s) {known : Bool} {output : List UInt8}
    (hformat : formatted floating strings format arg = some (known, output))
    (hlength : output.length < 2 ^ 63) :
    ∃ all t, putBytes K output s = some (all, t) ∧
      vfprintfUnlocked K floating strings format arg s =
        some (if all = true ∧ known = true then (output.length : ℤ).bmod (2 ^ 32) else EOF, t) ∧
      (all = true → Open mode t ∧ t.stream.accepted ++ t.stream.pending =
        s.stream.accepted ++ s.stream.pending ++ output) := by
  obtain ⟨all, t, hput, ht⟩ := putBytes_open K output h
  refine ⟨all, t, hput, vfprintfUnlocked_putBytes hwrite h hformat hlength hput, fun hall => ?_⟩
  refine ⟨(ht hall).1, ?_⟩
  rw [(ht hall).1.live.held, h.live.held, (ht hall).2]

section Lines

theorem string_known : 's' ∈ ['d', 'i', 'u', 'o', 'x', 'X', 's'] := by decide

/-- `%s` on its own. -/
def stringConversion : Conversion where
  flags := []
  width := .omitted
  precision := none
  length := .default
  specifier := 's'
  width_ne_zero := Amount.omitted_ne
  known := string_known

def lineFormat : List UInt8 := '%'.toUInt8 :: (stringConversion.bytes ++ [newline])

def newlineFormat : List UInt8 := [newline]

def wordArgument (address : BitVec 64) : VaList := ⟨fun _ => address, 0⟩

variable {W : Type}

/-- `puts` on the string at an address. -/
def puts (K : Kernel W) (floating : Floating) (strings : BitVec 64 → List UInt8)
    (str : BitVec 64) (s : State W) : Option (ℤ × State W) :=
  match vfprintfUnlocked K floating strings lineFormat (wordArgument str) s with
  | none => none
  | some (ret, t) => some (if ret < 0 then EOF else 1, t)

/-- `println`. -/
def println (K : Kernel W) (floating : Floating) (strings : BitVec 64 → List UInt8)
    (format : List UInt8) (va : VaList) (s : State W) : Option (ℤ × State W) :=
  match vfprintfUnlocked K floating strings format va s with
  | none => none
  | some (res, t) =>
      match vfprintfUnlocked K floating strings newlineFormat (wordArgument 0) t with
      | none => none
      | some (newlines, u) => some (if newlines ≠ 1 then EOF else res, u)

variable {floating : Floating} {strings : BitVec 64 → List UInt8}

theorem newline_ne_percent : newline ≠ '%'.toUInt8 := by decide

theorem directive_newline (args : VaList) :
    directive strings [newline] args = (.sites [⟨[newline], 1⟩], [newline], args) := by
  unfold directive
  exact if_neg newline_ne_percent

theorem formatted_newline (args : VaList) :
    formatted floating strings newlineFormat args = some (true, [newline]) := by
  unfold formatted formattedLoop directiveWith newlineFormat
  rw [directive_newline]
  rfl

theorem formatted_line (args : VaList) (h : (strings args.next).length < 2 ^ 31) :
    formatted floating strings lineFormat args = some (true, strings args.next ++ [newline]) := by
  have hdirective : directive strings lineFormat args =
      (.sites (stringSites plainString (strings args.next)), 's'.toUInt8 :: [newline],
        args.rest) := stringConversion.directive_bytes [newline] args strings
  have hrest : formattedLoop floating strings 3 [newline] args.rest =
      some (true, [⟨[newline], 1⟩]) := by
    unfold formattedLoop directiveWith
    rw [directive_newline]
    rfl
  have hlength : lineFormat.length = 3 := by decide
  unfold formatted formattedLoop directiveWith
  rw [hdirective, hlength]
  dsimp only
  have hstep : step ('s'.toUInt8 :: [newline]) = some [newline] := rfl
  rw [hstep]
  dsimp only
  rw [hrest]
  dsimp only [Option.map_some]
  rw [text_append, text_plainString h]
  rfl

variable {K : Kernel W} {mode : ModeFlags} {s t : State W}

/-- A text that is short enough for an `int`. -/
theorem vfprintf_int (hwrite : mode.write = true) (h : Open mode s) {format : List UInt8}
    {arg : VaList} {known : Bool} {output : List UInt8}
    (hformat : formatted floating strings format arg = some (known, output))
    (hlength : output.length < 2 ^ 31) {all : Bool} (hput : putBytes K output s = some (all, t)) :
    vfprintfUnlocked K floating strings format arg s =
      some (if all = true ∧ known = true then (output.length : ℤ) else EOF, t) := by
  have hbmod : (output.length : ℤ).bmod (2 ^ 32) = output.length :=
    Int.bmod_eq_of_le (by omega) (by omega)
  rw [← hbmod]
  exact vfprintfUnlocked_putBytes hwrite h hformat (by omega) hput

theorem vfprintf_newline (floating : Floating) (strings : BitVec 64 → List UInt8)
    (args : VaList) (hwrite : mode.write = true) (h : Open mode s) {all : Bool}
    (hput : putBytes K [newline] s = some (all, t)) :
    vfprintfUnlocked K floating strings newlineFormat args s =
      some (if all = true then 1 else EOF, t) := by
  rw [vfprintf_int hwrite h (formatted_newline args) (by decide) hput]
  exact congrArg (fun r => some (r, t)) (if_congr (and_iff_left rfl) rfl rfl)

end Lines

/-- A line on a stream with a buffer of two bytes. -/
theorem open_twoBytes :
    Open writeFlags (⟨openedStream writeFlags [0, 0] .iolbf, ()⟩ : State Unit) := by
  have hfresh : (openedStream writeFlags [0, 0] .iolbf).FreshOutput :=
    openedStream_freshOutput (by decide) (by decide) (by decide)
  exact ⟨hfresh.toFresh.sound, hfresh.live⟩

theorem vfprintf_putBytes_line : ∃ all t,
    putBytes acceptingKernel ([104, 105] ++ [newline])
      ⟨openedStream writeFlags [0, 0] .iolbf, ()⟩ = some (all, t) ∧
    vfprintfUnlocked acceptingKernel (fun _ _ => none) (fun _ => [104, 105]) lineFormat
      (wordArgument 4096) ⟨openedStream writeFlags [0, 0] .iolbf, ()⟩ =
        some (if all = true ∧ true = true then (3 : ℤ).bmod (2 ^ 32) else EOF, t) ∧
    (all = true → Open writeFlags t ∧
      t.stream.accepted ++ t.stream.pending = [] ++ [] ++ ([104, 105] ++ [newline])) :=
  vfprintf_putBytes acceptingKernel (fun _ _ => none) (fun _ => [104, 105]) lineFormat
    (wordArgument 4096) rfl open_twoBytes (formatted_line _ (by decide)) (by decide)

/-- `puts` returns 1 exactly if the string and a newline are written. `println` returns a
number that is not negative exactly if the text, all of whose conversions are known, and a
newline are written, and then it is the length of the text. -/
theorem puts_println (K : Kernel W) (floating : Floating) (strings : BitVec 64 → List UInt8)
    {mode : ModeFlags} (hwrite : mode.write = true) {s : State W} (h : Open mode s)
    (str : BitVec 64) (hstr : (strings str).length < 2 ^ 31 - 1) (format : List UInt8)
    (va : VaList) {known : Bool} {output : List UInt8}
    (hformat : formatted floating strings format va = some (known, output))
    (houtput : output.length < 2 ^ 31) :
    (∃ all t, putBytes K (strings str ++ [newline]) s = some (all, t) ∧
      puts K floating strings str s = some (if all = true then 1 else EOF, t)) ∧
    (∀ t, putBytes K (output ++ [newline]) s = some (true, t) →
      println K floating strings format va s =
        some (if known = true then (output.length : ℤ) else EOF, t)) ∧
    ∀ r t, println K floating strings format va s = some (r, t) → 0 ≤ r →
      known = true ∧ putBytes K (output ++ [newline]) s = some (true, t) := by
  refine ⟨?_, ?_, ?_⟩
  · have hline : formatted floating strings lineFormat (wordArgument str) = _ :=
      formatted_line _ (hstr.trans_le (Nat.sub_le _ _))
    have hnext : (wordArgument str).next = str := rfl
    rw [hnext] at hline
    obtain ⟨all, t, hput, _⟩ := putBytes_open K (strings str ++ [newline]) h
    refine ⟨all, t, hput, ?_⟩
    unfold puts
    rw [vfprintf_int hwrite h hline (by rw [List.length_append]; exact Nat.add_lt_of_lt_sub hstr)
      hput]
    cases all with
    | true => rfl
    | false => rfl
  · intro t hput
    obtain ⟨all, u, hfirst, hu⟩ := putBytes_open K output h
    rw [putBytes_append, hfirst] at hput
    cases all with
    | false =>
      cases (Prod.mk.inj (Option.some.inj hput)).1
    | true =>
      obtain ⟨hopen, _⟩ := hu rfl
      have hres := vfprintf_int hwrite h hformat houtput hfirst
      have hline := vfprintf_newline floating strings (wordArgument 0) hwrite hopen hput
      unfold println
      rw [hres]
      dsimp only
      rw [hline]
      dsimp only
      rw [if_pos rfl, if_neg (not_not_intro rfl)]
      exact congrArg (fun r => some (r, t)) (if_congr (and_iff_right rfl) rfl rfl)
  · intro r t hprintln hr
    obtain ⟨all, u, hfirst, hu⟩ := putBytes_open K output h
    have hres := vfprintf_int hwrite h hformat houtput hfirst
    unfold println at hprintln
    rw [hres] at hprintln
    dsimp only at hprintln
    -- After a failure of the first part, what the second returns makes no difference.
    have hdone : all = true ∧ known = true := by
      by_contra hnot
      rw [if_neg hnot] at hprintln
      cases hnewline : vfprintfUnlocked K floating strings newlineFormat (wordArgument 0) u with
      | none =>
        rw [hnewline] at hprintln
        cases hprintln
      | some result =>
        rw [hnewline] at hprintln
        obtain ⟨rfl, _⟩ := Prod.mk.inj (Option.some.inj hprintln)
        rw [ite_self] at hr
        exact absurd hr (by decide)
    obtain ⟨rfl, hknown⟩ := hdone
    obtain ⟨last, v, hlast, _⟩ := putBytes_open K [newline] (hu rfl).1
    rw [vfprintf_newline floating strings (wordArgument 0) hwrite (hu rfl).1 hlast] at hprintln
    dsimp only at hprintln
    obtain ⟨rfl, rfl⟩ := Prod.mk.inj (Option.some.inj hprintln)
    refine ⟨hknown, ?_⟩
    rw [putBytes_append, hfirst]
    dsimp only
    rw [hlast]
    cases last with
    | true => rfl
    | false =>
      rw [if_neg Bool.false_ne_true, if_pos (by decide)] at hr
      exact absurd hr (by decide)

theorem puts_println_line :
    (∃ all t, putBytes acceptingKernel ([104, 105] ++ [newline])
        ⟨openedStream writeFlags [0, 0] .iolbf, ()⟩ = some (all, t) ∧
      puts acceptingKernel (fun _ _ => none) (fun _ => [104, 105]) 4096
        ⟨openedStream writeFlags [0, 0] .iolbf, ()⟩ =
          some (if all = true then 1 else EOF, t)) ∧
    (∀ t, putBytes acceptingKernel (([104, 105] ++ [newline]) ++ [newline])
        ⟨openedStream writeFlags [0, 0] .iolbf, ()⟩ = some (true, t) →
      println acceptingKernel (fun _ _ => none) (fun _ => [104, 105]) lineFormat
        (wordArgument 4096) ⟨openedStream writeFlags [0, 0] .iolbf, ()⟩ =
          some (if true = true then 3 else EOF, t)) ∧
    ∀ r t, println acceptingKernel (fun _ _ => none) (fun _ => [104, 105]) lineFormat
        (wordArgument 4096) ⟨openedStream writeFlags [0, 0] .iolbf, ()⟩ = some (r, t) → 0 ≤ r →
      true = true ∧ putBytes acceptingKernel (([104, 105] ++ [newline]) ++ [newline])
        ⟨openedStream writeFlags [0, 0] .iolbf, ()⟩ = some (true, t) :=
  puts_println acceptingKernel (fun _ _ => none) (fun _ => [104, 105]) rfl open_twoBytes 4096
    (by decide) lineFormat (wordArgument 4096) (formatted_line _ (by decide)) (by decide)

end Heartix.Printf
