import Heartix.Gsh.Parser
import Heartix.Process.Arguments

/-!
Handing the arguments of a call to the program that is spawned for it. The shell
has removed quotation marks and backslashes once when it parsed the line; the
program's own `parseargs` removes them again.
-/

namespace Heartix.Gsh

open Fields Process

/-- The loop of `gshProcessExpression` over the arguments of a call. -/
def argumentStream : (first : Bool) → (arguments : List (List UInt8)) → List UInt8
  | _, [] => []
  | first, arg :: arguments =>
      (if first = true then [] else [G_CLIARGS_SEPARATOR]) ++ arg ++
        argumentStream false arguments

/-- The argument string the program is spawned with. -/
def argumentString (call : ProgramCall) : List UInt8 := argumentStream true call.arguments

theorem argumentStream_eq (first : Bool) (arguments : List (List UInt8)) :
    argumentStream first arguments =
      (if first = true ∨ arguments = [] then [] else [G_CLIARGS_SEPARATOR]) ++
        [G_CLIARGS_SEPARATOR].intercalate arguments := by
  induction arguments generalizing first with
  | nil => simp [argumentStream]
  | cons a arguments ih =>
    rw [argumentStream, ih]
    cases arguments with
    | nil => simp
    | cons b arguments => cases first <;> simp [List.intercalate_cons_cons]

theorem argumentString_eq (call : ProgramCall) :
    argumentString call = [G_CLIARGS_SEPARATOR].intercalate call.arguments := by
  simp [argumentString, argumentStream_eq]

/-- A program gets the arguments of its call unchanged exactly when none of them
contains a backslash or a quotation mark and the last one is not empty. -/
theorem argument_transport_iff (malloc : ℕ → Bool) (hmalloc : ∀ size, malloc size = true)
    (executableName : List UInt8) (call : ProgramCall)
    (hclean : ∀ a ∈ call.arguments, Clean a) :
    (∃ argv, parseargs malloc executableName (argumentString call) =
        some (call.arguments.length + 1, argv) ∧
      ∀ i, 1 ≤ i → i ≤ call.arguments.length → argv[i]? = call.arguments[i - 1]?) ↔
    (∀ a ∈ call.arguments, Process.backslash ∉ a ∧ Process.quotationMark ∉ a) ∧
      call.arguments.getLast? ≠ some [] := by
  rw [parseargs_eq hmalloc, argumentString_eq, fields_joined hclean]
  constructor
  · rintro ⟨argv, heq, hargs⟩
    obtain ⟨hlen, rfl⟩ := Prod.mk.inj (Option.some.inj heq)
    have hlast : call.arguments.getLast? ≠ some [] :=
      length_trimmed_eq_iff.mp (Nat.succ.inj hlen)
    refine ⟨fun a ha => ?_, hlast⟩
    obtain ⟨j, hj, rfl⟩ := List.getElem_of_mem ha
    have harg := hargs (j + 1) (by omega) hj
    rw [trimmed_of_last_ne hlast, List.getElem?_cons_succ, List.getElem?_map,
      Nat.add_sub_cancel, List.getElem?_eq_getElem hj] at harg
    exact (unquoted_eq_self_iff _).mp (Option.some.inj harg)
  · rintro ⟨hplain, hlast⟩
    rw [trimmed_of_last_ne hlast]
    refine ⟨_, rfl, fun i hi _ => ?_⟩
    obtain ⟨j, rfl⟩ := Nat.exists_eq_add_of_le' hi
    rw [List.getElem?_cons_succ, Nat.add_sub_cancel]
    have hself : call.arguments.map (unquoted false) = call.arguments := by
      conv_rhs => rw [← List.map_id call.arguments]
      exact List.map_congr_left fun a ha => (unquoted_eq_self_iff a).mpr (hplain a ha)
    rw [hself]

theorem argument_transport_iff_echo :
    (∃ argv, parseargs (fun _ => true) [101] (argumentString ⟨[101], [[], [97]]⟩) =
        some (3, argv) ∧
      ∀ i, 1 ≤ i → i ≤ 2 → argv[i]? = [([] : List UInt8), [97]][i - 1]?) ↔
    (∀ a ∈ [([] : List UInt8), [97]], Process.backslash ∉ a ∧ Process.quotationMark ∉ a) ∧
      [([] : List UInt8), [97]].getLast? ≠ some [] :=
  argument_transport_iff (fun _ => true) (fun _ => rfl) [101] ⟨[101], [[], [97]]⟩ (by decide)

/-- From the line `e a\\b` the shell gets the argument `a\b`; the program gets `ab`. -/
theorem argument_transport_backslash :
    (Parser.new [101, 32, 97, 92, 92, 98]).pipeExpression =
      .ok [⟨[101], [[97, 92, 98]]⟩] ∧
    parseargs (fun _ => true) [101] (argumentString ⟨[101], [[97, 92, 98]]⟩) =
      some (2, [[101], [97, 98]]) ∧
    ¬ ∃ argv, parseargs (fun _ => true) [101] (argumentString ⟨[101], [[97, 92, 98]]⟩) =
        some (2, argv) ∧
      ∀ i, 1 ≤ i → i ≤ 1 → argv[i]? = [([97, 92, 98] : List UInt8)][i - 1]? := by
  have hrun : parseargs (fun _ => true) [101] (argumentString ⟨[101], [[97, 92, 98]]⟩) =
      some (2, [[101], [97, 98]]) := by
    decide +kernel
  refine ⟨by decide +kernel, hrun, ?_⟩
  rintro ⟨argv, heq, hargs⟩
  rw [hrun] at heq
  obtain ⟨-, rfl⟩ := Prod.mk.inj (Option.some.inj heq)
  exact absurd (hargs 1 (by omega) (by omega)) (by decide)

end Heartix.Gsh
