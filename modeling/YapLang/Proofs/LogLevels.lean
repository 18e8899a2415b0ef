import YapLang.Proofs.PairedRuns
import YapLang.Proofs.ScopeFrames

/-!
# Messages and their levels

Messages are put together beside a run and are never read by it. Two runs of a program that log up
to different levels go in step: at every point the quieter machine is the other one without the
messages that are too detailed for it, and so it is at the end, with the same value or the same
reason for a halt.
-/
namespace YapLang

namespace Machine

/-- The machine without the messages above a level. -/
def quieted (level : Nat) (m : Machine) : Machine :=
  { m with log := m.log.filter fun entry => entry.level ≤ level }

@[simp] theorem quieted_scopes (level : Nat) (m : Machine) : (m.quieted level).scopes = m.scopes :=
  rfl

end Machine

namespace Run

variable {α : Type} {quiet loud : Nat}

/-- The first machine is the second one without the messages above a level. -/
def Quieter (level : Nat) (m n : Machine) : Prop :=
  m = n.quieted level

/-- A change that neither reads nor writes the log. -/
theorem paired_unlogged {f : Machine → α × Machine}
    (unlogged : ∀ n, f (n.quieted quiet) = ((f n).1, (f n).2.quieted quiet)) :
    Paired (Quieter quiet) (modifyGet f) (modifyGet f) := by
  apply Paired.modifyGet
  rintro _ n rfl
  rw [unlogged]
  exact ⟨rfl, rfl⟩

/-- Of a message that only the louder run logs, nothing is left when its log is quieted. -/
theorem paired_note (less : quiet ≤ loud) (patience : Nat) (stream : Stream) (level : Nat)
    (message : Heap → Text) :
    Paired (Quieter quiet) (note ⟨quiet, patience, stream⟩ level message)
      (note ⟨loud, patience, stream⟩ level message) := by
  rintro _ n rfl
  by_cases inQuiet : level ≤ quiet
  · have inLoud : level ≤ loud := Nat.le_trans inQuiet less
    simp only [note, if_pos inQuiet, if_pos inLoud]
    apply SameEnd.value
    simp [Quieter, Machine.quieted, inQuiet]
  · by_cases inLoud : level ≤ loud
    · simp only [note, if_neg inQuiet, if_pos inLoud]
      apply SameEnd.value
      simp [Quieter, Machine.quieted, inQuiet]
    · simp only [note, if_neg inQuiet, if_neg inLoud]
      exact .value rfl

/-- All operations of the machine but the logging of a message leave the log alone. -/
theorem lockstep_quieter (less : quiet ≤ loud) (patience : Nat) (stream : Stream) :
    Lockstep (Quieter quiet) (fun _ => True) ⟨quiet, patience, stream⟩
      ⟨loud, patience, stream⟩ where
  patience := rfl
  heap := by
    rintro _ n rfl
    rfl
  closures := fun _ _ _ => ⟨fun _ _ => trivial, fun _ _ => trivial⟩
  readName := by
    intro scope name _
    apply Paired.get
    rintro _ n rfl
    rw [Machine.quieted_scopes]
    cases n.scopes.get? name scope with
    | none => exact .fail _
    | some value => exact .pure value
  assignName := by
    intro scope name value _
    apply Paired.get
    rintro _ n rfl
    rw [Machine.quieted_scopes]
    cases n.scopes.resolve? name scope with
    | none => exact .fail _
    | some owner => exact (paired_unlogged fun _ => rfl).bind fun _ => .pure value
  declareName := fun _ _ _ _ => paired_unlogged fun _ => rfl
  openScope := fun _ => paired_unlogged fun _ => rfl
  newArray := fun _ => paired_unlogged fun _ => rfl
  changeItems := fun _ _ => paired_unlogged fun _ => rfl
  newClosure := fun _ _ => paired_unlogged fun _ => rfl
  newMethod := fun _ _ => paired_unlogged fun _ => rfl
  write := by
    intro text
    apply Paired.write rfl
    rintro _ n rfl
    rfl
  drawNumber := by
    apply Paired.modifyGet
    rintro _ ⟨scopes, heap, stamps, draws, output, log⟩ rfl
    dsimp only [Machine.quieted]
    exact ⟨rfl, rfl⟩
  note := paired_note less patience stream

open Machine

/-- How much is logged does not change what a program does. Run with a lower and with a higher
level, from the same state without a log and to the same stream, it gives the same value or halts
for the same reason, and it ends in states that differ in the log alone: that of the lower level is
what is left of the other one when the messages above the lower level are taken out. -/
theorem log_level_never_matters (less : quiet ≤ loud) (patience : Nat) (stream : Stream)
    (limit : Nat) (scope : ScopeRef) (body : List Node) (m : Machine) (unlogged : m.log = #[]) :
    SameEnd (fun m n => m = { n with log := n.log.filter fun entry => entry.level ≤ quiet })
      (program ⟨quiet, patience, stream⟩ limit scope body m)
      (program ⟨loud, patience, stream⟩ limit scope body m) := by
  have fresh : Quieter quiet m m := by
    unfold Quieter quieted
    rw [unlogged, Array.filter_empty, ← unlogged]
  exact program_paired (lockstep_quieter less patience stream) limit scope (fun _ _ => trivial) m m
    fresh

/-- Of six messages about a declaration, a condition and two calls, the second level keeps three. -/
theorem log_level_never_matters_calls :
    let body : List Node :=
      [ .function "f" [] [],
        .conditional (.identifier "true")
          [.statement (.call (.identifier "print") [.call (.identifier "f") []])] none ]
    let messages (level : Nat) :=
      (final (program ⟨level, 10, .memory⟩ 10 globalScope body)
        (start builtins fun _ => 0)).log.toList.map LogEntry.message
    messages 2 =
      ["run: 2 top-level statements", "define function f()", "run: finished with <normal>"] ∧
    messages 3 =
      ["run: 2 top-level statements", "define function f()", "if condition true -> true",
        "call f()", "call native print", "run: finished with <normal>"] ∧
    SameEnd (fun m n => m = { n with log := n.log.filter fun entry => entry.level ≤ 2 })
      (program ⟨2, 10, .memory⟩ 10 globalScope body (start builtins fun _ => 0))
      (program ⟨3, 10, .memory⟩ 10 globalScope body (start builtins fun _ => 0)) := by
  intro body messages
  refine ⟨by decide +kernel, by decide +kernel, ?_⟩
  exact log_level_never_matters (by decide) 10 .memory 10 globalScope body
    (start builtins fun _ => 0) rfl

end Run

end YapLang
