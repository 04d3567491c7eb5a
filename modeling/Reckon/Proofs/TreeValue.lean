import Reckon.Proofs.Postfix
import Reckon.Proofs.Readings
import Reckon.Proofs.StackFault

/-!
# The value of a program is the value of its tree

A machine and the tree it runs the listing of have the same value or the same error, and a program
that lists no tree has no value. Both are known for any arithmetic. Here they are said of what the
calculator does under given options. In integer mode the machine's one value is reduced once more
at the end; the tree is not, and need not be, since its value is a residue already.
-/

namespace Reckon

/-- What a tree evaluates to under the given options, with no program in between. -/
def Expr.result (o : Options) (e : Expr) : Except EvalError Result :=
  match o.mode with
  | .float => (e.evaluate Arithmetic.floats).map fun x => .float x.1 x.2
  | .integer => (e.evaluate (Arithmetic.words o.wordFormat)).map fun x => .word x.1 o

theorem Program.evaluate_float {o : Options} (ho : o.mode = .float) (p : Program) :
    p.evaluate o = (Machine.evaluate Arithmetic.floats p).map fun x => .float x.1 x.2 := by
  rw [Program.evaluate, ho]
  rfl

theorem Program.evaluate_integer {o : Options} (ho : o.mode = .integer) (p : Program) :
    p.evaluate o = (Machine.evaluate (Arithmetic.words o.wordFormat) p).map fun x =>
      .word (o.wordFormat.residue x.1) o := by
  rw [Program.evaluate, ho]
  rfl

/-- The last reduction of a word leaves it as it is. -/
theorem Program.evaluate_integer_eq {o : Options} (ho : o.mode = .integer) (p : Program) :
    p.evaluate o = (Machine.evaluate (Arithmetic.words o.wordFormat) p).map fun x =>
      .word x.1 o := by
  rw [Program.evaluate_integer ho]
  have hres : ∀ x, Machine.evaluate (Arithmetic.words o.wordFormat) p = .ok x →
      o.wordFormat.residue x.1 = x.1 := fun _ hx =>
    Arithmetic.residue_words_evaluate o.width.property hx
  cases hp : Machine.evaluate (Arithmetic.words o.wordFormat) p with
  | error err => rfl
  | ok x => exact congrArg (fun a => Except.ok (Result.word a o)) (hres x hp)

theorem Expr.evaluate_program (o : Options) (e : Expr) : e.program.evaluate o = e.result o := by
  cases ho : o.mode with
  | float => rw [Program.evaluate_float ho, Expr.machine_evaluate_program, Expr.result, ho]
  | integer =>
      rw [Program.evaluate_integer_eq ho, Expr.machine_evaluate_program, Expr.result, ho]

/-- Behind a result there is a run of one of the two machines. -/
theorem Program.machine_of_evaluate {o : Options} {p : Program} {r : Result}
    (h : p.evaluate o = .ok r) : (∃ x, Machine.evaluate Arithmetic.floats p = .ok x) ∨
      ∃ x, Machine.evaluate (Arithmetic.words o.wordFormat) p = .ok x := by
  cases ho : o.mode with
  | float =>
      rw [Program.evaluate_float ho] at h
      obtain ⟨x, hx, -⟩ := map_eq_ok h
      exact .inl ⟨x, hx⟩
  | integer =>
      rw [Program.evaluate_integer ho] at h
      obtain ⟨x, hx, -⟩ := map_eq_ok h
      exact .inr ⟨x, hx⟩

theorem Program.exists_expr {o : Options} {p : Program} {r : Result} (h : p.evaluate o = .ok r) :
    ∃ e : Expr, e.program = p := by
  rcases Program.machine_of_evaluate h with ⟨x, hx⟩ | ⟨x, hx⟩
  · exact exists_program_eq hx
  · exact exists_program_eq hx

theorem Expr.raising_evaluate_program (o : Options) (e : Expr) :
    Raising (fun err => err.isStackFault = false) (e.program.evaluate o) := by
  intro err h
  rw [Expr.evaluate_program, Expr.result] at h
  cases ho : o.mode with
  | float =>
      rw [ho] at h
      exact Expr.raising_evaluate Arithmetic.floats_raises e err (map_eq_error h)
  | integer =>
      rw [ho] at h
      exact Expr.raising_evaluate (Arithmetic.words_raises _) e err (map_eq_error h)

/-- The listing of a tree evaluates to what the tree does, value or error, and the error is never a
fault of the stack. A program that has a value is the listing of one tree and of no other. -/
theorem machine_computes_trees (o : Options) :
    (∀ e : Expr, e.program.evaluate o = e.result o) ∧
    (∀ e : Expr, Raising (fun err => err.isStackFault = false) (e.program.evaluate o)) ∧
    (∀ (p : Program) (r : Result), p.evaluate o = .ok r →
      ∃ e : Expr, e.program = p ∧ e.result o = .ok r ∧ ∀ e' : Expr, e'.program = p → e' = e) := by
  refine ⟨Expr.evaluate_program o, Expr.raising_evaluate_program o, ?_⟩
  intro p r h
  obtain ⟨e, rfl⟩ := Program.exists_expr h
  rw [Expr.evaluate_program] at h
  exact ⟨e, rfl, h, fun e' he' => Expr.program_injective he'⟩

end Reckon
