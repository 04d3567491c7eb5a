import Reckon.Expr.Basic
import Reckon.Machine

/-!
# What the machine makes of a tree

Run on any stack, the program of a tree pushes the tree's value and never touches what lies below.
If the tree has no value, the run stops with the tree's error. This is `run_program`, and since it
holds on any stack the cases of its proof need nothing but one another: each node finds the values
of its operands on top.
-/

namespace Reckon.Expr

open Machine

variable {α : Type}

/-- Pushes a value, or passes on its error. -/
def push (s : State α) (r : Except EvalError (α × Option String)) : Except EvalError (State α) :=
  r.map fun x => ⟨x.1 :: s.stack, x.2 <|> s.note⟩

/-- Pushes values, the first one first. -/
def pushAll (s : State α) (r : Except EvalError (List α × Option String)) :
    Except EvalError (State α) :=
  r.map fun x => ⟨x.1.reverse ++ s.stack, x.2 <|> s.note⟩

theorem take_reverse_append (consumer : String) (as rest : List α) :
    take consumer as.length (as.reverse ++ rest) = .ok (as, rest) := by
  simp [take]

theorem length_evaluateAll {A : Arithmetic α} {es : List Expr} {as : List α}
    {note : Option String} (h : evaluateAll A es = .ok (as, note)) : as.length = es.length := by
  induction es generalizing as note with
  | nil => cases h; rfl
  | cons e es ih =>
    rw [evaluateAll] at h
    rcases he : e.evaluate A with err | ⟨a, earlier⟩ <;> rw [he] at h
    · cases h
    · rcases hs : evaluateAll A es with err | ⟨bs, later⟩ <;> rw [hs] at h
      · cases h
      · cases h
        simp [ih hs]

mutual

theorem run_program (A : Arithmetic α) (s : State α) :
    (e : Expr) → run A s e.program = push s (e.evaluate A)
  | number n => by
    simp only [program, run_cons, run_nil, step, evaluate, push]
    rcases A.number n with err | ⟨a, note⟩ <;> rfl
  | name n => by
    simp only [program, run_cons, run_nil, step, evaluate, push]
    rcases A.constant n with err | a
    · rfl
    · simp [bind, Except.bind, pure, Except.pure, Except.map]
  | unary op e => by
    simp only [program, run_append, run_cons, run_nil, step, evaluate, run_program A s e]
    rcases e.evaluate A with err | ⟨a, note⟩
    · rfl
    · rcases A.unary op with err | apply
      · rfl
      · simp only [push, Except.map, bind, Except.bind]
        rcases apply a with err | b <;> rfl
  | binary op l r => by
    simp only [program, run_append, run_cons, run_nil, step, evaluate, run_program A s l]
    rcases l.evaluate A with err | ⟨a, earlier⟩
    · rfl
    · simp only [push, Except.map, bind, Except.bind, run_program A _ r]
      rcases r.evaluate A with err | ⟨b, later⟩
      · rfl
      · rcases A.binary op with err | apply
        · rfl
        · dsimp only
          rcases apply a b with err | c
          · rfl
          · cases later <;> rfl
  | call n args => by
    simp only [program, run_append, run_cons, run_nil, step, evaluate, run_programs A s args]
    rcases h : evaluateAll A args with err | ⟨as, note⟩
    · rfl
    · simp only [pushAll, Except.map, bind, Except.bind, ← length_evaluateAll h]
      rcases A.function n as.length with err | apply
      · rfl
      · simp only [take_reverse_append]
        rcases apply as with err | a <;> rfl

theorem run_programs (A : Arithmetic α) (s : State α) :
    (es : List Expr) → run A s (programs es) = pushAll s (evaluateAll A es)
  | [] => by simp [programs, evaluateAll, pushAll, Except.map]
  | e :: es => by
    simp only [programs, run_append, evaluateAll, run_program A s e]
    rcases e.evaluate A with err | ⟨a, earlier⟩
    · rfl
    · simp only [push, Except.map, bind, Except.bind, run_programs A _ es]
      rcases evaluateAll A es with err | ⟨as, later⟩
      · rfl
      · cases later <;> simp [pushAll, Except.map, pure, Except.pure]

end

/-- The machine agrees with the tree: one value is left, or the same error is raised. -/
theorem machine_evaluate_program (A : Arithmetic α) (e : Expr) :
    Machine.evaluate A e.program = e.evaluate A := by
  rw [Machine.evaluate, run_program]
  rcases e.evaluate A with err | ⟨a, note⟩
  · rfl
  · cases note <;> rfl

end Reckon.Expr
