import Reckon.Arithmetic
import Reckon.Expr.Basic
import Reckon.Proofs.Machine

/-!
# Trees never fault the stack

A fault of the stack says that operands and operators did not balance. Only the machine itself can
raise one: where the stack is too short for an instruction, and at the end. Neither arithmetic does,
whatever it is given, and a tree evaluates to nothing but values and errors of its arithmetic
(`Expr.raising_evaluate`).
-/

namespace Reckon

variable {α : Type}

/-- Whether an error says that operands and operators did not balance. -/
def EvalError.isStackFault : EvalError → Bool
  | missingOperands _ _ | unbalanced _ => true
  | _ => false

/-! ## Errors of a tree

`Arithmetic.Raises` speaks of the functions that an arithmetic hands out, on whatever arguments. An
operand is known only to be a value, so nothing less would carry the induction over the tree. -/

mutual

/-- A tree fails only with errors of the arithmetic. -/
theorem Expr.raising_evaluate {A : Arithmetic α} {E : EvalError → Prop} (hA : A.Raises E) :
    (e : Expr) → Raising E (e.evaluate A)
  | .number n => by
      rw [Expr.evaluate]
      exact hA.number n
  | .name s => by
      rw [Expr.evaluate]
      exact (hA.constant s).bind fun _ _ => .ok _
  | .unary op e => by
      rw [Expr.evaluate]
      refine (Expr.raising_evaluate hA e).bind fun _ _ => ?_
      refine (hA.unary op).bind fun _ hf => ?_
      exact (hA.applyUnary hf _).bind fun _ _ => .ok _
  | .binary op l r => by
      rw [Expr.evaluate]
      refine (Expr.raising_evaluate hA l).bind fun _ _ => ?_
      refine (Expr.raising_evaluate hA r).bind fun _ _ => ?_
      refine (hA.binary op).bind fun _ hf => ?_
      exact (hA.applyBinary hf _ _).bind fun _ _ => .ok _
  | .call s args => by
      rw [Expr.evaluate]
      refine (Expr.raising_evaluateAll hA args).bind fun _ _ => ?_
      refine (hA.function s _).bind fun _ hf => ?_
      exact (hA.call hf _).bind fun _ _ => .ok _

theorem Expr.raising_evaluateAll {A : Arithmetic α} {E : EvalError → Prop} (hA : A.Raises E) :
    (es : List Expr) → Raising E (Expr.evaluateAll A es)
  | [] => by
      rw [Expr.evaluateAll]
      exact .ok _
  | e :: es => by
      rw [Expr.evaluateAll]
      refine (Expr.raising_evaluate hA e).bind fun _ _ => ?_
      exact (Expr.raising_evaluateAll hA es).bind fun _ _ => .ok _

end

theorem Numeral.raising_integer (n : Numeral) :
    Raising (fun err => err.isStackFault = false) n.integer := by
  unfold Numeral.integer
  split
  · exact .error rfl
  · split
    · exact .error rfl
    · exact .ok _

namespace Word.Format

variable (f : Word.Format)

theorem raising_onDivisor (operation : String) (signedDiv unsignedDiv : Int → Int → Int)
    (a b : Int) : Raising (fun err => err.isStackFault = false)
      (f.onDivisor operation signedDiv unsignedDiv a b) := by
  unfold onDivisor
  split
  · exact .error rfl
  · split
    · split
      · exact .error rfl
      · exact .ok _
    · exact .ok _

theorem raising_pow (a b : Int) :
    Raising (fun err => err.isStackFault = false) (f.pow a b) := by
  unfold pow
  split
  · exact .error rfl
  · exact .ok _

theorem raising_binary (op : BinaryOp) (a b : Int) :
    Raising (fun err => err.isStackFault = false) (f.binary op a b) := by
  cases op with
  | div | mod => exact f.raising_onDivisor _ _ _ a b
  | caret | doubleStar => exact f.raising_pow a b
  | add | sub | mul | shiftLeft | shiftRight | bitAnd | bitXor | bitOr => exact .ok _

theorem raising_call (fn : Function) (args : List Int) :
    Raising (fun err => err.isStackFault = false) (f.call fn args) := by
  unfold call
  split
  · exact .ok _
  · exact .ok _
  · exact .ok _
  · exact .ok _
  · split
    · exact .error rfl
    · exact .error rfl

end Word.Format

/-- What a name stands for as a function of words, and with how many arguments. -/
theorem Arithmetic.words_function_eq_ok {f : Word.Format} {name : String} {argc : Nat}
    {g : List Int → Except EvalError Int} (h : (Arithmetic.words f).function name argc = .ok g) :
    ∃ fn, Function.ofName? name = some fn ∧ fn.onWords = true ∧ fn.accepts argc = true ∧
      g = f.call fn := by
  simp only [words] at h
  split at h
  · cases h
  · next fn hfn =>
      split at h
      · cases h
      · next hwords =>
          split at h
          · cases h
          · next haccepts =>
              cases h
              exact ⟨fn, hfn, by simpa using hwords, by simpa using haccepts, rfl⟩

/-- What a name stands for as a function of numbers, and with how many arguments. -/
theorem Arithmetic.floats_function_eq_ok {name : String} {argc : Nat}
    {g : List Binary64 → Except EvalError Binary64}
    (h : Arithmetic.floats.function name argc = .ok g) :
    ∃ fn, Function.ofName? name = some fn ∧ fn.integerOnly = false ∧ fn.accepts argc = true ∧
      g = Binary64.Guarded.call fn := by
  simp only [floats] at h
  split at h
  · cases h
  · next fn hfn =>
      split at h
      · cases h
      · next hfloats =>
          split at h
          · cases h
          · next haccepts =>
              cases h
              exact ⟨fn, hfn, by simpa using hfloats, by simpa using haccepts, rfl⟩

theorem Arithmetic.words_raises (f : Word.Format) :
    (Arithmetic.words f).Raises fun err => err.isStackFault = false where
  number n := by
    show Raising _ (if n.fractional then _ else _)
    split
    · exact .error rfl
    · exact n.raising_integer.bind fun _ _ => .ok _
  constant name := by
    show Raising _ (.error _)
    split
    · exact .error rfl
    · exact .error rfl
  function name argc := by
    simp only [words]
    split
    · exact .error rfl
    · split
      · exact .error rfl
      · split
        · exact .error rfl
        · exact .ok _
  call := by
    intro name argc g hg args
    obtain ⟨fn, -, -, -, rfl⟩ := words_function_eq_ok hg
    exact f.raising_call _ args
  unary op := .ok _
  applyUnary := by
    intro op g hg a
    cases hg
    exact .ok _
  binary op := .ok _
  applyBinary := by
    intro op g hg a b
    cases hg
    exact f.raising_binary op a b

namespace Binary64.Guarded

theorem raising_check (operation : String) (x : Binary64) :
    Raising (fun err => err.isStackFault = false) (check operation x) := by
  cases x with
  | finite x => exact .ok _
  | infinite _ | nan => exact .error rfl

theorem raising_mod (a b : Binary64) :
    Raising (fun err => err.isStackFault = false) (mod a b) := by
  unfold mod
  split
  · exact .error rfl
  · split
    · exact .error rfl
    · exact raising_check _ _

theorem raising_binary (op : BinaryOp) (a b : Binary64) :
    Raising (fun err => err.isStackFault = false) (binary op a b) := by
  cases op with
  | add | sub | mul | div | caret | doubleStar => exact raising_check _ _
  | mod => exact raising_mod a b
  | shiftLeft | shiftRight | bitAnd | bitXor | bitOr => exact .error rfl

theorem raising_unary (op : UnaryOp) (a : Binary64) :
    Raising (fun err => err.isStackFault = false) (unary op a) := by
  cases op with
  | minus | plus => exact .ok _
  | complement => exact .error rfl

theorem raising_named (name : String) (x : Except EvalError Binary64) :
    Raising (fun err => err.isStackFault = false) (named name x) := by
  cases x with
  | ok x => exact raising_check _ _
  | error _ => exact .error rfl

theorem raising_call (fn : Function) (args : List Binary64) :
    Raising (fun err => err.isStackFault = false) (call fn args) := by
  unfold call
  split
  · exact .ok _
  · exact .ok _
  · split
    · exact raising_named _ _
    · split
      · exact .error rfl
      · exact .error rfl

end Binary64.Guarded

theorem Arithmetic.raising_floatNumber (n : Numeral) :
    Raising (fun err => err.isStackFault = false) (Arithmetic.floatNumber n) := by
  unfold floatNumber
  split
  · split
    · exact (Binary64.Guarded.raising_check _ _).bind fun _ _ => .ok _
    · exact .error rfl
  · refine n.raising_integer.bind fun exact _ => ?_
    split
    · exact .ok _
    · exact .error rfl

theorem Arithmetic.floats_raises :
    Arithmetic.floats.Raises fun err => err.isStackFault = false where
  number := Arithmetic.raising_floatNumber
  constant name := by
    simp only [floats]
    split
    · exact .ok _
    · exact .error rfl
  function name argc := by
    simp only [floats]
    split
    · exact .error rfl
    · split
      · exact .error rfl
      · split
        · exact .error rfl
        · exact .ok _
  call := by
    intro name argc g hg args
    obtain ⟨fn, -, -, -, rfl⟩ := floats_function_eq_ok hg
    exact Binary64.Guarded.raising_call _ args
  unary op := by
    show Raising _ (if op.integerOnly then _ else _)
    split
    · exact .error rfl
    · exact .ok _
  applyUnary := by
    intro op g hg a
    change (if op.integerOnly then _ else _) = _ at hg
    split at hg
    · cases hg
    · cases hg
      exact Binary64.Guarded.raising_unary op a
  binary op := by
    show Raising _ (if op.integerOnly then _ else _)
    split
    · exact .error rfl
    · exact .ok _
  applyBinary := by
    intro op g hg a b
    change (if op.integerOnly then _ else _) = _ at hg
    split at hg
    · cases hg
    · cases hg
      exact Binary64.Guarded.raising_binary op a b

end Reckon
