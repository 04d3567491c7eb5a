import Reckon.Proofs.Readings
import Reckon.Proofs.StackFault

/-!
# Machines that keep to values of one kind

If the operations of an arithmetic lead from values of one kind to values of that kind, then these
are all that is ever on the stack; and if on such values they raise only errors of one kind, so does
a run, as long as the program has no call head that was lost and only numerals that can be
read (`Arithmetic.Keeps`). Numbers keep to the finite ones in this way and words to anything, and
neither commits a breach. What would be one is kept out by the kind of values: the remainder and the
rounding of an infinity, because there is none; a divisor that vanishes when it is read, because no
word but zero reads as zero, which the machine on readings makes plain.
-/

namespace Reckon

variable {α : Type}

/-- Whether an error is a call outside the domain of an operation. -/
def EvalError.isBreach : EvalError → Bool
  | breach _ => true
  | _ => false

/-- Whether an instruction is one that the machines are meant for, with a numeral that satisfies
`N`. -/
def Instruction.Sane (N : Numeral → Prop) : Instruction → Prop
  | .number n => N n
  | .stray _ => False
  | .constant _ | .operator _ | .call _ _ => True

/-- On values that satisfy `P` the arithmetic has only such values and errors that satisfy `E`,
except that a numeral that does not satisfy `N` may be another error. -/
structure Arithmetic.Keeps (A : Arithmetic α) (N : Numeral → Prop) (E : EvalError → Prop)
    (P : α → Prop) : Prop where
  number : ∀ n, Settles (fun err => N n → E err) (fun x => P x.1) (A.number n)
  constant : ∀ name, Settles E P (A.constant name)
  function : ∀ name argc, Settles E
    (fun f => ∀ as : List α, (∀ a ∈ as, P a) → Settles E P (f as)) (A.function name argc)
  unary : ∀ op, Settles E (fun f => ∀ a, P a → Settles E P (f a)) (A.unary op)
  binary : ∀ op, Settles E (fun f => ∀ a b, P a → P b → Settles E P (f a b)) (A.binary op)

namespace Machine

variable {A : Arithmetic α} {N : Numeral → Prop} {E : EvalError → Prop} {P : α → Prop}

theorem take_settles (hmissing : ∀ consumer depth, E (.missingOperands consumer depth))
    {stack : List α} (hs : ∀ a ∈ stack, P a) (consumer : String) (count : Nat) :
    Settles E (fun x => (∀ a ∈ x.1, P a) ∧ ∀ a ∈ x.2, P a) (take consumer count stack) := by
  unfold take
  split
  · exact hmissing _ _
  · refine ⟨fun a ha => hs a ?_, fun a ha => hs a (List.mem_of_mem_drop ha)⟩
    exact List.mem_of_mem_take (List.mem_reverse.mp ha)

theorem step_settles (hA : A.Keeps N E P)
    (hmissing : ∀ consumer depth, E (.missingOperands consumer depth)) {s : State α}
    (hs : ∀ a ∈ s.stack, P a) (i : Instruction) :
    Settles (fun err => i.Sane N → E err) (fun s' => ∀ a ∈ s'.stack, P a) (step A s i) := by
  obtain ⟨stack, note⟩ := s
  -- All but numerals and lost call heads raise what they raise without a condition.
  have hpush {x : Except EvalError (State α)} {i : Instruction}
      (h : Settles E (fun s' => ∀ a ∈ s'.stack, P a) x) :
      Settles (fun err => i.Sane N → E err) (fun s' => ∀ a ∈ s'.stack, P a) x :=
    h.mono (fun _ herr _ => herr) fun _ h => h
  match i with
  | .number n =>
      refine (hA.number n).bind ?_
      rintro ⟨a, remark⟩ ha
      exact List.forall_mem_cons.mpr ⟨ha, hs⟩
  | .constant name =>
      refine hpush ((hA.constant name).bind fun a ha => ?_)
      exact List.forall_mem_cons.mpr ⟨ha, hs⟩
  | .call name argc =>
      refine hpush ((hA.function name argc).bind fun f hf => ?_)
      refine (take_settles hmissing hs name argc).bind ?_
      rintro ⟨args, rest⟩ ⟨hargs, hrest⟩
      exact (hf args hargs).bind fun a ha => List.forall_mem_cons.mpr ⟨ha, hrest⟩
  | .operator (.unary op) =>
      refine hpush ((hA.unary op).bind fun f hf => ?_)
      match stack with
      | [] => exact hmissing _ _
      | a :: rest =>
          obtain ⟨ha, hrest⟩ := List.forall_mem_cons.mp hs
          exact (hf a ha).bind fun b hb => List.forall_mem_cons.mpr ⟨hb, hrest⟩
  | .operator (.binary op) =>
      refine hpush ((hA.binary op).bind fun f hf => ?_)
      match stack with
      | [] => exact hmissing _ _
      | [_] => exact hmissing _ _
      | b :: a :: rest =>
          obtain ⟨hb, hs⟩ := List.forall_mem_cons.mp hs
          obtain ⟨ha, hrest⟩ := List.forall_mem_cons.mp hs
          exact (hf a b ha hb).bind fun c hc => List.forall_mem_cons.mpr ⟨hc, hrest⟩
  | .stray name => exact False.elim

theorem run_settles (hA : A.Keeps N E P)
    (hmissing : ∀ consumer depth, E (.missingOperands consumer depth)) (p : Program) :
    ∀ {s : State α}, (∀ a ∈ s.stack, P a) →
      Settles (fun err => (∀ i ∈ p, i.Sane N) → E err) (fun s' => ∀ a ∈ s'.stack, P a)
        (run A s p) := by
  induction p with
  | nil =>
      intro s hs
      exact hs
  | cons i p ih =>
      intro s hs
      rw [run_cons]
      have hstep : Settles (fun err => (∀ j ∈ i :: p, j.Sane N) → E err)
          (fun s' => ∀ a ∈ s'.stack, P a) (step A s i) :=
        (step_settles hA hmissing hs i).mono
          (fun _ herr hsane => herr (hsane i (by simp))) fun _ h => h
      refine hstep.bind fun s' hs' => (ih hs').mono ?_ fun _ h => h
      exact fun err herr hsane => herr fun j hj => hsane j (by simp [hj])

theorem evaluate_settles (hA : A.Keeps N E P)
    (hmissing : ∀ consumer depth, E (.missingOperands consumer depth))
    (hunbalanced : ∀ depth, E (.unbalanced depth)) (p : Program) :
    Settles (fun err => (∀ i ∈ p, i.Sane N) → E err) (fun x => P x.1) (evaluate A p) := by
  refine (run_settles hA hmissing p (s := {}) (by intro a ha; cases ha)).bind fun s hs => ?_
  unfold result
  split
  · next value hstack => exact hs value (by rw [hstack]; simp)
  · exact fun _ => hunbalanced _

end Machine

namespace Binary64

theorem isFinite_neg {a : Binary64} (h : a.isFinite = true) : a.neg.isFinite = true := by
  cases a with
  | finite x => rfl
  | infinite _ | nan => cases h

theorem isFinite_value (c : Constant) : c.value.isFinite = true := by
  cases c <;> decide

theorem isFinite_least {a b : Binary64} (ha : a.isFinite = true) (hb : b.isFinite = true) :
    (least a b).isFinite = true := by
  unfold least
  split
  · exact hb
  · exact ha

theorem isFinite_greatest {a b : Binary64} (ha : a.isFinite = true) (hb : b.isFinite = true) :
    (greatest a b).isFinite = true := by
  unfold greatest
  split
  · exact hb
  · exact ha

theorem isFinite_foldl {f : Binary64 → Binary64 → Binary64}
    (hf : ∀ {a b}, a.isFinite = true → b.isFinite = true → (f a b).isFinite = true)
    {as : List Binary64} (has : ∀ a ∈ as, a.isFinite = true) {a : Binary64}
    (ha : a.isFinite = true) : (as.foldl f a).isFinite = true := by
  induction as generalizing a with
  | nil => exact ha
  | cons b as ih =>
      obtain ⟨hb, has⟩ := List.forall_mem_cons.mp has
      exact ih has (hf ha hb)

namespace Guarded

/-- A value is finite, and an error is no breach. -/
abbrev Sound (x : Except EvalError Binary64) : Prop :=
  Settles (fun err => err.isBreach = false) (fun a => a.isFinite = true) x

theorem sound_check (operation : String) (x : Binary64) : Sound (check operation x) := by
  cases x <;> rfl

theorem sound_binary (op : BinaryOp) {a : Binary64} (ha : a.isFinite = true) (b : Binary64) :
    Sound (binary op a b) := by
  cases op with
  | add | sub | mul | div | caret | doubleStar => exact sound_check _ _
  | mod =>
      show Sound (mod a b)
      unfold mod
      split
      · rfl
      · cases a with
        | finite x =>
            rw [if_neg (by simp [infiniteDividend])]
            exact sound_check _ _
        | infinite _ | nan => cases ha
  | shiftLeft | shiftRight | bitAnd | bitXor | bitOr => rfl

theorem sound_unary (op : UnaryOp) {a : Binary64} (ha : a.isFinite = true) :
    Sound (unary op a) := by
  cases op with
  | minus => exact isFinite_neg ha
  | plus => exact ha
  | complement => rfl

theorem sound_named (name : String) (x : Except EvalError Binary64) : Sound (named name x) := by
  cases x with
  | ok x => exact sound_check _ _
  | error _ => rfl

theorem sound_call (fn : Function) {as : List Binary64} (has : ∀ a ∈ as, a.isFinite = true) :
    Sound (call fn as) := by
  unfold call
  split
  · obtain ⟨ha, has⟩ := List.forall_mem_cons.mp has
    exact isFinite_foldl isFinite_least has ha
  · obtain ⟨ha, has⟩ := List.forall_mem_cons.mp has
    exact isFinite_foldl isFinite_greatest has ha
  · split
    · exact sound_named _ _
    · split <;> rfl

end Guarded

end Binary64

/-- Whether the numeral has a text that can be read, save that its radix may lack a digit. -/
structure Numeral.Readable (n : Numeral) : Prop where
  nonempty : n.text.isEmpty = false
  decimal : Arithmetic.readAsDecimal n = true → (Binary64.ofWritten? n.text.toList).isSome

theorem Numeral.settles_integer (n : Numeral) :
    Settles (fun err => n.Readable → err.isBreach = false) (fun _ => True) n.integer := by
  unfold Numeral.integer
  split
  · exact fun _ => rfl
  · split
    · next hempty =>
        intro hn
        have hne := hn.nonempty
        rw [hempty] at hne
        cases hne
    · trivial

theorem Arithmetic.settles_floatNumber (n : Numeral) :
    Settles (fun err => n.Readable → err.isBreach = false) (fun x => x.1.isFinite = true)
      (floatNumber n) := by
  unfold floatNumber
  split
  · next hdecimal =>
      split
      · next x hx =>
          have hcheck := Binary64.Guarded.sound_check "literal" x
          refine (hcheck.mono (fun _ herr _ => herr) fun _ h => h).bind fun a ha => ?_
          exact ha
      · next hnone =>
          intro hn
          have hsome := hn.decimal hdecimal
          rw [hnone] at hsome
          cases hsome
  · refine n.settles_integer.bind fun exact _ => ?_
    split
    · rfl
    · exact fun _ => rfl

/-- Numbers are kept finite. -/
theorem Arithmetic.floats_keeps : Arithmetic.floats.Keeps Numeral.Readable
    (fun err => err.isBreach = false) (fun a => a.isFinite = true) where
  number := settles_floatNumber
  constant name := by
    simp only [floats]
    split
    · exact Binary64.isFinite_value _
    · rfl
  function name argc := by
    simp only [floats]
    split
    · rfl
    · split
      · rfl
      · split
        · rfl
        · exact fun as has => Binary64.Guarded.sound_call _ has
  unary op := by
    show Settles _ _ (if op.integerOnly then _ else _)
    split
    · rfl
    · exact fun a ha => Binary64.Guarded.sound_unary op ha
  binary op := by
    show Settles _ _ (if op.integerOnly then _ else _)
    split
    · rfl
    · exact fun a b ha _ => Binary64.Guarded.sound_binary op ha b

/-! ## Words

That a divisor which is not zero does not vanish when it is read is not plain on words, so the words
are not gone through. They run in lockstep with the machine on exact readings, where a divisor is
tested as it is, and an error of the one is an error of the other. Only the range of a value is a
matter of the words themselves. -/

namespace Word.Format

variable (f : Word.Format)

theorem settles_exactBinary (op : BinaryOp) (x y : Int) :
    Settles (fun err => err.isBreach = false) (fun _ => True) (f.exactBinary op x y) := by
  have hdivision (operation : String) (divided : Int → Int → Int) :
      Settles (fun err => err.isBreach = false) (fun _ => True)
        (exactDivision operation divided x y) := by
    unfold exactDivision
    split
    · rfl
    · trivial
  cases op with
  | div | mod => exact hdivision _ _
  | caret | doubleStar =>
      show Settles _ _ (if y < 0 then _ else _)
      split
      · rfl
      · trivial
  | add | sub | mul | shiftLeft | shiftRight | bitAnd | bitXor | bitOr => trivial

theorem settles_exactCall (fn : Function) (xs : List Int) :
    Settles (fun err => err.isBreach = false) (fun _ => True) (f.exactCall fn xs) := by
  unfold exactCall
  split
  · trivial
  · trivial
  · trivial
  · trivial
  · rfl

end Word.Format

theorem Arithmetic.readings_keeps (f : Word.Format) : (Arithmetic.readings f).Keeps
    Numeral.Readable (fun err => err.isBreach = false) (fun _ => True) where
  number n := by
    show Settles _ _ (if n.fractional then _ else _)
    split
    · exact fun _ => rfl
    · refine Settles.map (P := fun _ => True) ?_ fun _ _ => trivial
      exact n.settles_integer.bind fun _ _ => trivial
  constant name := by
    simp only [readings]
    split <;> rfl
  function name argc := by
    simp only [readings]
    split
    · rfl
    · split
      · rfl
      · split
        · rfl
        · exact fun xs _ => (f.settles_exactCall _ xs).map fun _ _ => trivial
  unary op := fun _ _ => trivial
  binary op := fun x y _ _ => (f.settles_exactBinary op x y).map fun _ _ => trivial

/-- Words commit no breach either, since they fail where their readings do. -/
theorem Arithmetic.words_evaluate_settles {f : Word.Format} (hw : 0 < f.width) (p : Program) :
    Settles (fun err => (∀ i ∈ p, i.Sane Numeral.Readable) → err.isBreach = false)
      (fun x => 0 ≤ x.1 ∧ x.1 < 2 ^ f.width) (Machine.evaluate (Arithmetic.words f) p) := by
  have hsettles := Machine.evaluate_settles (readings_keeps f) (fun _ _ => rfl) (fun _ => rfl) p
  have hagree := words_evaluate_agree hw p
  cases hp : Machine.evaluate (Arithmetic.words f) p with
  | error err =>
      rw [hp] at hagree
      generalize Machine.evaluate (Arithmetic.readings f) p = y at hagree hsettles
      cases hagree
      exact hsettles
  | ok x =>
      have hresidue : f.residue x.1 = x.1 := residue_words_evaluate hw hp
      show 0 ≤ x.1 ∧ x.1 < 2 ^ f.width
      rw [← hresidue, ← Word.modulus_eq]
      exact ⟨Word.residue_nonneg _ _, Word.residue_lt _ _⟩

end Reckon
