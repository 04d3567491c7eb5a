import Reckon.Proofs.Balance
import Reckon.Proofs.Emission

/-!
# Which faults there are

What can go wrong with a text is found by one of three stages, and each has a name for it. A breach
is no such name: it would be a call that some operation cannot answer. None is ever committed, since
each stage hands on only what the next one can take. The scan hands on numerals that can be
read and call heads with their parentheses; the yard hands on a program of such numerals without
stray call heads; and the machines keep to values that all operations are made for.

Two places of the code answer where they should never be asked, and so their question must be shown
not to arise: the yard counts arguments where no call is open, and a function is given a number of
arguments that it does not accept.
-/

namespace Reckon

/-- The faults that a text can have. -/
inductive Fault.OfText : Fault → Prop
  | lexical (e : LexError) : OfText (.lexical e)
  | grouping (e : GroupingError) : OfText (.grouping e)
  | evaluation {e : EvalError} : e.isBreach = false → OfText (.evaluation e)

/-- Whether a result is one of the mode: a finite number, or a word under just these options. -/
def Result.OfMode (o : Options) : Result → Prop
  | .float x _ => o.mode = .float ∧ x.isFinite = true
  | .word v o' => o.mode = .integer ∧ o' = o ∧ 0 ≤ v ∧ v < 2 ^ o.width.val

/-- A program without lost call heads has a result of the mode, or an error that is no breach. -/
theorem Program.evaluate_settles (o : Options) (p : Program) :
    Settles (fun err => (∀ i ∈ p, i.Sane Numeral.Readable) → err.isBreach = false)
      (Result.OfMode o) (p.evaluate o) := by
  cases ho : o.mode with
  | float =>
      rw [Program.evaluate_float ho]
      have hsettles := Machine.evaluate_settles Arithmetic.floats_keeps (fun _ _ => rfl)
        (fun _ => rfl) p
      exact hsettles.map fun x hx => ⟨ho, hx⟩
  | integer =>
      rw [Program.evaluate_integer_eq ho]
      have hsettles := Arithmetic.words_evaluate_settles (f := o.wordFormat) o.width.property p
      exact hsettles.map fun x hx => ⟨ho, rfl, hx⟩

/-- The tokens of a text group into a program that the machines are meant for. -/
theorem sane_of_group {o : Options} {text : String} {tokens : List Token} {p : Program}
    (hscan : scan o text = .ok tokens) (hgroup : group tokens = .ok p) :
    ∀ i ∈ p, i.Sane Numeral.Readable := by
  obtain ⟨hreadable, hcalled⟩ := readable_and_called (mapError_eq_ok hscan)
  exact Yard.sane_of_ofLexemes hcalled hreadable (mapError_eq_ok hgroup)

/-- A text has a result of the mode or a fault of its own. -/
theorem evaluate_settles (o : Options) (text : String) :
    Settles Fault.OfText (Result.OfMode o) (evaluate o text) := by
  cases hblank : isBlankText text with
  | true =>
      rw [evaluate, hblank]
      exact .grouping _
  | false =>
      rw [evaluate_of_not_blank hblank]
      have hscan : Settles Fault.OfText (fun tokens => scan o text = .ok tokens) (scan o text) :=
        .self fun f hf => by
          obtain ⟨e, -, rfl⟩ := mapError_eq_error hf
          exact .lexical e
      refine hscan.bind fun tokens htokens => ?_
      have hgroup : Settles Fault.OfText (fun p => group tokens = .ok p) (group tokens) :=
        .self fun f hf => by
          obtain ⟨e, -, rfl⟩ := mapError_eq_error hf
          exact .grouping e
      refine hgroup.bind fun p hp => ?_
      exact (Program.evaluate_settles o p).mapError fun e he =>
        .evaluation (he (sane_of_group htokens hp))

/-- Where an argument of a call ends, there is a count for it. -/
theorem Yard.counts_ne_nil {ls : List Lexeme} {s : Yard.State} (h : run {} ls = .ok s) {f : String}
    {ws st : List Waiting} (hs : s.stack = ws ++ .paren :: .callHead f :: st) : s.counts ≠ [] :=
  (Sound.start.run h).counts_ne_nil hs

/-- The lengths of argument lists that a function accepts. -/
theorem Function.length_of_accepts {α : Type} {fn : Function} {as : List α}
    (h : fn.accepts as.length = true) :
    (fn.arity? = none ∧ ∃ a bs, as = a :: bs) ∨ (fn.arity? = some 2 ∧ ∃ a b, as = [a, b]) ∨
      (fn.arity? = some 1 ∧ ∃ a, as = [a]) := by
  have harity : fn.arity? = none ∨ fn.arity? = some 2 ∨ fn.arity? = some 1 := by
    cases fn <;> decide
  rw [accepts] at h
  rcases harity with hnone | htwo | hone
  · rw [hnone] at h
    exact .inl ⟨hnone, List.exists_cons_of_length_pos (of_decide_eq_true h)⟩
  · rw [htwo] at h
    exact .inr (.inl ⟨htwo, List.length_eq_two.mp (by simpa using h)⟩)
  · rw [hone] at h
    exact .inr (.inr ⟨hone, List.length_eq_one_iff.mp (by simpa using h)⟩)

/-- A function of words that was found with a number of arguments has a value of that many. -/
theorem Arithmetic.words_function_defined {f : Word.Format} {name : String} {argc : Nat}
    {g : List Int → Except EvalError Int} (h : (Arithmetic.words f).function name argc = .ok g)
    {as : List Int} (has : as.length = argc) : ∃ a, g as = .ok a := by
  obtain ⟨fn, -, hwords, haccepts, rfl⟩ := Arithmetic.words_function_eq_ok h
  rw [← has] at haccepts
  rcases Function.length_of_accepts haccepts with ⟨harity, a, bs, rfl⟩ | ⟨harity, a, b, rfl⟩ |
    ⟨harity, a, rfl⟩
  · cases fn with
    | min | max => exact ⟨_, rfl⟩
    | _ => cases harity
  · cases fn with
    | xor => exact ⟨_, rfl⟩
    | _ => cases harity
  · cases fn with
    | abs => exact ⟨_, rfl⟩
    | min | max | xor => cases harity
    | _ => cases hwords

/-- Numbers have all functions of one argument. -/
theorem Binary64.Guarded.call_of_arity {fn : Function} (h : fn.arity? = some 1) :
    ∃ g, unaryFunction? fn = some g ∧ ∀ a, call fn [a] = named fn.name (g a) := by
  cases fn with
  | min | max | xor => cases h
  | _ => exact ⟨_, rfl, fun _ => rfl⟩

/-- A function of numbers that was found with a number of arguments has a value of that many, or
the value is not finite. -/
theorem Arithmetic.floats_function_settles {name : String} {argc : Nat}
    {g : List Binary64 → Except EvalError Binary64}
    (h : Arithmetic.floats.function name argc = .ok g) {as : List Binary64}
    (has : as.length = argc) :
    Settles (fun err => ∃ operation, err = .nonFinite operation) (fun _ => True) (g as) := by
  obtain ⟨fn, -, hfloats, haccepts, rfl⟩ := Arithmetic.floats_function_eq_ok h
  rw [← has] at haccepts
  rcases Function.length_of_accepts haccepts with ⟨harity, a, bs, rfl⟩ | ⟨harity, a, b, rfl⟩ |
    ⟨harity, a, rfl⟩
  · cases fn with
    | min | max => trivial
    | _ => cases harity
  · cases fn with
    | xor => cases hfloats
    | _ => cases harity
  · obtain ⟨g, -, hg⟩ := Binary64.Guarded.call_of_arity harity
    rw [hg]
    cases g a with
    | error _ => exact ⟨_, rfl⟩
    | ok x =>
        cases x with
        | finite _ => trivial
        | infinite _ | nan => exact ⟨_, rfl⟩

end Reckon
