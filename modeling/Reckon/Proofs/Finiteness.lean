import Reckon.Proofs.Faults

/-!
# Only finite numbers are ever at hand

The machine on numbers is the machine on the format as it is, where operations give infinities and
NaNs, except that the outcome of each instruction is looked at before the next one begins: if a
number on the stack is not finite, the instruction is refused (`Machine.step_floats_eq`). The code
has no such look. It checks most operations on their results, some on their operands, and a few not
at all, namely constants, sign changes and the least and the greatest argument. What makes up for
the missing checks is that these are given finite numbers, and so the invariant has to be known of
the stack before a step is compared.

An operation of the format has one outcome where the code has two, a failure and a bad result: the
quotient by zero and the logarithm of a negative number are numbers that are not finite.
-/

namespace Reckon

/-- What an operator on numbers is called where its result is refused. -/
def BinaryOp.operation : BinaryOp → String
  | add => "addition"
  | sub => "subtraction"
  | mul => "multiplication"
  | div => "division"
  | mod => "modulo"
  | caret | doubleStar => "exponentiation"
  | op => op.symbol

namespace Binary64.Unguarded

def binary : BinaryOp → Binary64 → Binary64 → Binary64
  | .add, a, b => Binary64.add a b
  | .sub, a, b => Binary64.sub a b
  | .mul, a, b => Binary64.mul a b
  | .div, a, b => Binary64.div a b
  | .mod, a, b => Binary64.rem a b
  | .caret, a, b | .doubleStar, a, b => Binary64.pow a b
  | _, _, _ => nan

def unary : UnaryOp → Binary64 → Binary64
  | .minus, a => a.neg
  | .plus, a => a
  | .complement, _ => nan

/-- A function of one number. What is not finite is its own nearest integer. -/
def unaryFunction (fn : Function) (a : Binary64) : Binary64 :=
  match Guarded.unaryFunction? fn with
  | some f => (f a).toOption.getD a
  | none => nan

def call : Function → List Binary64 → Binary64
  | .min, a :: as => as.foldl least a
  | .max, a :: as => as.foldl greatest a
  | fn, [a] => unaryFunction fn a
  | _, _ => nan

end Binary64.Unguarded

/-- The arithmetic of binary64 numbers that refuses no number. Names, digits and counts of arguments
are looked up as ever. -/
def Arithmetic.unguarded : Arithmetic Binary64 where
  number n :=
    if readAsDecimal n then
      match Binary64.ofWritten? n.text.toList with
      | some x => .ok (x, none)
      | none => .error (.breach (.unreadableNumeral n.text))
    else do
      let exact ← n.integer
      return (Binary64.ofInt exact,
        if Binary64.maxSafeInteger < exact then some inexactNote else none)
  constant := floats.constant
  function name argc :=
    match Function.ofName? name with
    | none => .error (.unknownFunction name)
    | some fn =>
      if fn.integerOnly then .error (.integerOnlyFunction fn)
      else if !fn.accepts argc then .error (.arity fn argc)
      else .ok fun as => .ok (Binary64.Unguarded.call fn as)
  unary op :=
    if op.integerOnly then .error (.integerOnlyOperator (.unary op))
    else .ok fun a => .ok (Binary64.Unguarded.unary op a)
  binary op :=
    if op.integerOnly then .error (.integerOnlyOperator (.binary op))
    else .ok fun a b => .ok (Binary64.Unguarded.binary op a b)

/-- The error of an instruction whose value is not finite. -/
def Instruction.refusal : Instruction → EvalError
  | number n => if Arithmetic.readAsDecimal n then .nonFinite "literal" else .tooLarge n
  | operator (.binary op) => .nonFinite op.operation
  | call name _ => .nonFinite name
  | i => .nonFinite i.label

/-- The look at a state after an instruction: all numbers on the stack must be finite. -/
def Machine.inspect (i : Instruction) (s : State Binary64) : Except EvalError (State Binary64) :=
  if s.stack.all (·.isFinite) then .ok s else .error i.refusal

namespace Binary64.Guarded

variable {a b : Binary64} {as : List Binary64}

theorem check_of_isFinite (operation : String) (ha : a.isFinite = true) :
    check operation a = .ok a := by
  cases a with
  | finite x => rfl
  | infinite _ | nan => cases ha

theorem check_of_not_isFinite (operation : String) (ha : a.isFinite = false) :
    check operation a = .error (.nonFinite operation) := by
  cases a with
  | finite x => cases ha
  | infinite _ | nan => rfl

theorem isZero_iff : b.isZero = true ↔ ∃ y : Finite, b = .finite y ∧ y.mantissa = 0 := by
  cases b with
  | finite y => simp [isZero]
  | infinite _ | nan => simp [isZero]

/-- A quotient by zero is not finite, so it makes no difference that the divisor is tested first. -/
theorem div_eq (ha : a.isFinite = true) : div a b = check "division" (Binary64.div a b) := by
  unfold div
  split
  · next hzero =>
      obtain ⟨y, rfl, hy⟩ := isZero_iff.mp hzero
      cases a with
      | finite x =>
          simp only [Binary64.div, hy, if_true]
          split <;> rfl
      | infinite _ | nan => cases ha
  · rfl

theorem mod_eq (ha : a.isFinite = true) : mod a b = check "modulo" (Binary64.rem a b) := by
  cases a with
  | infinite _ | nan => cases ha
  | finite x =>
      unfold mod
      split
      · next hzero =>
          obtain ⟨y, rfl, hy⟩ := isZero_iff.mp hzero
          simp only [Binary64.rem, hy, if_true]
          rfl
      · rw [if_neg (by simp [infiniteDividend])]

theorem binary_eq {op : BinaryOp} (hop : op.integerOnly = false) (ha : a.isFinite = true) :
    binary op a b = check op.operation (Unguarded.binary op a b) := by
  cases op with
  | add | sub | mul | caret | doubleStar => rfl
  | div => exact div_eq ha
  | mod => exact mod_eq ha
  | shiftLeft | shiftRight | bitAnd | bitXor | bitOr => cases hop

/-- Signs are changed without a check. -/
theorem unary_eq {op : UnaryOp} (hop : op.integerOnly = false) (operation : String)
    (ha : a.isFinite = true) : unary op a = check operation (Unguarded.unary op a) := by
  cases op with
  | minus => exact (check_of_isFinite operation (isFinite_neg ha)).symm
  | plus => exact (check_of_isFinite operation ha).symm
  | complement => cases hop

/-- The functions themselves fail on no finite number; they only have bad results. -/
theorem exists_unaryFunction {fn : Function} {f : Binary64 → Except EvalError Binary64}
    (hf : unaryFunction? fn = some f) (ha : a.isFinite = true) : ∃ x, f a = .ok x := by
  cases a with
  | infinite _ | nan => cases ha
  | finite y =>
      cases fn with
      | min | max | xor => cases hf
      | _ =>
          cases hf
          exact ⟨_, rfl⟩

theorem unguarded_unaryFunction_eq {fn : Function} {f : Binary64 → Except EvalError Binary64}
    {x : Binary64} (hf : unaryFunction? fn = some f) (hx : f a = .ok x) :
    Unguarded.unaryFunction fn a = x := by
  simp only [Unguarded.unaryFunction, hf, hx]
  rfl

theorem unguarded_call_of_arity {fn : Function} (h : fn.arity? = some 1) (a : Binary64) :
    Unguarded.call fn [a] = Unguarded.unaryFunction fn a := by
  cases fn with
  | min | max | xor => cases h
  | _ => rfl

theorem call_eq {fn : Function} (hfn : fn.integerOnly = false)
    (haccepts : fn.accepts as.length = true) (has : ∀ a ∈ as, a.isFinite = true) :
    call fn as = check fn.name (Unguarded.call fn as) := by
  rcases Function.length_of_accepts haccepts with ⟨harity, a, bs, rfl⟩ | ⟨harity, a, b, rfl⟩ |
    ⟨harity, a, rfl⟩
  -- The least and the greatest argument are among the arguments, and not checked.
  · obtain ⟨ha, hbs⟩ := List.forall_mem_cons.mp has
    cases fn with
    | min => exact (check_of_isFinite _ (isFinite_foldl isFinite_least hbs ha)).symm
    | max => exact (check_of_isFinite _ (isFinite_foldl isFinite_greatest hbs ha)).symm
    | _ => cases harity
  · cases fn with
    | xor => cases hfn
    | _ => cases harity
  · obtain ⟨f, hf, hcall⟩ := call_of_arity harity
    obtain ⟨x, hx⟩ := exists_unaryFunction hf (has a (by simp))
    rw [hcall, hx, unguarded_call_of_arity harity, unguarded_unaryFunction_eq hf hx]
    rfl

end Binary64.Guarded

/-- A numeral is refused exactly if the number nearest to it is not finite. -/
theorem Arithmetic.floatNumber_eq (n : Numeral) :
    floatNumber n = unguarded.number n >>= fun x =>
      if x.1.isFinite then .ok x else .error (Instruction.number n).refusal := by
  simp only [floatNumber, unguarded, Instruction.refusal]
  split
  · cases Binary64.ofWritten? n.text.toList with
    | none => rfl
    | some x => cases x <;> rfl
  · cases n.integer with
    | error err => rfl
    | ok exact =>
        simp only [bind, Except.bind]
        show _ = if (Binary64.ofInt exact).isFinite then _ else _
        cases Binary64.ofInt exact <;> rfl

/-- Both arithmetics know the same functions, by the same names. -/
theorem Arithmetic.function_cases (name : String) (argc : Nat) :
    (∃ err, floats.function name argc = .error err ∧ unguarded.function name argc = .error err) ∨
      ∃ fn : Function, fn.name = name ∧ fn.integerOnly = false ∧ fn.accepts argc = true ∧
        floats.function name argc = .ok (Binary64.Guarded.call fn) ∧
        unguarded.function name argc = .ok fun as => .ok (Binary64.Unguarded.call fn as) := by
  simp only [floats, unguarded]
  cases hname : Function.ofName? name with
  | none => exact .inl ⟨_, rfl, rfl⟩
  | some fn =>
      have hfound : fn.name = name := by simpa using List.find?_some hname
      dsimp only
      cases hfn : fn.integerOnly with
      | true => exact .inl ⟨_, rfl, rfl⟩
      | false =>
          cases haccepts : fn.accepts argc with
          | false => exact .inl ⟨_, rfl, rfl⟩
          | true => exact .inr ⟨fn, hfound, hfn, haccepts, rfl, rfl⟩

/-! ## One instruction

The look at a state sees the whole stack, a check of the code only the number that is new. They
come to the same because what lies below the new number was finite before (`inspect_cons`). Where
the code has no check, the look must find nothing, and there the operands are what makes it so. -/

namespace Machine

variable {s : State Binary64} {i : Instruction} {a : Binary64} {rest : List Binary64}
  {note : Option String}

/-- Above finite numbers only the new one has to be looked at. -/
theorem inspect_cons (hrest : ∀ b ∈ rest, b.isFinite = true) :
    inspect i ⟨a :: rest, note⟩ =
      if a.isFinite then .ok ⟨a :: rest, note⟩ else .error i.refusal := by
  have hall : rest.all (·.isFinite) = true := List.all_eq_true.mpr hrest
  rw [inspect, List.all_cons, hall, Bool.and_true]

/-- A check of the value is a look at the state with the value on top. -/
theorem check_bind {operation : String} (hrest : ∀ b ∈ rest, b.isFinite = true)
    (hi : a.isFinite = false → i.refusal = .nonFinite operation) :
    (Binary64.Guarded.check operation a >>= fun a => .ok ⟨a :: rest, note⟩) =
      inspect i ⟨a :: rest, note⟩ := by
  rw [inspect_cons hrest]
  cases ha : a.isFinite with
  | true =>
      rw [Binary64.Guarded.check_of_isFinite operation ha]
      rfl
  | false =>
      rw [Binary64.Guarded.check_of_not_isFinite operation ha, hi ha]
      rfl

/-- On finite numbers an instruction does what it does in the format as it is, and then the outcome
is looked at. -/
theorem step_floats_eq (hs : ∀ a ∈ s.stack, a.isFinite = true) (i : Instruction) :
    step Arithmetic.floats s i = step Arithmetic.unguarded s i >>= inspect i := by
  obtain ⟨stack, note⟩ := s
  match i with
  | .number n =>
      show (Arithmetic.floatNumber n >>= _) = _
      rw [Arithmetic.floatNumber_eq]
      show _ = (Arithmetic.unguarded.number n >>= _) >>= _
      cases Arithmetic.unguarded.number n with
      | error err => rfl
      | ok x =>
          show (if x.1.isFinite then _ else _) >>= _ = inspect _ _
          rw [inspect_cons hs]
          split <;> rfl
  | .constant name =>
      have hconstant := Arithmetic.floats_keeps.constant name
      show (Arithmetic.floats.constant name >>= _) = (Arithmetic.floats.constant name >>= _) >>= _
      cases hc : Arithmetic.floats.constant name with
      | error err => rfl
      | ok a =>
          rw [hc] at hconstant
          show _ = inspect (.constant name) ⟨a :: stack, note⟩
          rw [inspect_cons hs]
          exact (if_pos hconstant).symm
  | .call name argc =>
      show (Arithmetic.floats.function name argc >>= _) =
        (Arithmetic.unguarded.function name argc >>= _) >>= _
      rcases Arithmetic.function_cases name argc with ⟨err, hfloats, hplain⟩ |
        ⟨fn, rfl, hfn, haccepts, hfloats, hplain⟩
      · rw [hfloats, hplain]
        rfl
      · rw [hfloats, hplain]
        show (take fn.name argc stack >>= _) = (take fn.name argc stack >>= _) >>= _
        cases htake : take fn.name argc stack with
        | error err => rfl
        | ok x =>
            obtain ⟨args, rest⟩ := x
            obtain ⟨rfl, rfl⟩ := take_eq_ok htake
            obtain ⟨hargs, hrest⟩ := List.forall_mem_append.mp hs
            show (Binary64.Guarded.call fn args >>= fun a => .ok ⟨a :: rest, note⟩) =
              inspect (.call fn.name args.length) ⟨Binary64.Unguarded.call fn args :: rest, note⟩
            rw [Binary64.Guarded.call_eq hfn haccepts
              fun a ha => hargs a (List.mem_reverse.mpr ha)]
            exact check_bind hrest fun _ => rfl
  | .operator (.unary op) =>
      show ((if op.integerOnly then _ else _) >>= _) =
        ((if op.integerOnly then _ else _) >>= _) >>= _
      cases hop : op.integerOnly with
      | true => rfl
      | false =>
          match stack with
          | [] => rfl
          | a :: rest =>
              obtain ⟨ha, hrest⟩ := List.forall_mem_cons.mp hs
              show (Binary64.Guarded.unary op a >>= fun a => .ok ⟨a :: rest, note⟩) =
                inspect (.operator (.unary op)) ⟨Binary64.Unguarded.unary op a :: rest, note⟩
              rw [Binary64.Guarded.unary_eq hop op.symbol ha]
              exact check_bind hrest fun _ => rfl
  | .operator (.binary op) =>
      show ((if op.integerOnly then _ else _) >>= _) =
        ((if op.integerOnly then _ else _) >>= _) >>= _
      cases hop : op.integerOnly with
      | true => rfl
      | false =>
          match stack with
          | [] | [_] => rfl
          | b :: a :: rest =>
              obtain ⟨-, hs⟩ := List.forall_mem_cons.mp hs
              obtain ⟨ha, hrest⟩ := List.forall_mem_cons.mp hs
              show (Binary64.Guarded.binary op a b >>= fun a => .ok ⟨a :: rest, note⟩) =
                inspect (.operator (.binary op))
                  ⟨Binary64.Unguarded.binary op a b :: rest, note⟩
              rw [Binary64.Guarded.binary_eq hop ha]
              exact check_bind hrest fun _ => rfl
  | .stray name => rfl

end Machine

/-- Every number that ever gets on the stack is finite, since on the way to it each instruction had
the outcome that it has in the format as it is, or was refused because a number in that outcome was
not finite. So a result is finite. -/
theorem numbers_stay_finite (p : Program) :
    (∀ (q : Program) (s : Machine.State Binary64), q <+: p →
      Machine.run Arithmetic.floats {} q = .ok s →
        (∀ a ∈ s.stack, a.isFinite = true) ∧
        ∀ i, q ++ [i] <+: p → Machine.step Arithmetic.floats s i =
          Machine.step Arithmetic.unguarded s i >>= Machine.inspect i) ∧
    ∀ (o : Options) (x : Binary64) (note : Option String),
      p.evaluate o = .ok (.float x note) → x.isFinite = true := by
  refine ⟨fun q s _ hrun => ?_, fun o x note h => ?_⟩
  · have hsettles := Machine.run_settles Arithmetic.floats_keeps (fun _ _ => rfl) q
      (s := {}) (by intro a ha; cases ha)
    rw [hrun] at hsettles
    exact ⟨hsettles, fun i _ => Machine.step_floats_eq hsettles i⟩
  · have hsettles := Program.evaluate_settles o p
    rw [h] at hsettles
    exact hsettles.2

/-- The product of `1e308` and ten is an infinity, and the multiplication is refused. -/
theorem numbers_stay_finite_overflow :
    let p : Program := [.number { text := "1e308", fractional := true }, .number { text := "10" },
      .operator (.binary .mul)]
    ∃ s, Machine.run Arithmetic.floats {} (p.take 2) = .ok s ∧
      (∀ a ∈ s.stack, a.isFinite = true) ∧
      Machine.step Arithmetic.unguarded s (.operator (.binary .mul)) =
        .ok ⟨[.infinite false], none⟩ ∧
      Machine.step Arithmetic.floats s (.operator (.binary .mul)) =
        .error (.nonFinite "multiplication") := by
  intro p
  let s : Machine.State Binary64 := ⟨[.ofInt 10, .ofInt (10 ^ 308)], none⟩
  have hrun : Machine.run Arithmetic.floats {} (p.take 2) = .ok s :=
    eq_ok_of_toOption (by decide +kernel)
  have hplain : Machine.step Arithmetic.unguarded s (.operator (.binary .mul)) =
      .ok ⟨[.infinite false], none⟩ := eq_ok_of_toOption (by decide +kernel)
  obtain ⟨hfinite, hstep⟩ := (numbers_stay_finite p).1 (p.take 2) s (List.take_prefix 2 p) hrun
  refine ⟨s, hrun, hfinite, hplain, ?_⟩
  rw [hstep (.operator (.binary .mul)) (List.prefix_refl p), hplain]
  rfl

end Reckon
