import Reckon.Proofs.TreeValue

/-!
# Signedness is a matter of the top bit

A signed format reads its words, and an unsigned one does not. But a word below `2 ^ (width - 1)`
reads as itself, and so the operations that ask for readings — division, remainder, the right
shift, the absolute value, the sign test of an exponent — answer in both formats alike. The other
operations never ask, and the unary minus reads in both.

An answer may have its top bit set although the operands have not, so this says nothing of a whole
run by itself. What it says is that the two machines take the same step wherever every word on the
stack is below `2 ^ (width - 1)` (`step_same`). As long as that lasts in one of the two runs, the
other one is the same run.
-/

namespace Reckon

variable {α : Type}

/-- On values that satisfy `P` one arithmetic does what the other one does. Nothing is asked of what
comes out. -/
structure Arithmetic.SameOn (P : α → Prop) (A B : Arithmetic α) : Prop where
  number : ∀ n, A.number n = B.number n
  constant : ∀ name, A.constant name = B.constant name
  function : ∀ name argc, Agree (fun f g => ∀ as : List α, (∀ a ∈ as, P a) → f as = g as)
    (A.function name argc) (B.function name argc)
  unary : ∀ op, Agree (fun f g => ∀ a, P a → f a = g a) (A.unary op) (B.unary op)
  binary : ∀ op, Agree (fun f g => ∀ a b, P a → P b → f a b = g a b) (A.binary op) (B.binary op)

namespace Machine

variable {P : α → Prop} {A B : Arithmetic α}

theorem step_same (hAB : Arithmetic.SameOn P A B) {s : State α} (hs : ∀ a ∈ s.stack, P a)
    (i : Instruction) : step A s i = step B s i := by
  obtain ⟨stack, note⟩ := s
  match i with
  | .number n => rw [step, step, hAB.number n]
  | .constant name => rw [step, step, hAB.constant name]
  | .call name argc =>
      refine (hAB.function name argc).bind_eq fun f g hfg => ?_
      cases htake : take name argc stack with
      | error e => rfl
      | ok x =>
          obtain ⟨args, rest⟩ := x
          obtain ⟨-, rfl⟩ := take_eq_ok htake
          show (f args >>= _) = (g args >>= _)
          rw [hfg args fun a ha => hs a (by simp [ha])]
  | .operator (.unary op) =>
      refine (hAB.unary op).bind_eq fun f g hfg => ?_
      match stack with
      | [] => rfl
      | a :: rest =>
          show (f a >>= _) = (g a >>= _)
          rw [hfg a (hs a (by simp))]
  | .operator (.binary op) =>
      refine (hAB.binary op).bind_eq fun f g hfg => ?_
      match stack with
      | [] => rfl
      | [_] => rfl
      | b :: a :: rest =>
          show (f a b >>= _) = (g a b >>= _)
          rw [hfg a b (hs a (by simp)) (hs b (by simp))]
  | .stray name => rfl

/-- A run that keeps to such values is also the run of the other machine. -/
theorem run_same (hAB : Arithmetic.SameOn P A B) (p : Program) {s : State α}
    (hs : ∀ k t, run A s (p.take k) = .ok t → ∀ a ∈ t.stack, P a) : run A s p = run B s p := by
  induction p generalizing s with
  | nil => rfl
  | cons i p ih =>
      rw [run_cons, run_cons, ← step_same hAB (hs 0 s rfl) i]
      cases hstep : step A s i with
      | error e => rfl
      | ok mid =>
          refine ih fun k t ht => hs (k + 1) t ?_
          rw [List.take_succ_cons, run_cons, hstep]
          exact ht

end Machine

/-! ## Words without a top bit

Both formats have the same width, so reducing is the same in both, and only readings could differ.
A division answers with what it has computed when words are unsigned, and reduces it otherwise.
These are the same again, since the answer is between zero and the dividend, and so has no top bit
itself. -/

namespace Word.Format

variable {f : Format} {a b : Int}

/-- A word whose top bit is not set. -/
def Low (f : Format) (a : Int) : Prop :=
  0 ≤ a ∧ a < modulus (f.width - 1)

theorem Low.residue_eq_self (ha : f.Low a) : f.residue a = a := by
  have hle : modulus (f.width - 1) ≤ modulus f.width :=
    Nat.pow_le_pow_right (by decide) (Nat.sub_le _ 1)
  exact Word.residue_eq_self ha.1 (Int.lt_of_lt_of_le ha.2 (by exact_mod_cast hle))

theorem Low.reading_eq_self (ha : f.Low a) : f.reading a = a := by
  show (if _ ≤ f.residue a then _ else f.residue a) = a
  rw [ha.residue_eq_self, if_neg (Int.not_le.mpr ha.2)]

theorem Low.of_le (ha : f.Low a) (h0 : 0 ≤ b) (hle : b ≤ a) : f.Low b :=
  ⟨h0, Int.lt_of_le_of_lt hle ha.2⟩

/-- A division answers alike in both formats if on naturals its two forms are one, and the answer
does not exceed the dividend. -/
theorem Low.onDivisor (ha : f.Low a) (hb : f.Low b) (operation : String)
    {signedDiv unsignedDiv : Int → Int → Int}
    (hdiv : ∀ m n : Int, 0 ≤ m → 0 < n →
      unsignedDiv m n = signedDiv m n ∧ 0 ≤ signedDiv m n ∧ signedDiv m n ≤ m) :
    f.onDivisor operation signedDiv unsignedDiv a b =
      if b = 0 then .error (.divisionByZero operation) else .ok (signedDiv a b) := by
  unfold Format.onDivisor
  rw [ha.reading_eq_self, hb.reading_eq_self]
  by_cases hzero : b = 0
  · rw [if_pos hzero, if_pos hzero]
  · obtain ⟨hsame, h0, hle⟩ := hdiv a b ha.1 (by have := hb.1; omega)
    rw [if_neg hzero, if_neg hzero, if_neg hzero, (ha.of_le h0 hle).residue_eq_self, hsame,
      ite_self]

/-- The sign test of an exponent lets every such word pass. -/
theorem Low.not_reading_lt_zero (hb : f.Low b) : ¬ f.reading b < 0 := by
  rw [hb.reading_eq_self]
  exact Int.not_lt.mpr hb.1

theorem Low.shiftRight (ha : f.Low a) : f.shiftRight a b = a / modulus (shiftCount b) := by
  have hpos : (0 : Int) ≤ modulus (shiftCount b) := Int.natCast_nonneg _
  have hlow : f.Low (a / modulus (shiftCount b)) :=
    ha.of_le (Int.ediv_nonneg ha.1 hpos) (Int.ediv_le_self _ ha.1)
  unfold Format.shiftRight
  rw [ha.reading_eq_self, hlow.residue_eq_self, ite_self]

theorem Low.abs (ha : f.Low a) : f.abs a = a := by
  unfold Format.abs
  rw [ha.reading_eq_self, Int.natAbs_of_nonneg ha.1, ha.residue_eq_self, ite_self]

theorem Low.binary (ha : f.Low a) (hb : f.Low b) (signed : Bool) (op : BinaryOp) :
    Format.binary { f with signed } op a b = f.binary op a b := by
  have hother : Low { f with signed } a ∧ Low { f with signed } b := ⟨ha, hb⟩
  cases op with
  | add | sub | mul | shiftLeft | bitAnd | bitXor | bitOr => rfl
  | div =>
      show Format.onDivisor { f with signed } _ _ _ a b = f.onDivisor _ _ _ a b
      rw [hother.1.onDivisor hother.2 _ tdiv_of_nonneg, ha.onDivisor hb _ tdiv_of_nonneg]
  | mod =>
      show Format.onDivisor { f with signed } _ _ _ a b = f.onDivisor _ _ _ a b
      rw [hother.1.onDivisor hother.2 _ tmod_of_nonneg, ha.onDivisor hb _ tmod_of_nonneg]
  | caret | doubleStar =>
      show Format.pow { f with signed } a b = f.pow a b
      unfold pow
      rw [if_neg (by simp [hother.2.not_reading_lt_zero]),
        if_neg (by simp [hb.not_reading_lt_zero])]
      rfl
  | shiftRight =>
      show Except.ok (Format.shiftRight { f with signed } a b) = .ok (f.shiftRight a b)
      rw [hother.1.shiftRight, ha.shiftRight]

theorem Low.call {as : List Int} (has : ∀ a ∈ as, f.Low a) (signed : Bool) (fn : Function) :
    Format.call { f with signed } fn as = f.call fn as := by
  have habs {a : Int} (ha : f.Low a) : Format.abs { f with signed } a = f.abs a :=
    (Low.abs (f := { f with signed }) ha).trans ha.abs.symm
  match fn, as with
  | .abs, [a] => exact congrArg Except.ok (habs (has a (by simp)))
  | .abs, [] | .abs, _ :: _ :: _ => rfl
  | .min, [] | .min, _ :: _ | .max, [] | .max, _ :: _ => rfl
  | .xor, [] | .xor, [_] | .xor, [_, _] | .xor, _ :: _ :: _ :: _ => rfl
  | .sin, _ | .cos, _ | .tan, _ | .asin, _ | .acos, _ | .atan, _ | .sqrt, _ | .floor, _ | .ceil, _
  | .round, _ | .log, _ | .ln, _ => rfl

end Word.Format

theorem Arithmetic.words_sameOn (f : Word.Format) (signed : Bool) :
    SameOn f.Low (words f) (words { f with signed }) where
  number _ := rfl
  constant _ := rfl
  function name argc := by
    dsimp only [words]
    cases Function.ofName? name with
    | none => exact .error _
    | some fn =>
        dsimp only
        split
        · exact .error _
        · split
          · exact .error _
          · exact .ok fun as has => (Word.Format.Low.call has signed fn).symm
  unary _ := .ok fun _ _ => rfl
  binary op := .ok fun _ _ ha hb => (ha.binary hb signed op).symm

/-- Whatever a program leaves on the stack are words. -/
theorem Arithmetic.nonneg_of_run_words {f : Word.Format} (hw : 0 < f.width) {p : Program}
    {s : Machine.State Int} (h : Machine.run (words f) {} p = .ok s) : ∀ a ∈ s.stack, 0 ≤ a := by
  have hagree := Machine.run_agree (words_simulates hw) p (s := {}) (t := {}) ⟨.nil, rfl⟩
  rw [h] at hagree
  obtain ⟨t, -, hrelated, -⟩ := hagree.of_ok
  rw [(Word.Format.forall₂_reads hrelated).1]
  intro a ha
  obtain ⟨x, -, rfl⟩ := List.mem_map.mp ha
  exact Word.residue_nonneg f.width x

/-- Suppose that no word that is ever on the stack has its top bit set. Then it makes no difference
to a run whether words are read as signed: after any number of instructions the stacks are the same,
and so is the result, or the error. -/
theorem evaluate_signedness {o : Options} (ho : o.mode = .integer) {p : Program}
    (hlow : ∀ k s, Machine.run (Arithmetic.words o.wordFormat) {} (p.take k) = .ok s →
      ∀ a ∈ s.stack, a < 2 ^ (o.width.val - 1)) (signed : Bool) :
    (∀ k, Machine.run (Arithmetic.words { o.wordFormat with signed }) {} (p.take k) =
      Machine.run (Arithmetic.words o.wordFormat) {} (p.take k)) ∧
    (∀ v, p.evaluate { o with signed } = .ok (.word v { o with signed }) ↔
      p.evaluate o = .ok (.word v o)) ∧
    ∀ err, p.evaluate { o with signed } = .error err ↔ p.evaluate o = .error err := by
  have hrun : ∀ k, Machine.run (Arithmetic.words o.wordFormat) {} (p.take k) =
      Machine.run (Arithmetic.words { o.wordFormat with signed }) {} (p.take k) := by
    refine fun k => Machine.run_same (Arithmetic.words_sameOn o.wordFormat signed) (p.take k) ?_
    intro j s hs a ha
    rw [List.take_take] at hs
    have ha0 : 0 ≤ a := Arithmetic.nonneg_of_run_words o.width.property hs a ha
    have halt := hlow _ s hs a ha
    rw [← Word.modulus_eq] at halt
    exact ⟨ha0, halt⟩
  have hvalue : p.evaluate { o with signed } =
      (Machine.evaluate (Arithmetic.words o.wordFormat) p).map fun x =>
        .word x.1 { o with signed } := by
    have hwhole := hrun p.length
    rw [List.take_length] at hwhole
    rw [Program.evaluate_integer_eq (o := { o with signed }) ho, Machine.evaluate, Machine.evaluate,
      hwhole]
    rfl
  refine ⟨fun k => (hrun k).symm, fun v => ?_, fun err => ?_⟩
  · rw [hvalue, Program.evaluate_integer_eq ho]
    cases Machine.evaluate (Arithmetic.words o.wordFormat) p <;> simp [Except.map]
  · rw [hvalue, Program.evaluate_integer_eq ho]
    cases Machine.evaluate (Arithmetic.words o.wordFormat) p <;> simp [Except.map]

/-- At eight bits, `(100 % 7) ^ 5 >> 3`. -/
theorem evaluate_signedness_remainder :
    let o : Options := { mode := .integer, width := ⟨8, by decide⟩, signed := false }
    let p : Program := [.number { text := "100" }, .number { text := "7" },
      .operator (.binary .mod), .number { text := "5" }, .operator (.binary .caret),
      .number { text := "3" }, .operator (.binary .shiftRight)]
    (∀ k s, Machine.run (Arithmetic.words o.wordFormat) {} (p.take k) = .ok s →
      ∀ a ∈ s.stack, a < 2 ^ (8 - 1)) ∧
    p.evaluate o = .ok (.word 4 o) ∧
    p.evaluate { o with signed := true } = .ok (.word 4 { o with signed := true }) := by
  intro o p
  have hprefixes : ∀ k < 8,
      ((Machine.run (Arithmetic.words o.wordFormat) {} (p.take k)).toOption.all
        fun s => s.stack.all (· < 2 ^ (8 - 1))) = true := by
    decide +kernel
  have hlow : ∀ k s, Machine.run (Arithmetic.words o.wordFormat) {} (p.take k) = .ok s →
      ∀ a ∈ s.stack, a < 2 ^ (8 - 1) := by
    intro k s hs
    have htake : p.take k = p.take (min k 7) := by
      rw [List.take_eq_take_iff]
      show min k 7 = min (min k 7) 7
      omega
    have hprefix := hprefixes (min k 7) (by omega)
    rw [← htake, hs] at hprefix
    simpa [Except.toOption] using hprefix
  have hvalue : p.evaluate o = .ok (.word 4 o) := eq_ok_of_toOption (by decide +kernel)
  exact ⟨hlow, hvalue, ((evaluate_signedness rfl hlow true).2.1 4).mpr hvalue⟩

end Reckon
