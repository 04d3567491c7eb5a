import Reckon.Machine
import Reckon.Proofs.Outcome
import Mathlib.Data.List.Forall2

/-!
# Steps and lockstep runs of the machine

Everything that is ever proved of runs goes through two descriptions of a single step.

`Stepped` says what one successful instruction did: which operands it found on top of the stack,
which operation the arithmetic made of its name, and what is left. It is the only place that opens
`step`.

`Agree` compares two machines over different arithmetics. If numerals, names and operators agree
one by one (`Arithmetic.Simulates`), then the machines run in lockstep: before each instruction the
stacks are related value by value, and the first instruction to fail fails in both, with the same
error. The relation between values is a parameter.
-/

namespace Reckon

variable {α β : Type}

namespace Machine

theorem take_eq_ok {consumer : String} {count : Nat} {stack args rest : List α}
    (h : take consumer count stack = .ok (args, rest)) :
    args.length = count ∧ stack = args.reverse ++ rest := by
  unfold take at h
  split at h
  · cases h
  · next hlt =>
      cases h
      have hle : count ≤ stack.length := Nat.le_of_not_lt hlt
      refine ⟨?_, ?_⟩
      · rw [List.length_reverse, List.length_take, Nat.min_eq_left hle]
      · rw [List.reverse_reverse, List.take_append_drop]

/-- What one instruction does when it succeeds. -/
inductive Stepped (A : Arithmetic α) : State α → Instruction → State α → Prop
  | number {n : Numeral} {a : α} {remark note : Option String} {rest : List α} :
      A.number n = .ok (a, remark) →
      Stepped A ⟨rest, note⟩ (.number n) ⟨a :: rest, remark <|> note⟩
  | constant {name : String} {a : α} {note : Option String} {rest : List α} :
      A.constant name = .ok a →
      Stepped A ⟨rest, note⟩ (.constant name) ⟨a :: rest, note⟩
  | call {name : String} {argc : Nat} {f : List α → Except EvalError α} {args : List α} {a : α}
      {note : Option String} {rest : List α} :
      A.function name argc = .ok f → args.length = argc → f args = .ok a →
      Stepped A ⟨args.reverse ++ rest, note⟩ (.call name argc) ⟨a :: rest, note⟩
  | unary {op : UnaryOp} {f : α → Except EvalError α} {a b : α} {note : Option String}
      {rest : List α} :
      A.unary op = .ok f → f a = .ok b →
      Stepped A ⟨a :: rest, note⟩ (.operator (.unary op)) ⟨b :: rest, note⟩
  | binary {op : BinaryOp} {f : α → α → Except EvalError α} {a b c : α}
      {note : Option String} {rest : List α} :
      A.binary op = .ok f → f a b = .ok c →
      Stepped A ⟨b :: a :: rest, note⟩ (.operator (.binary op)) ⟨c :: rest, note⟩

theorem stepped_of_step {A : Arithmetic α} {s s' : State α} {i : Instruction}
    (h : step A s i = .ok s') : Stepped A s i s' := by
  obtain ⟨stack, note⟩ := s
  match i with
  | .number n =>
      obtain ⟨⟨a, remark⟩, hn, h⟩ := bind_eq_ok h
      cases h
      exact .number hn
  | .constant name =>
      obtain ⟨a, hc, h⟩ := bind_eq_ok h
      cases h
      exact .constant hc
  | .call name argc =>
      obtain ⟨f, hf, h⟩ := bind_eq_ok h
      obtain ⟨⟨args, rest⟩, ht, h⟩ := bind_eq_ok h
      obtain ⟨a, ha, h⟩ := bind_eq_ok h
      obtain ⟨hlen, rfl⟩ := take_eq_ok ht
      cases h
      exact .call hf hlen ha
  | .operator (.unary op) =>
      obtain ⟨f, hf, h⟩ := bind_eq_ok h
      match stack with
      | [] => cases h
      | a :: rest =>
          obtain ⟨b, hb, h⟩ := bind_eq_ok h
          cases h
          exact .unary hf hb
  | .operator (.binary op) =>
      obtain ⟨f, hf, h⟩ := bind_eq_ok h
      match stack with
      | [] | [_] => cases h
      | b :: a :: rest =>
          obtain ⟨c, hc, h⟩ := bind_eq_ok h
          cases h
          exact .binary hf hc
  | .stray name => cases h

/-- In a run that succeeds every instruction has succeeded. -/
theorem stepped_of_mem {A : Arithmetic α} {p : Program} {i : Instruction} (hi : i ∈ p) :
    ∀ {s s' : State α}, run A s p = .ok s' → ∃ t t', Stepped A t i t' := by
  induction p with
  | nil => cases hi
  | cons j p ih =>
      intro s s' h
      rw [run_cons] at h
      obtain ⟨mid, hstep, hrun⟩ := bind_eq_ok h
      rcases List.mem_cons.mp hi with rfl | hi
      · exact ⟨s, mid, stepped_of_step hstep⟩
      · exact ih hi hrun

/-- The calls of a program with a value are all of functions that the arithmetic has. -/
theorem function_of_mem {A : Arithmetic α} {p : Program} {x : α × Option String} {name : String}
    {argc : Nat} (h : evaluate A p = .ok x) (hmem : .call name argc ∈ p) :
    ∃ f, A.function name argc = .ok f := by
  obtain ⟨s, hrun, -⟩ := bind_eq_ok h
  obtain ⟨t, t', hstep⟩ := stepped_of_mem hmem hrun
  cases hstep with
  | call hfunction _ _ => exact ⟨_, hfunction⟩

end Machine

/-- One arithmetic does on related values what another one does. -/
structure Arithmetic.Simulates (R : α → β → Prop) (A : Arithmetic α) (B : Arithmetic β) :
    Prop where
  number : ∀ n, Agree (fun x y => R x.1 y.1 ∧ x.2 = y.2) (A.number n) (B.number n)
  constant : ∀ name, Agree R (A.constant name) (B.constant name)
  function : ∀ name argc, Agree
    (fun f g => ∀ xs ys, xs.length = argc → List.Forall₂ R xs ys → Agree R (f xs) (g ys))
    (A.function name argc) (B.function name argc)
  unary : ∀ op, Agree (fun f g => ∀ a b, R a b → Agree R (f a) (g b)) (A.unary op) (B.unary op)
  binary : ∀ op, Agree
    (fun f g => ∀ a b c d, R a b → R c d → Agree R (f a c) (g b d)) (A.binary op) (B.binary op)

namespace Machine

/-- Stacks related value by value, and the same remark. -/
def State.Related (R : α → β → Prop) (s : State α) (t : State β) : Prop :=
  List.Forall₂ R s.stack t.stack ∧ s.note = t.note

variable {R : α → β → Prop} {A : Arithmetic α} {B : Arithmetic β}

theorem take_agree {xs : List α} {ys : List β} (h : List.Forall₂ R xs ys) (consumer : String)
    (count : Nat) :
    Agree (fun x y => x.1.length = count ∧ List.Forall₂ R x.1 y.1 ∧ List.Forall₂ R x.2 y.2)
      (take consumer count xs) (take consumer count ys) := by
  unfold take
  rw [h.length_eq]
  split
  · exact .error _
  · next hlt =>
      refine .ok ⟨?_, ?_, ?_⟩
      · have := h.length_eq
        rw [List.length_reverse, List.length_take]
        omega
      · exact List.rel_reverse (List.forall₂_take count h)
      · exact List.forall₂_drop count h

theorem step_agree (hAB : Arithmetic.Simulates R A B) {s : State α} {t : State β}
    (hst : s.Related R t) (i : Instruction) :
    Agree (State.Related R) (step A s i) (step B t i) := by
  obtain ⟨stack, note⟩ := s
  obtain ⟨stack', note'⟩ := t
  obtain ⟨hstack, hnote⟩ := hst
  dsimp only at hstack hnote
  subst hnote
  match i with
  | .number n =>
      refine (hAB.number n).bind ?_
      rintro ⟨a, remark⟩ ⟨b, remark'⟩ ⟨hab, hremark⟩
      exact .ok ⟨.cons hab hstack, by rw [show remark = remark' from hremark]⟩
  | .constant name =>
      refine (hAB.constant name).bind fun a b hab => ?_
      exact .ok ⟨.cons hab hstack, rfl⟩
  | .call name argc =>
      refine (hAB.function name argc).bind fun f g hfg => ?_
      refine (take_agree hstack name argc).bind ?_
      rintro ⟨args, rest⟩ ⟨args', rest'⟩ ⟨hlen, hargs, hrest⟩
      refine (hfg args args' hlen hargs).bind fun a b hab => ?_
      exact .ok ⟨.cons hab hrest, rfl⟩
  | .operator (.unary op) =>
      refine (hAB.unary op).bind fun f g hfg => ?_
      cases hstack with
      | nil => exact .error _
      | cons hab hrest =>
          exact (hfg _ _ hab).bind fun _ _ hcd => .ok ⟨.cons hcd hrest, rfl⟩
  | .operator (.binary op) =>
      refine (hAB.binary op).bind fun f g hfg => ?_
      cases hstack with
      | nil => exact .error _
      | cons hab hrest =>
          cases hrest with
          | nil => exact .error _
          | cons hcd hrest =>
              exact (hfg _ _ _ _ hcd hab).bind fun _ _ hef => .ok ⟨.cons hef hrest, rfl⟩
  | .stray name => exact .error _

/-- The machines run in lockstep: related stacks all along, or the same error. -/
theorem run_agree (hAB : Arithmetic.Simulates R A B) (p : Program) :
    ∀ {s : State α} {t : State β}, s.Related R t →
      Agree (State.Related R) (run A s p) (run B t p) := by
  induction p with
  | nil => exact fun hst => .ok hst
  | cons i p ih =>
      intro s t hst
      rw [run_cons, run_cons]
      exact (step_agree hAB hst i).bind fun _ _ h => ih h

theorem result_agree {s : State α} {t : State β} (hst : s.Related R t) :
    Agree (fun x y => R x.1 y.1 ∧ x.2 = y.2) (result s) (result t) := by
  obtain ⟨stack, note⟩ := s
  obtain ⟨stack', note'⟩ := t
  obtain ⟨hstack, hnote⟩ := hst
  dsimp only at hstack hnote
  subst hnote
  cases hstack with
  | nil => exact .error _
  | cons hab hrest =>
      cases hrest with
      | nil => exact .ok ⟨hab, rfl⟩
      | cons hcd hrest =>
          show Agree _ (.error (EvalError.unbalanced _)) (.error (EvalError.unbalanced _))
          rw [List.length_cons, List.length_cons, List.length_cons, List.length_cons,
            hrest.length_eq]
          exact .error _

end Machine

/-- All that an arithmetic raises is of one kind. -/
structure Arithmetic.Raises (A : Arithmetic α) (E : EvalError → Prop) : Prop where
  number : ∀ n, Raising E (A.number n)
  constant : ∀ name, Raising E (A.constant name)
  function : ∀ name argc, Raising E (A.function name argc)
  call : ∀ {name argc f}, A.function name argc = .ok f → ∀ args, Raising E (f args)
  unary : ∀ op, Raising E (A.unary op)
  applyUnary : ∀ {op f}, A.unary op = .ok f → ∀ a, Raising E (f a)
  binary : ∀ op, Raising E (A.binary op)
  applyBinary : ∀ {op f}, A.binary op = .ok f → ∀ a b, Raising E (f a b)

end Reckon
