import Reckon.Expr.Machine
import Reckon.Proofs.Machine

/-!
# Programs that have a value are postfix listings

`Expr.run_program` says what a machine makes of the listing of a tree. This file is about all the
other programs.

A run is accompanied by trees: as long as no instruction fails, the program read so far is the
listing of a row of trees, one for each value on the stack (`run_listing`). A run that ends with one
value therefore ran the listing of one tree. Nothing is asked of the arithmetic.

That no two trees share a listing follows from running it over the free arithmetic, whose values are
trees and whose operations build them: the one value left is the tree itself.
-/

namespace Reckon

open Machine

variable {α : Type}

theorem Expr.program_ne_nil (e : Expr) : e.program ≠ [] := by
  intro h
  have hlength := congrArg List.length h
  cases e <;> simp [Expr.program] at hlength

/-- The listings of a row of trees, the last tree first. -/
def listing (es : List Expr) : Program :=
  Expr.programs es.reverse

theorem Expr.programs_append (es fs : List Expr) :
    Expr.programs (es ++ fs) = Expr.programs es ++ Expr.programs fs := by
  induction es with
  | nil => rw [List.nil_append, Expr.programs, List.nil_append]
  | cons e es ih => rw [List.cons_append, Expr.programs, Expr.programs, ih, List.append_assoc]

theorem listing_cons (e : Expr) (es : List Expr) : listing (e :: es) = listing es ++ e.program := by
  simp [listing, Expr.programs_append, Expr.programs]

theorem listing_append (es fs : List Expr) :
    listing (es ++ fs) = listing fs ++ Expr.programs es.reverse := by
  rw [listing, List.reverse_append, Expr.programs_append]
  rfl

/-- An instruction that succeeds extends the trees as it extends the stack. -/
theorem step_listing {A : Arithmetic α} {s s' : State α} {i : Instruction}
    (h : step A s i = .ok s') {es : List Expr} (hes : es.length = s.stack.length) :
    ∃ es', es'.length = s'.stack.length ∧ listing es' = listing es ++ [i] := by
  cases stepped_of_step h with
  | @number n =>
      refine ⟨.number n :: es, congrArg (· + 1) hes, ?_⟩
      rw [listing_cons, Expr.program]
  | @constant name =>
      refine ⟨.name name :: es, congrArg (· + 1) hes, ?_⟩
      rw [listing_cons, Expr.program]
  | @call name argc _ args _ _ rest _ hargs _ =>
      have hlen : es.length = argc + rest.length := by simpa [hargs] using hes
      -- The trees of the arguments are the first `argc` ones, the last argument first.
      have hsplit := listing_append (es.take argc) (es.drop argc)
      rw [List.take_append_drop] at hsplit
      refine ⟨.call name (es.take argc).reverse :: es.drop argc, ?_, ?_⟩
      · simp only [List.length_cons, List.length_drop]
        omega
      · rw [listing_cons, Expr.program, hsplit, List.length_reverse, List.length_take,
          Nat.min_eq_left (by omega), List.append_assoc]
  | @unary op =>
      match es with
      | e :: es =>
          refine ⟨.unary op e :: es, hes, ?_⟩
          rw [listing_cons, listing_cons, Expr.program, List.append_assoc]
  | @binary op =>
      match es with
      | r :: l :: es =>
          refine ⟨.binary op l r :: es, by simpa using hes, ?_⟩
          simp only [listing_cons, Expr.program, List.append_assoc]

theorem run_listing {A : Arithmetic α} (p : Program) :
    ∀ {s s' : State α} {es : List Expr}, run A s p = .ok s' → es.length = s.stack.length →
      ∃ es', es'.length = s'.stack.length ∧ listing es' = listing es ++ p := by
  induction p with
  | nil =>
      intro s s' es h hes
      cases h
      exact ⟨es, hes, (List.append_nil _).symm⟩
  | cons i p ih =>
      intro s s' es h hes
      rw [run_cons] at h
      obtain ⟨mid, hstep, hrun⟩ := bind_eq_ok h
      obtain ⟨es₁, hlen₁, hlist₁⟩ := step_listing hstep hes
      obtain ⟨es₂, hlen₂, hlist₂⟩ := ih hrun hlen₁
      exact ⟨es₂, hlen₂, by rw [hlist₂, hlist₁, List.append_assoc, List.singleton_append]⟩

/-- A program with a value, over any arithmetic, lists a tree. -/
theorem exists_program_eq {A : Arithmetic α} {p : Program} {x : α × Option String}
    (h : Machine.evaluate A p = .ok x) : ∃ e : Expr, e.program = p := by
  obtain ⟨s, hrun, hresult⟩ := bind_eq_ok h
  have hnil : ([] : List Expr).length = (State.stack ({} : State α)).length := rfl
  obtain ⟨es, hlen, hlist⟩ := run_listing p hrun hnil
  obtain ⟨stack, note⟩ := s
  match stack, es with
  | [a], [e] =>
      refine ⟨e, ?_⟩
      simpa [listing, Expr.programs] using hlist
  | [], _ | _ :: _ :: _, _ => cases hresult

/-- The arithmetic whose values are trees. It refuses nothing and computes nothing. -/
def Arithmetic.free : Arithmetic Expr where
  number n := .ok (.number n, none)
  constant name := .ok (.name name)
  function name _ := .ok fun args => .ok (.call name args)
  unary op := .ok fun e => .ok (.unary op e)
  binary op := .ok fun l r => .ok (.binary op l r)

mutual

theorem Expr.evaluate_free : (e : Expr) → e.evaluate Arithmetic.free = .ok (e, none)
  | .number n => by rw [Expr.evaluate]; rfl
  | .name s => by rw [Expr.evaluate]; rfl
  | .unary op e => by rw [Expr.evaluate, Expr.evaluate_free e]; rfl
  | .binary op l r => by rw [Expr.evaluate, Expr.evaluate_free l, Expr.evaluate_free r]; rfl
  | .call s args => by rw [Expr.evaluate, Expr.evaluateAll_free args]; rfl

theorem Expr.evaluateAll_free :
    (es : List Expr) → Expr.evaluateAll Arithmetic.free es = .ok (es, none)
  | [] => by rw [Expr.evaluateAll]
  | e :: es => by rw [Expr.evaluateAll, Expr.evaluate_free e, Expr.evaluateAll_free es]; rfl

end

theorem Expr.program_injective {e e' : Expr} (h : e.program = e'.program) : e = e' := by
  have he := (Expr.machine_evaluate_program Arithmetic.free e).trans (Expr.evaluate_free e)
  have he' := (Expr.machine_evaluate_program Arithmetic.free e').trans (Expr.evaluate_free e')
  rw [h, he'] at he
  cases he
  rfl

end Reckon
