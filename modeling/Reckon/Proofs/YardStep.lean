import Reckon.Program.OfLexemes
import Reckon.Proofs.Outcome

/-!
# One step of the yard

`Stepped` says all that a step can do when it succeeds, and under which conditions: which entries of
the stack it releases, what it adds to the program and what it leaves. It holds exactly of the steps
that succeed (`step_eq_ok_iff`), so that facts about a step are proved by cases, and steps are found
by naming a case.
-/

namespace Reckon.Yard

/-- The lexeme leads from one state to the other. -/
inductive Stepped : State → Lexeme → State → Prop
  | number {s : State} {n : Numeral} :
      Stepped s (.number n) ⟨.number n :: s.output, s.stack, s.counts, false⟩
  | name {s : State} {x : String} :
      Stepped s (.name x) ⟨.constant x :: s.output, s.stack, s.counts, false⟩
  | callHead {s : State} {f : String} :
      Stepped s (.callHead f) ⟨s.output, .callHead f :: s.stack, 1 :: s.counts, false⟩
  | leftParen {s : State} : Stepped s .leftParen ⟨s.output, .paren :: s.stack, s.counts, true⟩
  | operator {s : State} {op : Operator} {ws st : List Waiting} :
      s.stack = ws ++ st → (∀ w ∈ ws, appliedBefore op w = true) →
      (∀ w ∈ st.head?, appliedBefore op w = false) →
      Stepped s (.operator op) ⟨emit ws s.output, .operator op :: st, s.counts, false⟩
  | comma {s : State} {f : String} {ws st : List Waiting} :
      s.stack = ws ++ .paren :: .callHead f :: st → (∀ w ∈ ws, w.isParen = false) →
      Stepped s .comma
        ⟨emit ws s.output, .paren :: .callHead f :: st, countArgument s.counts, false⟩
  | closeCall {s : State} {f : String} {ws st : List Waiting} :
      s.stack = ws ++ .paren :: .callHead f :: st → (∀ w ∈ ws, w.isParen = false) →
      Stepped s .rightParen
        ⟨.call f (if s.justOpened then 0 else s.counts.headD 1) :: emit ws s.output, st,
          s.counts.tail, false⟩
  | closeGroup {s : State} {ws st : List Waiting} :
      s.stack = ws ++ .paren :: st → (∀ w ∈ ws, w.isParen = false) →
      (∀ f st', st ≠ .callHead f :: st') → s.justOpened = false →
      Stepped s .rightParen ⟨emit ws s.output, st, s.counts, false⟩

/-- A row of entries that satisfy a test is split off where the entry below fails it. -/
theorem span_append {p : Waiting → Bool} {ws st : List Waiting} (hws : ∀ w ∈ ws, p w = true)
    (hst : ∀ w ∈ st.head?, p w = false) :
    (ws ++ st).takeWhile p = ws ∧ (ws ++ st).dropWhile p = st := by
  rw [List.takeWhile_append_of_pos hws, List.dropWhile_append_of_pos hws]
  cases st with
  | nil => simp
  | cons w st =>
      have hw : p w = false := hst w rfl
      simp [hw]

/-- Where a stack is split by a test. -/
theorem exists_span (p : Waiting → Bool) (stack : List Waiting) :
    ∃ ws st, stack = ws ++ st ∧ (∀ w ∈ ws, p w = true) ∧ ∀ w ∈ st.head?, p w = false := by
  refine ⟨stack.takeWhile p, stack.dropWhile p, List.takeWhile_append_dropWhile.symm,
    List.all_eq_true.mp List.all_takeWhile, ?_⟩
  intro w hw
  have hnot := List.head?_dropWhile_not p stack
  rw [hw] at hnot
  exact hnot

/-- Unwinding releases the row above the innermost parenthesis. -/
theorem unwind_of_paren {s : State} {ws st : List Waiting} (hs : s.stack = ws ++ .paren :: st)
    (hws : ∀ w ∈ ws, w.isParen = false) :
    unwind s = ⟨emit ws s.output, .paren :: st, s.counts, s.justOpened⟩ := by
  have hall : ∀ w ∈ ws, (!w.isParen) = true := by
    intro w hw
    rw [hws w hw]
    rfl
  have hparen : ∀ w ∈ (Waiting.paren :: st).head?, (!w.isParen) = false := by
    intro w hw
    cases hw
    rfl
  obtain ⟨ht, hd⟩ := span_append hall hparen
  simp only [unwind, hs, ht, hd]

/-- Without a parenthesis on the stack, unwinding leaves nothing. -/
theorem unwind_or (s : State) : (unwind s).stack = [] ∨
    ∃ ws st, s.stack = ws ++ .paren :: st ∧ ∀ w ∈ ws, w.isParen = false := by
  obtain ⟨ws, st, hs, hws, hst⟩ := exists_span (fun w : Waiting => !w.isParen) s.stack
  cases st with
  | nil =>
      left
      show s.stack.dropWhile _ = []
      rw [hs]
      exact (span_append hws hst).2
  | cons w st =>
      have hw : (!w.isParen) = false := hst w rfl
      cases w with
      | paren =>
          right
          exact ⟨ws, st, hs, fun v hv => by simpa using hws v hv⟩
      | operator op => cases hw
      | callHead f => cases hw

theorem stepped_comma {s s' : State} (h : comma s = .ok s') : Stepped s .comma s' := by
  rcases unwind_or s with hnil | ⟨ws, st, hs, hws⟩
  · simp only [comma, hnil] at h
    cases h
  · simp only [comma, unwind_of_paren hs hws] at h
    match st with
    | .callHead f :: st =>
        cases h
        exact .comma hs hws
    | .operator _ :: _ | .paren :: _ | [] => cases h

theorem stepped_close {s s' : State} (h : close s = .ok s') : Stepped s .rightParen s' := by
  rcases unwind_or s with hnil | ⟨ws, st, hs, hws⟩
  · simp only [close, hnil] at h
    cases h
  · simp only [close, unwind_of_paren hs hws] at h
    split at h
    · next hnil => cases hnil
    · next hcall =>
        cases hcall
        cases h
        exact .closeCall hs hws
    · next hne hgroup =>
        cases hgroup
        split at h
        · cases h
        · next hopened =>
            cases h
            refine .closeGroup hs hws ?_ (by simpa using hopened)
            rintro f st' rfl
            exact hne f st' rfl

theorem close_of_group {s : State} {ws st : List Waiting} (hs : s.stack = ws ++ .paren :: st)
    (hws : ∀ w ∈ ws, w.isParen = false) (hst : ∀ f st', st ≠ .callHead f :: st')
    (hopened : s.justOpened = false) :
    close s = .ok ⟨emit ws s.output, st, s.counts, false⟩ := by
  simp only [close, unwind_of_paren hs hws, hopened]
  match st with
  | .callHead f :: st' => exact absurd rfl (hst f st')
  | .operator _ :: _ | .paren :: _ | [] => rfl

/-- A step succeeds exactly if it is one of these. -/
theorem step_eq_ok_iff {s s' : State} {l : Lexeme} : step s l = .ok s' ↔ Stepped s l s' := by
  constructor
  · intro h
    cases l with
    | number n =>
        cases h
        exact .number
    | name x =>
        cases h
        exact .name
    | callHead f =>
        cases h
        exact .callHead
    | leftParen =>
        cases h
        exact .leftParen
    | comma => exact stepped_comma h
    | rightParen => exact stepped_close h
    | operator op =>
        cases h
        obtain ⟨ws, st, hs, hws, hst⟩ := exists_span (appliedBefore op) s.stack
        obtain ⟨ht, hd⟩ := span_append hws hst
        rw [hs, ht, hd]
        exact .operator hs hws hst
  · intro h
    cases h with
    | number | name | callHead | leftParen => rfl
    | operator hs hws hst =>
        obtain ⟨ht, hd⟩ := span_append hws hst
        simp only [step, hs, ht, hd]
    | comma hs hws => simp only [step, comma, unwind_of_paren hs hws]
    | closeCall hs hws => simp only [step, close, unwind_of_paren hs hws]
    | closeGroup hs hws hst hopened => exact close_of_group hs hws hst hopened

end Reckon.Yard
