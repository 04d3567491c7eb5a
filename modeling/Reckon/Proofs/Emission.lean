import Reckon.Proofs.Enclosed
import Reckon.Proofs.Token.Lexed

/-!
# What gets into a program

A call head waits below the parenthesis that its token stands in front of, and a row that is
released has no parenthesis in it. So no call head ever leaves the stack but through its call, and
a program has only what its tokens have: numerals, names, operators and calls. The invariant is
`Capped`; it fails for the one step between a call head and its parenthesis, which `Ready` makes
room for.
-/

namespace Reckon

namespace Yard

variable {N : Numeral → Prop} {s s' : State} {l : Lexeme} {ls : List Lexeme}
  {ws st : List Waiting}

/-- A parenthesis stands on every call head. -/
def Capped : List Waiting → Prop
  | [] => True
  | .callHead _ :: _ => False
  | .paren :: .callHead _ :: st => Capped st
  | _ :: st => Capped st

theorem Capped.of_paren (h : Capped (.paren :: st)) (hst : ∀ f st', st ≠ .callHead f :: st') :
    Capped st := by
  match st with
  | .callHead f :: st => exact absurd rfl (hst f st)
  | .operator _ :: _ | .paren :: _ | [] => exact h

/-- A parenthesis on what is capped. -/
theorem Capped.paren (h : Capped st) : Capped (.paren :: st) := by
  match st with
  | .callHead _ :: _ => exact False.elim h
  | .operator _ :: _ | .paren :: _ | [] => exact h

/-- A row without parentheses on top of what is capped is a row of operators. -/
theorem Capped.of_append (h : Capped (ws ++ st)) (hws : ∀ w ∈ ws, w.isParen = false) :
    (∀ w ∈ ws, ∃ op, w = .operator op) ∧ Capped st := by
  induction ws with
  | nil =>
      refine ⟨?_, h⟩
      intro w hw
      cases hw
  | cons w ws ih =>
      have hw := hws w (by simp)
      cases w with
      | paren => cases hw
      | callHead f => exact False.elim h
      | operator op =>
          obtain ⟨hops, hst⟩ := ih h fun v hv => hws v (by simp [hv])
          exact ⟨List.forall_mem_cons.mpr ⟨⟨op, rfl⟩, hops⟩, hst⟩

theorem sane_emit {output : List Instruction} (hws : ∀ w ∈ ws, ∃ op, w = .operator op)
    (h : ∀ i ∈ output, i.Sane N) : ∀ i ∈ emit ws output, i.Sane N := by
  intro i hi
  rcases List.mem_append.mp hi with hi | hi
  · obtain ⟨w, hw, hi⟩ := List.mem_flatMap.mp (List.mem_reverse.mp hi)
    obtain ⟨op, rfl⟩ := hws w hw
    rw [List.mem_singleton.mp hi]
    trivial
  · exact h i hi

/-- The stack is capped, or it will be once the next lexeme is in. -/
def Ready (s : State) (ls : List Lexeme) : Prop :=
  Capped s.stack ∨ ∃ f st, s.stack = .callHead f :: st ∧ Capped st ∧ ls.head? = some .leftParen

theorem isOperator_of_appliedBefore {op : Operator} (h : ∀ w ∈ ws, appliedBefore op w = true) :
    ∀ w ∈ ws, ∃ op', w = .operator op' := by
  intro w hw
  have happlied := h w hw
  cases w with
  | operator op' => exact ⟨op', rfl⟩
  | callHead f => cases happlied
  | paren => cases happlied

theorem isParen_of_isOperator (h : ∀ w ∈ ws, ∃ op, w = .operator op) :
    ∀ w ∈ ws, w.isParen = false := by
  intro w hw
  obtain ⟨op, rfl⟩ := h w hw
  rfl

/-- One step emits what is sane and stays ready. -/
theorem Stepped.sane (h : Stepped s l s') (hready : Ready s (l :: ls))
    (hcalled : Called (l :: ls)) (hnumber : ∀ n, l = .number n → N n)
    (hout : ∀ i ∈ s.output, i.Sane N) : Ready s' ls ∧ ∀ i ∈ s'.output, i.Sane N := by
  rcases hready with hcapped | ⟨f, st, hstack, hcapped, hnext⟩
  -- Only a parenthesis can follow a call head that is not yet covered.
  case inr =>
      cases hnext
      cases h
      refine ⟨.inl ?_, hout⟩
      show Capped (.paren :: s.stack)
      rw [hstack]
      exact hcapped
  cases h with
  | number => exact ⟨.inl hcapped, List.forall_mem_cons.mpr ⟨hnumber _ rfl, hout⟩⟩
  | name => exact ⟨.inl hcapped, List.forall_mem_cons.mpr ⟨trivial, hout⟩⟩
  | callHead => exact ⟨.inr ⟨_, _, rfl, hcapped, hcalled.1⟩, hout⟩
  | leftParen => exact ⟨.inl hcapped.paren, hout⟩
  | operator hs hws _ =>
      have hops := isOperator_of_appliedBefore hws
      rw [hs] at hcapped
      exact ⟨.inl (hcapped.of_append (isParen_of_isOperator hops)).2, sane_emit hops hout⟩
  | comma hs hws =>
      rw [hs] at hcapped
      obtain ⟨hops, hst⟩ := hcapped.of_append hws
      exact ⟨.inl hst, sane_emit hops hout⟩
  | closeCall hs hws =>
      rw [hs] at hcapped
      obtain ⟨hops, hst⟩ := hcapped.of_append hws
      exact ⟨.inl hst, List.forall_mem_cons.mpr ⟨trivial, sane_emit hops hout⟩⟩
  | closeGroup hs hws hgroup _ =>
      rw [hs] at hcapped
      obtain ⟨hops, hst⟩ := hcapped.of_append hws
      exact ⟨.inl (hst.of_paren hgroup), sane_emit hops hout⟩

theorem run_sane (hcalled : Called ls) (hnumbers : ∀ n, .number n ∈ ls → N n) :
    ∀ {s s' : State}, Ready s ls → (∀ i ∈ s.output, i.Sane N) → run s ls = .ok s' →
      ∀ i ∈ s'.output, i.Sane N := by
  induction ls with
  | nil =>
      intro s s' _ hout h
      cases h
      exact hout
  | cons l ls ih =>
      intro s s' hready hout h
      rw [run_cons] at h
      obtain ⟨mid, hstep, hrun⟩ := bind_eq_ok h
      obtain ⟨hready', hout'⟩ := (step_eq_ok_iff.mp hstep).sane hready hcalled
        (by rintro n rfl; exact hnumbers n (by simp)) hout
      exact ih hcalled.tail (fun n hn => hnumbers n (by simp [hn])) hready' hout' hrun

/-- A program has only what its lexemes have. -/
theorem sane_of_ofLexemes {p : Program} (hcalled : Called ls)
    (hnumbers : ∀ n, .number n ∈ ls → N n) (h : Program.ofLexemes ls = .ok p) :
    ∀ i ∈ p, i.Sane N := by
  obtain ⟨s, hrun, hrest⟩ := bind_eq_ok h
  obtain ⟨q, hdrain, hrest⟩ := bind_eq_ok hrest
  cases hrest
  obtain ⟨ops, -, rfl⟩ := drain_eq_ok hdrain
  have hready : Ready {} ls := .inl trivial
  have hout := run_sane hcalled hnumbers hready (by intro i hi; cases hi) hrun
  intro i hi
  rcases List.mem_append.mp hi with hi | hi
  · exact hout i (List.mem_reverse.mp hi)
  · obtain ⟨op, -, rfl⟩ := List.mem_map.mp hi
    trivial

end Yard

end Reckon
