import Reckon.Proofs.Derivation
import Reckon.Proofs.Faults
import Reckon.Proofs.Parens

/-!
# Which rows are refused

The yard decides on parentheses and commas from a stack that has operators between the parentheses,
and from whether the last lexeme was an opening one. Neither is the list of open parentheses, but
both can be told from it: the stack without its operators has one parenthesis for each open one, a
call head below it if it is that of a call, and the counts go with these (`Nests`). So a row is
refused at the first lexeme that is `Misplaced`, a matter of open parentheses alone, or at its end.

For one step the stack is out of line with the parentheses: a call head is on it before its
parenthesis is. Nothing but that parenthesis can follow there (`Reached`).
-/

namespace Reckon

/-- A lexeme that cannot stand after a row, and the error that says why. -/
inductive Misplaced (before : List Lexeme) : Lexeme → GroupingError → Prop
  | unopened : openParens before = [] → Misplaced before .rightParen .mismatchedParens
  | outside : openParens before = [] → Misplaced before .comma .misplacedComma
  | inGroup {i : Nat} {is : List Nat} : openParens before = i :: is → callAt? before i = none →
      Misplaced before .comma .commaOutsideCall
  | emptyGroup {i : Nat} {is : List Nat} : openParens before = i :: is →
      callAt? before i = none → before.length = i + 1 →
      Misplaced before .rightParen .emptyParens

/-- Inside a call nothing is misplaced, and in a group only a comma, or its end right after its
beginning. -/
theorem Misplaced.of_openParens {before : List Lexeme} {l : Lexeme} {e : GroupingError} {i : Nat}
    {is : List Nat} (h : Misplaced before l e) (his : openParens before = i :: is) :
    callAt? before i = none ∧ (l = .comma ∨ before.length = i + 1) := by
  cases h with
  | unopened hnil | outside hnil =>
      rw [his] at hnil
      cases hnil
  | inGroup his' hcall =>
      rw [his] at his'
      cases his'
      exact ⟨hcall, .inl rfl⟩
  | emptyGroup his' hcall hlength =>
      rw [his] at his'
      cases his'
      exact ⟨hcall, .inr hlength⟩

/-- No lexeme of the row is misplaced. -/
def Orderly (ls : List Lexeme) : Prop :=
  ∀ before l e, before ++ [l] <+: ls → ¬ Misplaced before l e

theorem Orderly.append_singleton {ls : List Lexeme} {l : Lexeme} (h : Orderly ls)
    (hl : ∀ e, ¬ Misplaced ls l e) : Orderly (ls ++ [l]) := by
  intro before l' e hprefix
  rcases List.prefix_concat_iff.mp hprefix with heq | hprefix
  · obtain ⟨rfl, hl'⟩ := List.append_inj' heq rfl
    cases hl'
    exact hl e
  · exact h before l' e hprefix

/-- Some lexeme of the row is misplaced, or a parenthesis is open at its end. -/
def IllGrouped (ls : List Lexeme) : Prop :=
  (∃ before l e, before ++ [l] <+: ls ∧ Misplaced before l e) ∨ openParens ls ≠ []

theorem not_illGrouped_iff {ls : List Lexeme} :
    ¬ IllGrouped ls ↔ Orderly ls ∧ openParens ls = [] := by
  rw [IllGrouped, not_or, not_ne_iff]
  simp only [Orderly, not_exists, not_and]

/-- The error belongs to the first lexeme of the row that is misplaced. -/
def FirstMisplaced (ls : List Lexeme) (e : GroupingError) : Prop :=
  ∃ before l, before ++ [l] <+: ls ∧ Orderly before ∧ Misplaced before l e

theorem FirstMisplaced.append {ls : List Lexeme} {e : GroupingError} (h : FirstMisplaced ls e)
    (rs : List Lexeme) : FirstMisplaced (ls ++ rs) e := by
  obtain ⟨before, l, hprefix, hfirst⟩ := h
  exact ⟨before, l, hprefix.trans (List.prefix_append _ _), hfirst⟩

/-- The error that a row is refused with, at its first misplaced lexeme or at its end. -/
inductive Refused (ls : List Lexeme) : GroupingError → Prop
  | misplaced {e : GroupingError} : FirstMisplaced ls e → Refused ls e
  | unclosed : Orderly ls → openParens ls ≠ [] → Refused ls .mismatchedParens

theorem Refused.illGrouped {ls : List Lexeme} {e : GroupingError} (h : Refused ls e) :
    IllGrouped ls := by
  cases h with
  | misplaced h =>
      obtain ⟨before, l, hprefix, -, h⟩ := h
      exact .inl ⟨before, l, e, hprefix, h⟩
  | unclosed _ hopen => exact .inr hopen

namespace Yard

/-- The stack has an entry for each of the open parentheses, with the call head below it and the
count of its arguments if it is that of a call, and nothing else but operators. -/
inductive Nests (before : List Lexeme) : List Waiting → List Nat → List Nat → Prop
  | nil : Nests before [] [] []
  | operator {op : Operator} {st : List Waiting} {is ns : List Nat} :
      Nests before st is ns → Nests before (.operator op :: st) is ns
  | group {i : Nat} {st : List Waiting} {is ns : List Nat} :
      callAt? before i = none → Nests before st is ns → Nests before (.paren :: st) (i :: is) ns
  | call {i : Nat} {f : String} {st : List Waiting} {is ns : List Nat} :
      callAt? before i = some f → Nests before st is ns →
      Nests before (.paren :: .callHead f :: st) (i :: is) ((commasIn before i + 1) :: ns)

variable {before : List Lexeme} {l : Lexeme} {ls : List Lexeme} {s s' : State}
  {ws st : List Waiting} {is ns : List Nat} {f : String} {e : GroupingError}

namespace Nests

theorem ne_callHead (h : Nests before st is ns) (f : String) (st' : List Waiting) :
    st ≠ .callHead f :: st' := by
  rintro rfl
  cases h

/-- What is above the innermost parenthesis are operators. -/
theorem of_append (h : Nests before (ws ++ st) is ns) (hws : ∀ w ∈ ws, w.isParen = false) :
    (∃ ops, ws = waiting ops) ∧ Nests before st is ns := by
  induction ws with
  | nil => exact ⟨⟨[], rfl⟩, h⟩
  | cons w ws ih =>
      have hw := hws w (by simp)
      cases w with
      | paren => cases hw
      | callHead f => exact absurd rfl (h.ne_callHead f _)
      | operator op =>
          cases h with
          | operator h =>
              obtain ⟨⟨ops, rfl⟩, hst⟩ := ih h fun v hv => hws v (by simp [hv])
              exact ⟨⟨op :: ops, rfl⟩, hst⟩

/-- The parenthesis of a call is on the stack with the count of its arguments. -/
theorem of_call (h : Nests before (.paren :: .callHead f :: st) is ns) :
    ∃ i is' ns', is = i :: is' ∧ ns = (commasIn before i + 1) :: ns' ∧
      callAt? before i = some f ∧ Nests before st is' ns' := by
  cases h with
  | group _ hst => exact absurd rfl (hst.ne_callHead f st)
  | call hcall hst => exact ⟨_, _, _, rfl, rfl, hcall, hst⟩

/-- A parenthesis without a call head below it is that of a group. -/
theorem of_group (h : Nests before (.paren :: st) is ns) (hst : ∀ f st', st ≠ .callHead f :: st') :
    ∃ i is', is = i :: is' ∧ callAt? before i = none ∧ Nests before st is' ns := by
  cases h with
  | group hcall hst => exact ⟨_, _, rfl, hcall, hst⟩
  | call => exact absurd rfl (hst _ _)

/-- The innermost parenthesis of the stack is the innermost open one. -/
theorem innermost (h : Nests before st is ns) :
    (is = [] ∧ ∃ ops, st = waiting ops) ∨
      (∃ i is' ops st', is = i :: is' ∧ callAt? before i = none ∧
        st = waiting ops ++ .paren :: st' ∧ Nests before st' is' ns) ∨
      ∃ i is' ops f st', is = i :: is' ∧ callAt? before i = some f ∧
        st = waiting ops ++ .paren :: .callHead f :: st' := by
  induction h with
  | nil => exact .inl ⟨rfl, [], rfl⟩
  | group hcall hst => exact .inr (.inl ⟨_, _, [], _, rfl, hcall, rfl, hst⟩)
  | call hcall _ => exact .inr (.inr ⟨_, _, [], _, _, rfl, hcall, rfl⟩)
  | @operator op st is ns _ ih =>
      rcases ih with ⟨his, ops, rfl⟩ | ⟨i, is', ops, st', his, hcall, rfl, hst⟩ |
        ⟨i, is', ops, f, st', his, hcall, rfl⟩
      · exact .inl ⟨his, op :: ops, rfl⟩
      · exact .inr (.inl ⟨i, is', op :: ops, st', his, hcall, rfl, hst⟩)
      · exact .inr (.inr ⟨i, is', op :: ops, f, st', his, hcall, rfl⟩)

/-- One more lexeme, which is no comma of any of the parentheses, changes nothing. -/
theorem append_singleton (h : Nests before st is ns) (his : ∀ i ∈ is, i < before.length)
    (hcomma : ∀ i ∈ is, ¬ (l = .comma ∧ (openParens before).head? = some i)) :
    Nests (before ++ [l]) st is ns := by
  induction h with
  | nil => exact .nil
  | operator _ ih => exact .operator (ih his hcomma)
  | @group i st is ns hcall _ ih =>
      obtain ⟨hi, his⟩ := List.forall_mem_cons.mp his
      refine .group ?_ (ih his fun j hj => hcomma j (by simp [hj]))
      rw [callAt?_append (Nat.le_of_lt hi), hcall]
  | @call i f st is ns hcall _ ih =>
      obtain ⟨hi, his⟩ := List.forall_mem_cons.mp his
      obtain ⟨hi', hcomma⟩ := List.forall_mem_cons.mp hcomma
      rw [← commasIn_append_singleton_of_not hi']
      refine .call ?_ (ih his hcomma)
      rw [callAt?_append (Nat.le_of_lt hi), hcall]

/-- A row goes on with a lexeme that is no comma. -/
theorem next (h : Nests before st is ns) (hl : l ≠ .comma)
    (his : ∀ i ∈ is, i ∈ openParens before) : Nests (before ++ [l]) st is ns :=
  h.append_singleton (fun i hi => lt_of_mem_openParens (his i hi)) fun _ _ hcomma => hl hcomma.1

/-- A comma is one of the innermost parenthesis alone. -/
theorem below_comma {i : Nat} (his : openParens before = i :: is) (h : Nests before st is ns) :
    Nests (before ++ [.comma]) st is ns := by
  refine h.append_singleton (fun j hj => lt_of_mem_openParens (by rw [his]; simp [hj])) ?_
  rintro j hj ⟨-, hhead⟩
  rw [his] at hhead
  cases hhead
  exact not_mem_of_openParens_eq his hj

end Nests

/-! ## Where a row has led

Every step keeps `Nested` but that of a call head: then the head is on the stack and its parenthesis
is not. `HeadWaits` says what is known there, and as the row has the parenthesis next (`Called`),
one more step leads back to `Nested`. That a parenthesis is that of a group has to be known before
it comes, and so the invariant says that no call head is at the end of the row
(`Nested.uncalled`). -/

/-- What is known of the state after a row that does not end with a call head. -/
structure Nested (before : List Lexeme) (s : State) : Prop where
  nests : Nests before s.stack (openParens before) s.counts
  uncalled : callAt? before before.length = none
  /-- The innermost parenthesis has just been opened if nothing stands after it. -/
  opened : s.justOpened = true ↔ (openParens before).head?.map (· + 1) = some before.length

/-- What is known of the state after a row that ends with a call head. -/
structure HeadWaits (before : List Lexeme) (s : State) (f : String) (st : List Waiting)
    (ns : List Nat) : Prop where
  stack : s.stack = .callHead f :: st
  counts : s.counts = 1 :: ns
  nests : Nests before st (openParens before) ns
  called : callAt? before before.length = some f

/-- The state after one row and before another, at which a parenthesis is due if a call head
waits for it. -/
def Reached (before : List Lexeme) (s : State) (ls : List Lexeme) : Prop :=
  Nested before s ∨ (∃ f st ns, HeadWaits before s f st ns) ∧ ls.head? = some .leftParen

theorem Nested.start : Nested [] {} :=
  ⟨.nil, rfl, by simp [openParens]⟩

/-- Above the innermost parenthesis there are operators, and below it the stack is still in line. -/
theorem Nested.of_append (h : Nested before s) (hs : s.stack = ws ++ st)
    (hws : ∀ w ∈ ws, w.isParen = false) :
    (∃ ops, ws = waiting ops) ∧ Nests before st (openParens before) s.counts := by
  have hnests := h.nests
  rw [hs] at hnests
  exact hnests.of_append hws

theorem head?_openParens_append_singleton (before : List Lexeme) (l : Lexeme) :
    (openParens (before ++ [l])).head?.map (· + 1) = some (before ++ [l]).length ↔
      l = .leftParen := by
  rw [openParens_append_singleton, List.length_append, List.length_singleton]
  constructor
  · intro h
    obtain ⟨i, hi, hlength⟩ := Option.map_eq_some_iff.mp h
    obtain rfl : i = before.length := Nat.succ.inj hlength
    have hmem := List.mem_of_mem_head? hi
    cases l with
    | leftParen => rfl
    | rightParen =>
        exact absurd (lt_of_mem_openParens (List.mem_of_mem_tail hmem)) (Nat.lt_irrefl _)
    | number | name | callHead | operator | comma =>
        exact absurd (lt_of_mem_openParens hmem) (Nat.lt_irrefl _)
  · rintro rfl
    rfl

/-- One step from a state that is in line with the parentheses to another one. -/
theorem Nested.step (h : Nested before s) (hs : Stepped s l s') (hl : ∀ f, l ≠ .callHead f) :
    Nested (before ++ [l]) s' := by
  have huncalled : callAt? (before ++ [l]) (before ++ [l]).length = none := by
    rw [List.length_append, List.length_singleton, callAt?_length_append_singleton]
    cases l with
    | callHead f => exact absurd rfl (hl f)
    | number | name | operator | leftParen | rightParen | comma => rfl
  have hopened := head?_openParens_append_singleton before l
  refine ⟨?_, huncalled, by rw [hopened]; cases hs <;> simp⟩
  rw [openParens_append_singleton]
  cases hs with
  | number | name => exact h.nests.next (by simp) (fun _ hi => hi)
  | callHead => exact absurd rfl (hl _)
  | leftParen =>
      refine .group ?_ (h.nests.next (by simp) fun _ hi => hi)
      rw [callAt?_append (Nat.le_refl _), h.uncalled]
  | operator hstack hws _ =>
      have hops := isParen_of_isOperator (isOperator_of_appliedBefore hws)
      exact .operator ((h.of_append hstack hops).2.next (by simp) fun _ hi => hi)
  | @comma f ws st hstack hws =>
      obtain ⟨i, is, ns, his, hcounts, hcall, hst⟩ := (h.of_append hstack hws).2.of_call
      have hlt : i < before.length := lt_of_mem_openParens (by rw [his]; simp)
      have hcommas : commasIn (before ++ [.comma]) i = commasIn before i + 1 := by
        rw [commasIn_append_singleton, if_pos ⟨rfl, by rw [his]; rfl⟩]
      have hnests : Nests (before ++ [.comma]) (.paren :: .callHead f :: st) (i :: is)
          ((commasIn (before ++ [.comma]) i + 1) :: ns) :=
        .call (by rw [callAt?_append (Nat.le_of_lt hlt), hcall]) (hst.below_comma his)
      rw [hcommas] at hnests
      rw [his, hcounts]
      exact hnests
  | closeCall hstack hws =>
      obtain ⟨i, is, ns, his, hcounts, -, hst⟩ := (h.of_append hstack hws).2.of_call
      rw [his, hcounts]
      exact hst.next (by simp) fun j hj => by rw [his]; simp [hj]
  | closeGroup hstack hws hgroup _ =>
      obtain ⟨i, is, his, -, hst⟩ := (h.of_append hstack hws).2.of_group hgroup
      rw [his]
      exact hst.next (by simp) fun j hj => by rw [his]; simp [hj]

/-- A call head waits with a count of one. -/
theorem Nested.callHead (h : Nested before s) (hs : Stepped s (.callHead f) s') :
    HeadWaits (before ++ [.callHead f]) s' f s.stack s.counts := by
  cases hs
  refine ⟨rfl, rfl, ?_, ?_⟩
  · rw [openParens_append_singleton]
    exact h.nests.next (by simp) fun _ hi => hi
  · rw [List.length_append, List.length_singleton, callAt?_length_append_singleton]

/-- The parenthesis of a call head opens its call, with no commas yet. -/
theorem HeadWaits.leftParen (h : HeadWaits before s f st ns) (hs : Stepped s .leftParen s') :
    Nested (before ++ [.leftParen]) s' := by
  cases hs
  refine ⟨?_, ?_, ?_⟩
  · have hcommas : commasIn (before ++ [.leftParen]) before.length = 0 := by
      rw [commasIn_append_singleton_of_not (by simp), commasIn_eq_zero (Nat.le_refl _)]
    have hcall : callAt? (before ++ [.leftParen]) before.length = some f := by
      rw [callAt?_append (Nat.le_refl _), h.called]
    have hnests := Nests.call hcall (h.nests.next (by simp) fun _ hi => hi)
    rw [hcommas] at hnests
    show Nests _ (.paren :: s.stack) _ s.counts
    rw [openParens_append_singleton, h.stack, h.counts]
    exact hnests
  · rw [List.length_append, List.length_singleton, callAt?_length_append_singleton]
  · rw [head?_openParens_append_singleton]
    simp

theorem Reached.step (h : Reached before s (l :: ls)) (hcalled : Called (l :: ls))
    (hs : Stepped s l s') : Reached (before ++ [l]) s' ls := by
  rcases h with h | ⟨⟨f, st, ns, h⟩, hnext⟩
  · by_cases hl : ∃ f, l = .callHead f
    · obtain ⟨f, rfl⟩ := hl
      exact .inr ⟨⟨f, _, _, h.callHead hs⟩, hcalled.1⟩
    · exact .inl (h.step hs fun f hf => hl ⟨f, hf⟩)
  · cases hnext
    exact .inl (h.leftParen hs)

/-! ## Which steps fail

Only a comma and a closing parenthesis can fail, and both look at the same part of the stack: the
innermost parenthesis and what lies below it. `Nests.innermost` leaves three cases, no parenthesis,
that of a group and that of a call. In each of them it is plain what the yard answers and whether
the lexeme is misplaced. -/

theorem Nested.justOpened_iff (h : Nested before s) {i : Nat} (his : openParens before = i :: is) :
    s.justOpened = true ↔ before.length = i + 1 := by
  rw [h.opened, his, List.head?_cons, Option.map_some, Option.some_inj, eq_comm]

/-- A comma is refused exactly where it is misplaced. -/
theorem Nested.settles_comma (h : Nested before s) :
    Settles (Misplaced before .comma) (fun _ => ∀ e, ¬ Misplaced before .comma e) (comma s) := by
  rcases h.nests.innermost with ⟨hnil, ops, hstack⟩ | ⟨i, is, ops, st, his, hcall, hstack, hst⟩ |
    ⟨i, is, ops, f, st, his, hcall, hstack⟩
  · rw [comma, unwind_start hstack]
    exact .outside hnil
  · simp only [comma, unwind_of_paren hstack (isParen_waiting _)]
    cases st with
    | nil => exact .inGroup his hcall
    | cons w st =>
        cases w with
        | callHead f => exact absurd rfl (hst.ne_callHead f st)
        | operator _ | paren => exact .inGroup his hcall
  · simp only [comma, unwind_of_paren hstack (isParen_waiting _)]
    intro e he
    rw [(he.of_openParens his).1] at hcall
    cases hcall

/-- A closing parenthesis is refused exactly where it is misplaced. -/
theorem Nested.settles_close (h : Nested before s) :
    Settles (Misplaced before .rightParen) (fun _ => ∀ e, ¬ Misplaced before .rightParen e)
      (close s) := by
  rcases h.nests.innermost with ⟨hnil, ops, hstack⟩ | ⟨i, is, ops, st, his, hcall, hstack, hst⟩ |
    ⟨i, is, ops, f, st, his, hcall, hstack⟩
  · rw [close, unwind_start hstack]
    exact .unopened hnil
  · cases hjust : s.justOpened with
    | true =>
        simp only [close, unwind_of_paren hstack (isParen_waiting _), hjust]
        have hempty := (h.justOpened_iff his).mp hjust
        cases st with
        | nil => exact .emptyGroup his hcall hempty
        | cons w st =>
            cases w with
            | callHead f => exact absurd rfl (hst.ne_callHead f st)
            | operator _ | paren => exact .emptyGroup his hcall hempty
    | false =>
        rw [close_of_group hstack (isParen_waiting _) hst.ne_callHead hjust]
        intro e he
        rcases (he.of_openParens his).2 with hcomma | hlength
        · cases hcomma
        · rw [(h.justOpened_iff his).mpr hlength] at hjust
          cases hjust
  · simp only [close, unwind_of_paren hstack (isParen_waiting _)]
    intro e he
    rw [(he.of_openParens his).1] at hcall
    cases hcall

/-- A step fails exactly where its lexeme is misplaced. -/
theorem Reached.settles_step (h : Reached before s (l :: ls)) (hcalled : Called (l :: ls)) :
    Settles (Misplaced before l)
      (fun s' => (∀ e, ¬ Misplaced before l e) ∧ Reached (before ++ [l]) s' ls)
      (Yard.step s l) := by
  have hmisplaced : Settles (Misplaced before l) (fun _ => ∀ e, ¬ Misplaced before l e)
      (Yard.step s l) := by
    cases l with
    | number | name | callHead | operator | leftParen =>
        intro e he
        cases he
    -- After a call head there is a parenthesis, so neither of these.
    | comma =>
        rcases h with h | ⟨-, hnext⟩
        · exact h.settles_comma
        · cases hnext
    | rightParen =>
        rcases h with h | ⟨-, hnext⟩
        · exact h.settles_close
        · cases hnext
  cases hstep : Yard.step s l with
  | error e =>
      rw [hstep] at hmisplaced
      exact hmisplaced
  | ok s' =>
      rw [hstep] at hmisplaced
      exact ⟨hmisplaced, h.step hcalled (step_eq_ok_iff.mp hstep)⟩

/-- A row is taken in down to the first lexeme that is misplaced. -/
theorem settles_run {rs : List Lexeme} (hcalled : Called (ls ++ rs)) :
    Settles (FirstMisplaced ls) (fun s => Orderly ls ∧ Reached ls s rs) (run {} ls) := by
  induction ls using List.reverseRecOn generalizing rs with
  | nil =>
      refine ⟨?_, .inl .start⟩
      intro before l e hprefix
      exact absurd (List.prefix_nil.mp hprefix) (by simp)
  | append_singleton ls l ih =>
      rw [List.append_assoc, List.singleton_append] at hcalled
      rw [run_append]
      have hrun := (ih hcalled).mono (fun _ he => he.append [l]) fun _ h => h
      refine hrun.bind ?_
      rintro s ⟨horderly, hreached⟩
      have hstep : Settles (FirstMisplaced (ls ++ [l])) _ (step s l) :=
        (hreached.settles_step hcalled.of_append).mono
          (fun e he => ⟨ls, l, List.prefix_refl _, horderly, he⟩) fun _ h => h
      refine hstep.bind ?_
      rintro s' ⟨hplaced, hreached⟩
      exact ⟨horderly.append_singleton hplaced, hreached⟩

/-- Where a run of a whole row has led before its last part. -/
theorem reached_of_run {rs : List Lexeme} (hcalled : Called (ls ++ rs))
    (hrun : run {} ls = .ok s) : Reached ls s rs := by
  have hsettles := settles_run hcalled
  rw [hrun] at hsettles
  exact hsettles.2

/-- What waits at the end is released exactly if no parenthesis is open. -/
theorem Nested.settles_drain (h : Nested before s) :
    Settles (fun e => openParens before ≠ [] ∧ e = .mismatchedParens)
      (fun _ => openParens before = []) (drain s.stack) := by
  rcases h.nests.innermost with ⟨hnil, ops, hstack⟩ | ⟨i, is, ops, st, his, hcall, hstack, hst⟩ |
    ⟨i, is, ops, f, st, his, hcall, hstack⟩
  · rw [hstack, drain_waiting]
    exact hnil
  all_goals
    rw [hstack, drain_waiting_paren]
    exact ⟨by simp [his], rfl⟩

end Yard

/-- A row of lexemes is refused at the first misplaced one or for a parenthesis that is open at the
end, and it is accepted if there are neither. -/
theorem Program.settles_ofLexemes {ls : List Lexeme} (hcalled : Called ls) :
    Settles (Refused ls) (fun _ => Orderly ls ∧ openParens ls = []) (Program.ofLexemes ls) := by
  have hrun : Settles (Refused ls) (fun s => Orderly ls ∧ Yard.Nested ls s) (Yard.run {} ls) := by
    rw [← List.append_nil ls] at hcalled
    refine (Yard.settles_run hcalled).mono (fun _ he => .misplaced he) ?_
    rintro s ⟨horderly, hnested | ⟨-, hnext⟩⟩
    · exact ⟨horderly, hnested⟩
    · cases hnext
  refine hrun.bind ?_
  rintro s ⟨horderly, hnested⟩
  have hdrain : Settles (Refused ls) (fun _ => openParens ls = []) (Yard.drain s.stack) := by
    refine hnested.settles_drain.mono ?_ fun _ h => h
    rintro e ⟨hopen, rfl⟩
    exact .unclosed horderly hopen
  exact hdrain.bind fun p hclosed => ⟨horderly, hclosed⟩

/-- Tokens with a parenthesis after each call head are refused exactly if they are ill grouped, with
the error of what is wrong first, and otherwise they have a program. On the way there is a count of
arguments wherever the yard takes one. -/
theorem group_refused_iff {tokens : List Token} (hcalled : Called (tokens.map Token.lexeme)) :
    ((∃ e, group tokens = .error (.grouping e) ∧ Refused (tokens.map Token.lexeme) e) ↔
      IllGrouped (tokens.map Token.lexeme)) ∧
    ((∃ p, group tokens = .ok p) ↔ ¬ IllGrouped (tokens.map Token.lexeme)) ∧
    ∀ before s f st, before <+: tokens.map Token.lexeme → Yard.run {} before = .ok s →
      (Yard.unwind s).stack = .paren :: .callHead f :: st → s.counts ≠ [] := by
  have hsettles : Settles (fun fault => ∃ e, fault = .grouping e ∧ Refused _ e) _ (group tokens) :=
    (Program.settles_ofLexemes hcalled).mapError fun e he => ⟨e, rfl, he⟩
  have hcounts : ∀ before s f st, before <+: tokens.map Token.lexeme →
      Yard.run {} before = .ok s → (Yard.unwind s).stack = .paren :: .callHead f :: st →
      s.counts ≠ [] := by
    intro before s f st _ hrun hstack
    rcases Yard.unwind_or s with hnil | ⟨ws, st', hs, hws⟩
    · rw [hnil] at hstack
      cases hstack
    · rw [Yard.unwind_of_paren hs hws] at hstack
      cases hstack
      exact Yard.counts_ne_nil hrun hs
  cases hgroup : group tokens with
  | error fault =>
      rw [hgroup] at hsettles
      obtain ⟨e, rfl, he⟩ := hsettles
      exact ⟨⟨fun _ => he.illGrouped, fun _ => ⟨e, rfl, he⟩⟩,
        ⟨fun ⟨p, hp⟩ => (nomatch hp), fun hnot => absurd he.illGrouped hnot⟩, hcounts⟩
  | ok p =>
      rw [hgroup] at hsettles
      have hnot := not_illGrouped_iff.mpr hsettles
      exact ⟨⟨fun ⟨e, he, _⟩ => (nomatch he), fun hill => absurd hill hnot⟩,
        ⟨fun _ => hnot, fun _ => ⟨p, rfl⟩⟩, hcounts⟩

/-- In `max((,` the comma is directly inside a group, though the group is inside a call. -/
theorem group_refused_iff_comma :
    Called [.callHead "max", .leftParen, .leftParen, .comma] ∧
      ∃ e, group [⟨.callHead "max", 1⟩, ⟨.leftParen, 4⟩, ⟨.leftParen, 5⟩, ⟨.comma, 6⟩] =
          .error (.grouping e) ∧
        Refused [.callHead "max", .leftParen, .leftParen, .comma] e := by
  have hcalled : Called [.callHead "max", .leftParen, .leftParen, .comma] := ⟨rfl, trivial⟩
  have hcomma : Misplaced [.callHead "max", .leftParen, .leftParen] .comma .commaOutsideCall :=
    .inGroup rfl rfl
  refine ⟨hcalled, ?_⟩
  exact (@group_refused_iff [⟨.callHead "max", 1⟩, ⟨.leftParen, 4⟩, ⟨.leftParen, 5⟩, ⟨.comma, 6⟩]
    hcalled).1.mpr (.inl ⟨_, _, _, List.prefix_refl _, hcomma⟩)

end Reckon
