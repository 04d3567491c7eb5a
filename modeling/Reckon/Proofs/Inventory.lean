import Reckon.Proofs.Nesting

/-!
# What a program has of its row

Grouping reorders a row of lexemes and drops its parentheses and commas, and that is all it does:
operands keep their order, each operator and each call head comes out once, and a call has as many
arguments as its parentheses say. This holds of every row that is not refused, a phrase or not.

At each point of a row its operators and call heads are in the output or wait on the stack
(`Listed`). An operator leaves the stack only for the output, wherever it is released, and a call
head leaves it with the parenthesis that is closed, whose place in the row says which commas were
counted.
-/

namespace Reckon

namespace Instruction

def isOperand : Instruction → Bool
  | number _ | constant _ => true
  | _ => false

def operator? : Instruction → Option Operator
  | operator op => some op
  | _ => none

/-- The function that an instruction calls and the number of its arguments. -/
def call? : Instruction → Option (String × Nat)
  | call name argc => some (name, argc)
  | _ => none

/-- The function that an instruction calls. -/
def called? : Instruction → Option String
  | call name _ => some name
  | _ => none

end Instruction

namespace Lexeme

/-- The operand that a lexeme stands for. -/
def operand? : Lexeme → Option Instruction
  | number n => some (.number n)
  | name s => some (.constant s)
  | _ => none

def operator? : Lexeme → Option Operator
  | operator op => some op
  | _ => none

def callHead? : Lexeme → Option String
  | callHead s => some s
  | _ => none

end Lexeme

namespace Yard

def Waiting.operator? : Waiting → Option Operator
  | operator op => some op
  | _ => none

def Waiting.callHead? : Waiting → Option String
  | callHead name => some name
  | _ => none

/-! ## What is in the output and what waits

Operands go to the output at once, and calls when they are closed. Of these two the output alone
gives the account, and it gives it in order. An operator or a call head may be anywhere in between,
so theirs is an account of output and stack together. It holds up to a permutation only: no step
keeps an order of the operators, since a looser one lets those before it out first. -/

/-- All of a row is in the output, given in the order of the program, or waits on the stack. -/
structure Listed (before : List Lexeme) (output : Program) (st : List Waiting) : Prop where
  operands : output.filter Instruction.isOperand = before.filterMap Lexeme.operand?
  operators : (output.filterMap Instruction.operator? ++ st.filterMap Waiting.operator?).Perm
    (before.filterMap Lexeme.operator?)
  heads : (output.filterMap Instruction.called? ++ st.filterMap Waiting.callHead?).Perm
    (before.filterMap Lexeme.callHead?)
  calls : output.filterMap Instruction.call? = Reckon.calls before

variable {before : List Lexeme} {l : Lexeme} {ls rs : List Lexeme} {s s' : State}
  {output : Program} {ops : List Operator} {ws st : List Waiting} {f : String}

theorem Listed.nil : Listed [] [] [] :=
  ⟨rfl, .nil, .nil, rfl⟩

/-- Operators leave the stack for the output. -/
theorem Listed.release (h : Listed before output (waiting ops ++ st)) :
    Listed before (output ++ ops.map .operator) st := by
  have hoperators := h.operators
  have hheads := h.heads
  refine ⟨?_, ?_, ?_, ?_⟩
  · simp [h.operands, List.filter_map, Function.comp_def, Instruction.isOperand]
  · simpa [waiting, List.filterMap_map, Function.comp_def, Instruction.operator?,
      Waiting.operator?] using hoperators
  · simpa [waiting, List.filterMap_map, Function.comp_def, Instruction.called?,
      Waiting.callHead?] using hheads
  · simp [h.calls, List.filterMap_map, Function.comp_def, Instruction.call?]

theorem filterMap_append_singleton {α : Type} (k : Lexeme → Option α) (ls : List Lexeme)
    (l : Lexeme) : (ls ++ [l]).filterMap k = ls.filterMap k ++ (k l).toList := by
  rw [List.filterMap_append]
  cases hk : k l <;> simp [hk]

/-- One more lexeme is in the output or waits. -/
theorem Listed.append_singleton {p : Program} {st' : List Waiting} (h : Listed before output st)
    (hoperands : p.filter Instruction.isOperand = l.operand?.toList)
    (hoperators : p.filterMap Instruction.operator? ++ st'.filterMap Waiting.operator? =
      l.operator?.toList ++ st.filterMap Waiting.operator?)
    (hheads : p.filterMap Instruction.called? ++ st'.filterMap Waiting.callHead? =
      l.callHead?.toList ++ st.filterMap Waiting.callHead?)
    (hcalls : p.filterMap Instruction.call? = (endedCall? before l).toList) :
    Listed (before ++ [l]) (output ++ p) st' := by
  refine ⟨?_, ?_, ?_, ?_⟩
  · rw [List.filter_append, h.operands, hoperands, filterMap_append_singleton]
  · rw [List.filterMap_append, List.append_assoc, hoperators, filterMap_append_singleton]
    exact (List.perm_append_comm_assoc _ _ _).trans
      ((h.operators.append_left _).trans List.perm_append_comm)
  · rw [List.filterMap_append, List.append_assoc, hheads, filterMap_append_singleton]
    exact (List.perm_append_comm_assoc _ _ _).trans
      ((h.heads.append_left _).trans List.perm_append_comm)
  · rw [List.filterMap_append, h.calls, hcalls, calls_append_singleton]

/-- The count of a call that is closed is the number of its arguments. -/
theorem Nested.endedCall?_of_call (h : Nested before s)
    (hs : s.stack = ws ++ .paren :: .callHead f :: st) (hws : ∀ w ∈ ws, w.isParen = false) :
    endedCall? before .rightParen = some (f, if s.justOpened then 0 else s.counts.headD 1) := by
  obtain ⟨i, is, ns, his, hcounts, hcall, -⟩ := (h.of_append hs hws).2.of_call
  have hargc : argumentCount before i before.length =
      if s.justOpened then 0 else commasIn before i + 1 := by
    simp only [argumentCount, h.justOpened_iff his]
  rw [endedCall?, his, hcounts]
  simp [closedBy?, hcall, hargc]

/-- A group that is closed is no call. -/
theorem Nested.endedCall?_of_group (h : Nested before s) (hs : s.stack = ws ++ .paren :: st)
    (hws : ∀ w ∈ ws, w.isParen = false) (hgroup : ∀ f st', st ≠ .callHead f :: st') :
    endedCall? before .rightParen = none := by
  obtain ⟨i, is, his, hcall, -⟩ := (h.of_append hs hws).2.of_group hgroup
  rw [endedCall?, his]
  simp [closedBy?, hcall]

/-- A row of operators that is released above the rest of the stack. -/
theorem Listed.emit (h : Listed before s.output.reverse s.stack) (hs : s.stack = ws ++ st)
    (hws : ∃ ops, ws = waiting ops) : Listed before (emit ws s.output).reverse st := by
  obtain ⟨ops, rfl⟩ := hws
  rw [hs] at h
  rw [reverse_emit_waiting]
  exact h.release

/-- One step keeps all of the row. -/
theorem Nested.listed (h : Nested before s) (hlisted : Listed before s.output.reverse s.stack)
    (hs : Stepped s l s') : Listed (before ++ [l]) s'.output.reverse s'.stack := by
  cases hs with
  | number | name =>
      rw [List.reverse_cons]
      exact hlisted.append_singleton rfl rfl rfl rfl
  | callHead | leftParen =>
      rw [← List.append_nil s.output.reverse]
      exact hlisted.append_singleton rfl rfl rfl rfl
  | @operator op ws st hstack hws _ =>
      have hops := isParen_of_isOperator (isOperator_of_appliedBefore hws)
      have hlisted := hlisted.emit hstack (h.of_append hstack hops).1
      rw [← List.append_nil (emit ws s.output).reverse]
      exact hlisted.append_singleton rfl rfl rfl rfl
  | @comma f ws st hstack hws =>
      have hlisted := hlisted.emit hstack (h.of_append hstack hws).1
      rw [← List.append_nil (emit ws s.output).reverse]
      exact hlisted.append_singleton rfl rfl rfl rfl
  | closeCall hstack hws =>
      have hlisted := hlisted.emit hstack (h.of_append hstack hws).1
      rw [List.reverse_cons]
      refine hlisted.append_singleton rfl rfl rfl ?_
      rw [h.endedCall?_of_call hstack hws]
      rfl
  | @closeGroup ws st hstack hws hgroup _ =>
      have hlisted := hlisted.emit hstack (h.of_append hstack hws).1
      rw [← List.append_nil (emit ws s.output).reverse]
      refine hlisted.append_singleton rfl rfl rfl ?_
      rw [h.endedCall?_of_group hstack hws hgroup]
      rfl

theorem Reached.listed (h : Reached before s (l :: rs))
    (hlisted : Listed before s.output.reverse s.stack) (hs : Stepped s l s') :
    Listed (before ++ [l]) s'.output.reverse s'.stack := by
  rcases h with h | ⟨-, hnext⟩
  · exact h.listed hlisted hs
  · cases hnext
    cases hs
    rw [← List.append_nil s.output.reverse]
    exact hlisted.append_singleton rfl rfl rfl rfl

/-- A run keeps all of its row. -/
theorem listed_of_run (hcalled : Called (ls ++ rs)) (hrun : run {} ls = .ok s) :
    Listed ls s.output.reverse s.stack := by
  induction ls using List.reverseRecOn generalizing rs s with
  | nil =>
      cases hrun
      exact .nil
  | append_singleton ls l ih =>
      rw [List.append_assoc, List.singleton_append] at hcalled
      rw [run_append] at hrun
      obtain ⟨mid, hmid, hrun⟩ := bind_eq_ok hrun
      obtain ⟨s', hstep, hrun⟩ := bind_eq_ok hrun
      cases hrun
      exact (reached_of_run hcalled hmid).listed (ih hcalled hmid) (step_eq_ok_iff.mp hstep)

end Yard

/-- What a program has of its row. -/
structure Program.Keeps (p : Program) (ls : List Lexeme) : Prop where
  /-- The operands are those of the row, in their order. -/
  operands : p.filter Instruction.isOperand = ls.filterMap Lexeme.operand?
  operators : (p.filterMap Instruction.operator?).Perm (ls.filterMap Lexeme.operator?)
  /-- Each call head is called once. -/
  heads : (p.filterMap Instruction.called?).Perm (ls.filterMap Lexeme.callHead?)
  /-- The calls come in the order of their closing parentheses. -/
  calls : p.filterMap Instruction.call? = Reckon.calls ls
  /-- The parenthesis of a call head is closed once. -/
  closed : ∀ k f, ls[k]? = some (.callHead f) → ∃! j, (k + 1, j) ∈ closures ls
  unstrayed : ∀ name, .stray name ∉ p

theorem Called.getElem?_succ {ls : List Lexeme} {k : Nat} {f : String} (h : Called ls)
    (hk : ls[k]? = some (.callHead f)) : ls[k + 1]? = some .leftParen := by
  induction ls generalizing k with
  | nil => cases hk
  | cons l ls ih =>
      cases k with
      | zero =>
          cases hk
          rw [List.getElem?_cons_succ, ← List.head?_eq_getElem?]
          exact h.1
      | succ k => exact ih h.tail hk

/-- Where call heads have their parentheses, a program keeps what its row has. -/
theorem Program.keeps_of_ofLexemes {ls : List Lexeme} {p : Program} (hcalled : Called ls)
    (hp : Program.ofLexemes ls = .ok p) : p.Keeps ls := by
  have hclosed : openParens ls = [] := by
    have hsettles := Program.settles_ofLexemes hcalled
    rw [hp] at hsettles
    exact hsettles.2
  have hsane := Yard.sane_of_ofLexemes (N := fun _ => True) hcalled (fun _ _ => trivial) hp
  obtain ⟨s, hrun, hrest⟩ := bind_eq_ok hp
  obtain ⟨q, hdrain, hrest⟩ := bind_eq_ok hrest
  cases hrest
  obtain ⟨ops, hstack, rfl⟩ := Yard.drain_eq_ok hdrain
  have hlisted : Yard.Listed ls (s.output.reverse ++ ops.map .operator) [] := by
    rw [← List.append_nil ls] at hcalled
    have hlisted := Yard.listed_of_run hcalled hrun
    rw [hstack, ← List.append_nil (Yard.waiting ops)] at hlisted
    exact hlisted.release
  refine ⟨hlisted.operands, ?_, ?_, hlisted.calls, ?_, fun name hname => hsane _ hname⟩
  · have hoperators := hlisted.operators
    rw [List.filterMap_nil, List.append_nil] at hoperators
    exact hoperators
  · have hheads := hlisted.heads
    rw [List.filterMap_nil, List.append_nil] at hheads
    exact hheads
  · intro k f hk
    rcases open_or_closed (hcalled.getElem?_succ hk) with hopen | ⟨j, hj⟩
    · rw [hclosed] at hopen
      cases hopen
    · exact ⟨j, hj, fun j' hj' => eq_of_mem_closures hj' hj⟩

/-- The tokens of a text that group into a program lose nothing but parentheses and commas, and
nothing comes twice, whether they are a phrase or not. -/
theorem program_keeps_tokens {radix : Radix} {text : String} {tokens : List Token} {p : Program}
    (htokens : tokenize radix text = .ok tokens) (hp : group tokens = .ok p) :
    p.Keeps (tokens.map Token.lexeme) :=
  Program.keeps_of_ofLexemes (readable_and_called htokens).2 (mapError_eq_ok hp)

/-- In `f(,1)2 ~` the first argument is empty, and the operator comes after an operand that stands
side by side with another. -/
theorem program_keeps_tokens_ungrammatical :
    ∃ tokens p, tokenize .dec "f(,1)2 ~" = .ok tokens ∧ group tokens = .ok p ∧
      p = [.number { text := "1" }, .call "f" 2, .number { text := "2" },
        .operator (.unary .complement)] ∧
      p.Keeps (tokens.map Token.lexeme) := by
  have htokens : (tokenize .dec "f(,1)2 ~").toOption =
      some [⟨.callHead "f", 1⟩, ⟨.leftParen, 2⟩, ⟨.comma, 3⟩, ⟨.number { text := "1" }, 4⟩,
        ⟨.rightParen, 5⟩, ⟨.number { text := "2" }, 6⟩, ⟨.operator (.unary .complement), 8⟩] := by
    decide +kernel
  have hok := eq_ok_of_toOption htokens
  exact ⟨_, _, hok, rfl, rfl, program_keeps_tokens hok rfl⟩

end Reckon
