import Reckon.Proofs.Postfix
import Reckon.Proofs.Precedence

/-!
# What is accepted alone is accepted inside

A row of lexemes that groups into the listing of a tree need not be a phrase, but it is closed all
the same: the yard never looks below what the row itself has put on the stack. On the empty stack
there is nothing to be found there, and a look would have been an error; above an open parenthesis
it would find the parenthesis, which stops every search. So the run on the empty stack is repeated,
step for step, above any state that has a parenthesis on top (`run_above`).

Two things have to be known of the state for this. The counts of arguments must not run out, for
then a count of what is below would be taken: there is one for each call head that waits, and one
for each that was lost (`Sound.counted`). And the yard must not think that a parenthesis has just
been opened when it was opened below (`Sound.opened`).
-/

namespace Reckon

/-- The listing of a tree has no call head without parentheses. -/
theorem Expr.stray_not_mem_program (e : Expr) (name : String) : .stray name ∉ e.program := by
  intro hmem
  have hvalue := (Expr.machine_evaluate_program Arithmetic.free e).trans (Expr.evaluate_free e)
  obtain ⟨s, hrun, -⟩ := bind_eq_ok hvalue
  obtain ⟨t, t', hstep⟩ := Machine.stepped_of_mem hmem hrun
  cases hstep

namespace Yard

/-! ## Call heads and their counts

The obvious invariant, one count for each call head that waits, is not kept: a call head that is
released along with the operators around it leaves its count behind. But it is not gone, it stands
in the program without its parentheses. Counted together with those lost ones, the call heads of
every state are as many as its counts. -/

def Waiting.isCallHead : Waiting → Bool
  | callHead _ => true
  | _ => false

/-- The number of call heads that wait. -/
def heads (ws : List Waiting) : Nat :=
  ws.countP Waiting.isCallHead

/-- Whether the instruction is a call head that has lost its parentheses. -/
def isStray : Instruction → Bool
  | .stray _ => true
  | _ => false

def strays (output : List Instruction) : Nat :=
  output.countP isStray

theorem heads_append (ws vs : List Waiting) : heads (ws ++ vs) = heads ws + heads vs :=
  List.countP_append

theorem heads_callHead (f : String) (ws : List Waiting) :
    heads (.callHead f :: ws) = heads ws + 1 :=
  List.countP_cons_of_pos rfl

theorem heads_paren (ws : List Waiting) : heads (.paren :: ws) = heads ws :=
  List.countP_cons_of_neg (by decide)

theorem heads_operator (op : Operator) (ws : List Waiting) :
    heads (.operator op :: ws) = heads ws :=
  List.countP_cons_of_neg (by simp [Waiting.isCallHead])

@[simp]
theorem heads_nil : heads [] = 0 :=
  rfl

theorem heads_waiting (ws : List Operator) : heads (waiting ws) = 0 := by
  induction ws with
  | nil => rfl
  | cons w ws ih => rw [show waiting (w :: ws) = .operator w :: waiting ws from rfl,
      heads_operator, ih]

theorem strays_cons {i : Instruction} (hi : isStray i = false) (output : List Instruction) :
    strays (i :: output) = strays output :=
  List.countP_cons_of_neg (by simp [hi])

/-- Call heads that are released are lost. -/
theorem strays_emit (ws : List Waiting) (output : List Instruction) :
    strays (emit ws output) = heads ws + strays output := by
  induction ws generalizing output with
  | nil => exact (Nat.zero_add _).symm
  | cons w ws ih =>
      rw [show w :: ws = [w] ++ ws from rfl, emit_append, ih, heads_append]
      cases w with
      | callHead f =>
          have hemit : strays (emit [.callHead f] output) = strays output + 1 :=
            List.countP_cons_of_pos rfl
          rw [hemit, heads_callHead, heads_nil]
          omega
      | operator op =>
          have hemit : strays (emit [.operator op] output) = strays output := strays_cons rfl _
          rw [hemit, heads_operator, heads_nil]
          omega
      | paren =>
          rw [heads_paren, heads_nil, Nat.zero_add]
          rfl

/-- What holds of every state that the yard comes to. -/
structure Sound (s : State) : Prop where
  /-- Each call head has its count, whether it waits or is lost. -/
  counted : s.counts.length = heads s.stack + strays s.output
  opened : s.justOpened = true → ∃ st, s.stack = .paren :: st

theorem Sound.start : Sound {} :=
  ⟨rfl, by intro h; cases h⟩

theorem length_countArgument (ns : List Nat) : (countArgument ns).length = ns.length := by
  cases ns <;> rfl

theorem Sound.stepped {s s' : State} {l : Lexeme} (h : Sound s) (hs : Stepped s l s') :
    Sound s' := by
  have hcounted := h.counted
  cases hs with
  | number | name =>
      refine ⟨?_, by intro hfalse; cases hfalse⟩
      rw [hcounted, strays_cons rfl]
  | @callHead f =>
      refine ⟨?_, by intro hfalse; cases hfalse⟩
      show s.counts.length + 1 = heads (.callHead f :: s.stack) + strays s.output
      rw [hcounted, heads_callHead]
      omega
  | leftParen =>
      refine ⟨?_, fun _ => ⟨_, rfl⟩⟩
      rw [heads_paren]
      exact hcounted
  | @operator op ws st hstack _ _ =>
      refine ⟨?_, by intro hfalse; cases hfalse⟩
      show s.counts.length = heads (.operator op :: st) + strays (emit ws s.output)
      rw [hcounted, hstack, heads_append, heads_operator, strays_emit]
      omega
  | @comma f ws st hstack _ =>
      refine ⟨?_, by intro hfalse; cases hfalse⟩
      show (countArgument s.counts).length =
        heads (.paren :: .callHead f :: st) + strays (emit ws s.output)
      rw [length_countArgument, hcounted, hstack, heads_append, strays_emit]
      omega
  | @closeCall f ws st hstack _ =>
      refine ⟨?_, by intro hfalse; cases hfalse⟩
      rw [hstack, heads_append, heads_paren, heads_callHead] at hcounted
      show s.counts.tail.length = heads st + strays (.call f _ :: emit ws s.output)
      rw [List.length_tail, hcounted, strays_cons rfl, strays_emit]
      omega
  | @closeGroup ws st hstack _ _ _ =>
      refine ⟨?_, by intro hfalse; cases hfalse⟩
      show s.counts.length = heads st + strays (emit ws s.output)
      rw [hcounted, hstack, heads_append, heads_paren, strays_emit]
      omega

theorem Sound.run {ls : List Lexeme} {s s' : State} (h : Sound s) (hrun : Yard.run s ls = .ok s') :
    Sound s' :=
  preserved_of_run Sound.stepped h hrun

/-- The state with all of another one below it. -/
def State.above (s base : State) : State :=
  ⟨s.output ++ base.output, s.stack ++ base.stack, s.counts ++ base.counts, s.justOpened⟩

theorem emit_append_output (ws : List Waiting) (output below : List Instruction) :
    emit ws (output ++ below) = emit ws output ++ below :=
  (List.append_assoc _ _ _).symm

/-- A call head on the stack has a count of its own. -/
theorem Sound.counts_ne_nil {s : State} (h : Sound s) {f : String} {ws st : List Waiting}
    (hs : s.stack = ws ++ .paren :: .callHead f :: st) : s.counts ≠ [] := by
  intro hnil
  have hcounted := h.counted
  rw [hs, hnil, heads_append, heads_paren, heads_callHead, List.length_nil] at hcounted
  omega

variable {base : State} {st : List Waiting}

theorem stack_above {s : State} {ws vs : List Waiting} (hs : s.stack = ws ++ vs) :
    (s.above base).stack = ws ++ (vs ++ base.stack) := by
  rw [State.above, hs, List.append_assoc]

/-- Only the count of the innermost call is ever looked at. -/
theorem counts_above {ns : List Nat} (hns : ns ≠ []) (ms : List Nat) :
    (ns ++ ms).headD 1 = ns.headD 1 ∧ (ns ++ ms).tail = ns.tail ++ ms ∧
      countArgument (ns ++ ms) = countArgument ns ++ ms := by
  cases ns with
  | nil => exact absurd rfl hns
  | cons n ns => exact ⟨rfl, rfl, rfl⟩

theorem Stepped.above {s s' : State} {l : Lexeme} (hbase : base.stack = .paren :: st)
    (hsound : Sound s) (h : Stepped s l s') : Stepped (s.above base) l (s'.above base) := by
  cases h with
  | number => exact .number
  | name => exact .name
  | callHead => exact .callHead
  | leftParen => exact .leftParen
  | @operator op ws vs hs hws hvs =>
      have hstop : ∀ w ∈ (vs ++ base.stack).head?, appliedBefore op w = false := by
        cases vs with
        | nil =>
            intro w hw
            rw [hbase] at hw
            cases hw
            rfl
        | cons v vs => exact hvs
      have hstep := Stepped.operator (stack_above hs) hws hstop
      rw [State.above, emit_append_output] at hstep
      exact hstep
  | @comma f ws vs hs hws =>
      obtain ⟨-, -, hcounts⟩ := counts_above (hsound.counts_ne_nil hs) base.counts
      have hstep : Stepped (s.above base) .comma _ := .comma (stack_above hs) hws
      rw [State.above, emit_append_output, hcounts] at hstep
      exact hstep
  | @closeCall f ws vs hs hws =>
      obtain ⟨hhead, htail, -⟩ := counts_above (hsound.counts_ne_nil hs) base.counts
      have hstep : Stepped (s.above base) .rightParen _ := .closeCall (stack_above hs) hws
      rw [State.above, emit_append_output, hhead, htail] at hstep
      exact hstep
  | @closeGroup ws vs hs hws hvs hopened =>
      have hgroup : ∀ f st', vs ++ base.stack ≠ .callHead f :: st' := by
        cases vs with
        | nil =>
            intro f st' heq
            rw [hbase] at heq
            cases heq
        | cons v vs =>
            intro f st' heq
            cases heq
            exact hvs f vs rfl
      have hstep : Stepped (s.above base) .rightParen _ :=
        .closeGroup (stack_above hs) hws hgroup hopened
      rw [State.above, emit_append_output] at hstep
      exact hstep

/-- A run that succeeds on its own succeeds above a parenthesis, and leaves it where it is. -/
theorem run_above {ls : List Lexeme} (hbase : base.stack = .paren :: st) :
    ∀ {s s' : State}, Sound s → run s ls = .ok s' →
      run (s.above base) ls = .ok (s'.above base) := by
  induction ls with
  | nil =>
      intro s s' _ h
      cases h
      rfl
  | cons l ls ih =>
      intro s s' hsound h
      rw [run_cons] at h
      obtain ⟨mid, hstep, hrun⟩ := bind_eq_ok h
      have hstepped := step_eq_ok_iff.mp hstep
      rw [run_cons_of_ok (step_eq_ok_iff.mpr (hstepped.above hbase hsound)),
        ih (hsound.stepped hstepped) hrun]

/-- Only a closing parenthesis asks whether one has just been opened. -/
theorem run_justOpened {s : State} {l : Lexeme} (hl : l ≠ .rightParen) (opened : Bool)
    (ls : List Lexeme) : run { s with justOpened := opened } (l :: ls) = run s (l :: ls) := by
  cases l with
  | rightParen => exact absurd rfl hl
  | _ => rfl

theorem drain_eq_ok {ws : List Waiting} {p : Program} (h : drain ws = .ok p) :
    ∃ ops : List Operator, ws = waiting ops ∧ p = ops.map .operator := by
  induction ws generalizing p with
  | nil =>
      cases h
      exact ⟨[], rfl, rfl⟩
  | cons w ws ih =>
      cases w with
      | operator op =>
          obtain ⟨q, hq, h⟩ := bind_eq_ok h
          cases h
          obtain ⟨ops, rfl, rfl⟩ := ih hq
          exact ⟨op :: ops, rfl, rfl⟩
      | callHead f => cases h
      | paren => cases h

/-- Where only operators wait and no call head was lost, no count is left over. -/
theorem Sound.counts_eq_nil {s : State} (h : Sound s) {ops : List Operator}
    (hstack : s.stack = waiting ops) (houtput : ∀ name, .stray name ∉ s.output) :
    s.counts = [] := by
  have hstrays : strays s.output = 0 := by
    refine List.countP_eq_zero.mpr fun i hi hstray => ?_
    cases i with
    | stray name => exact houtput name hi
    | _ => cases hstray
  have hcounted := h.counted
  rw [hstack, heads_waiting, hstrays] at hcounted
  exact List.length_eq_zero_iff.mp hcounted

theorem Sound.justOpened_eq_false {s : State} (h : Sound s) {ops : List Operator}
    (hstack : s.stack = waiting ops) : s.justOpened = false := by
  cases hopened : s.justOpened with
  | false => rfl
  | true =>
      obtain ⟨st, hst⟩ := h.opened hopened
      rw [hstack] at hst
      cases ops <;> cases hst

/-- A row that lists a tree on its own lists it right after an open parenthesis, too. -/
theorem readsInside_of_ofLexemes {ls : List Lexeme} {e : Expr}
    (h : Program.ofLexemes ls = .ok e.program) : ReadsInside ls e := by
  intro before st hst
  obtain ⟨s, hrun, hrest⟩ := bind_eq_ok h
  obtain ⟨q, hdrain, hrest⟩ := bind_eq_ok hrest
  have hprogram : s.output.reverse ++ q = e.program := Except.ok.inj hrest
  obtain ⟨ops, hstack, rfl⟩ := drain_eq_ok hdrain
  have hsound := Sound.start.run hrun
  -- The parenthesis below has just been opened, but the first lexeme does not close it.
  have hrun' : run before ls = .ok (s.above before) := by
    have habove := run_above hst Sound.start hrun
    cases ls with
    | nil => exact absurd (Except.ok.inj h).symm e.program_ne_nil
    | cons l ls =>
        have hl : l ≠ .rightParen := by
          rintro rfl
          cases hrun
        rw [← run_justOpened hl false]
        exact habove
  have hcounts : s.counts = [] := by
    refine hsound.counts_eq_nil hstack fun name hname => e.stray_not_mem_program name ?_
    rw [← hprogram]
    exact List.mem_append_left _ (List.mem_reverse.mpr hname)
  refine ⟨s.above before, ops, hrun', ?_, ?_, ?_, hsound.justOpened_eq_false hstack,
    fun _ _ => Nat.zero_le _⟩
  · rw [State.above, hstack]
  · have hreverse := reverse_emit_waiting ops s.output
    rw [hprogram] at hreverse
    rw [State.above, emit_append_output, ← hreverse, List.reverse_reverse]
  · rw [State.above, hcounts]
    rfl

end Yard

end Reckon
