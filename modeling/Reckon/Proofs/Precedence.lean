import Reckon.Calculator
import Reckon.Proofs.Grammar
import Reckon.Proofs.YardStep

/-!
# The yard lists every phrase in postfix order

The yard knows two things of what waits on its stack: which operators give way to the next one, and
where the innermost parenthesis is. The grammar speaks of nine strata. What ties the two together is
an invariant on both ends of a phrase.

Before a phrase of stratum `s` is read, the stack must admit it (`Admits`): what is on top is a
parenthesis, or an operator that no operator of `s` or of a tighter stratum drives away. That holds
at the start of a text, right after a parenthesis or a comma, and right after an operator, where its
operand begins.

After the phrase, everything below is as it was, and on top of it wait operators that bind at least
as tight as `s` (`Held`). Released, they complete the postfix listing. So an operator of the stratum
that comes next releases exactly them, and so does a closing parenthesis, a comma or the end.
-/

namespace Reckon

/-! ## Ranks of strata

The yard compares precedences, the grammar has a table of which stratum is next. Ranks put both on
one scale: an operator has the rank of its stratum, and a tighter stratum has a greater rank. Once
these two facts are read off the tables, which operator gives way to which is a matter of comparing
numbers, and no later proof goes through pairs of operators. -/

namespace Stratum

/-- How tight a stratum binds, on the scale of the operator table. -/
def rank : Stratum → Nat
  | or => 6
  | xor => 7
  | and => 8
  | shift => 9
  | sum => 10
  | product => 20
  | power => 30
  | unary => 40
  | primary => 50

theorem rank_lt_of_tighter {s t : Stratum} (h : s.tighter? = some t) : s.rank < t.rank := by
  cases s <;> cases h <;> decide

theorem precedence_of_mem_operators {s : Stratum} {op : BinaryOp} (h : op ∈ s.operators) :
    op.precedence = s.rank := by
  cases s <;> cases op <;> first | rfl | exact absurd h (by decide)

theorem associativity_of_mem_operators {s : Stratum} {op : BinaryOp} (hs : s ≠ .power)
    (h : op ∈ s.operators) : op.associativity = .left := by
  cases s <;> cases op <;> first | rfl | exact absurd h (by decide) | exact absurd rfl hs

theorem exists_tighter_of_lt {s t : Stratum} (h : s.rank < t.rank) :
    ∃ u, s.tighter? = some u ∧ u.rank ≤ t.rank := by
  cases s <;> cases t <;> first | exact absurd h (by decide) | exact ⟨_, rfl, by decide⟩

theorem eq_of_rank_eq {s t : Stratum} (h : s.rank = t.rank) : s = t := by
  cases s <;> cases t <;> first | rfl | exact absurd h (by decide)

end Stratum

/-- A phrase of a stratum is one of every looser stratum. -/
theorem Phrase.widen {s t : Stratum} {ls : List Lexeme} {e : Expr} (hst : s.rank ≤ t.rank)
    (h : Phrase t ls e) : Phrase s ls e := by
  rcases Nat.eq_or_lt_of_le hst with heq | hlt
  · rw [Stratum.eq_of_rank_eq heq]
    exact h
  · obtain ⟨u, hu, hut⟩ := Stratum.exists_tighter_of_lt hlt
    have hsu := Stratum.rank_lt_of_tighter hu
    exact .lift hu (h.widen hut)
termination_by t.rank - s.rank

namespace Operator

theorem yieldsTo_of_left {waiting incoming : Operator} (h : incoming.associativity = .left) :
    waiting.yieldsTo incoming = decide (incoming.precedence ≤ waiting.precedence) := by
  simp only [yieldsTo, h]

theorem yieldsTo_of_right {waiting incoming : Operator} (h : incoming.associativity = .right) :
    waiting.yieldsTo incoming = decide (incoming.precedence < waiting.precedence) := by
  simp only [yieldsTo, h]

/-- From exponentiation on, operators group from the right. -/
theorem associativity_eq_right {op : Operator} (h : Stratum.power.rank ≤ op.precedence) :
    op.associativity = .right := by
  rcases op with op | op
  · cases op <;> first | rfl | exact absurd h (by decide)
  · rfl

/-- An operator does not yield to a tighter one. -/
theorem not_yieldsTo_of_lt {waiting incoming : Operator}
    (h : waiting.precedence < incoming.precedence) : waiting.yieldsTo incoming = false := by
  cases ha : incoming.associativity with
  | left => rw [yieldsTo_of_left ha]; exact decide_eq_false (by omega)
  | right => rw [yieldsTo_of_right ha]; exact decide_eq_false (by omega)

/-- Where operators group from the right, one does not yield to its equals either. -/
theorem not_yieldsTo_of_le {waiting incoming : Operator}
    (hr : Stratum.power.rank ≤ waiting.precedence)
    (h : waiting.precedence ≤ incoming.precedence) : waiting.yieldsTo incoming = false := by
  rw [yieldsTo_of_right (associativity_eq_right (Nat.le_trans hr h))]
  exact decide_eq_false (by omega)

end Operator

namespace Yard

/-- Takes in a row of lexemes. -/
def run (s : State) (ls : List Lexeme) : Except GroupingError State :=
  ls.foldlM step s

theorem run_nil (s : State) : run s [] = .ok s := rfl

theorem run_cons (s : State) (l : Lexeme) (ls : List Lexeme) :
    run s (l :: ls) = step s l >>= fun s => run s ls := rfl

theorem run_append (s : State) (ls rs : List Lexeme) :
    run s (ls ++ rs) = run s ls >>= fun s => run s rs := by
  simp [run]

theorem run_cons_of_ok {s s' : State} {l : Lexeme} (h : step s l = .ok s') (ls : List Lexeme) :
    run s (l :: ls) = run s' ls := by
  rw [run_cons, h]
  rfl

theorem run_append_of_ok {s s' : State} {ls : List Lexeme} (h : run s ls = .ok s')
    (rs : List Lexeme) : run s (ls ++ rs) = run s' rs := by
  rw [run_append, h]
  rfl

/-- What every step preserves, every run preserves. -/
theorem preserved_of_run {P : State → Prop} {ls : List Lexeme}
    (hP : ∀ {s s' : State} {l : Lexeme}, P s → Stepped s l s' → P s') :
    ∀ {s s' : State}, P s → run s ls = .ok s' → P s' := by
  induction ls with
  | nil =>
      intro s s' hs h
      cases h
      exact hs
  | cons l ls ih =>
      intro s s' hs h
      rw [run_cons] at h
      obtain ⟨mid, hstep, hrun⟩ := bind_eq_ok h
      exact ih (hP hs (step_eq_ok_iff.mp hstep)) hrun

theorem emit_append (ws vs : List Waiting) (output : List Instruction) :
    emit (ws ++ vs) output = emit vs (emit ws output) := by
  simp [emit]

/-- Operators that wait, the last one first. -/
def waiting (ws : List Operator) : List Waiting :=
  ws.map Waiting.operator

theorem waiting_append (ws vs : List Operator) : waiting (ws ++ vs) = waiting ws ++ waiting vs :=
  List.map_append

theorem emit_waiting_singleton (op : Operator) (output : List Instruction) :
    emit (waiting [op]) output = .operator op :: output := rfl

theorem reverse_emit_waiting (ws : List Operator) (output : List Instruction) :
    (emit (waiting ws) output).reverse = output.reverse ++ ws.map .operator := by
  induction ws generalizing output with
  | nil => exact (List.append_nil _).symm
  | cons w ws ih =>
      rw [show waiting (w :: ws) = waiting [w] ++ waiting ws from rfl, emit_append, ih,
        emit_waiting_singleton]
      simp

/-- The end releases all waiting operators. -/
theorem drain_waiting (ws : List Operator) : drain (waiting ws) = .ok (ws.map .operator) := by
  induction ws with
  | nil => rfl
  | cons w ws ih =>
      show (drain (waiting ws) >>= fun p => .ok (Instruction.operator w :: p)) = _
      rw [ih]
      rfl

/-- An operator releases the row of those that yield to it and takes their place. -/
theorem step_operator {s : State} {op : Operator} {ws : List Operator} {st : List Waiting}
    (hs : s.stack = waiting ws ++ st) (hws : ∀ w ∈ ws, w.yieldsTo op = true)
    (hst : ∀ w ∈ st.head?, appliedBefore op w = false) :
    step s (.operator op) =
      .ok ⟨emit (waiting ws) s.output, .operator op :: st, s.counts, false⟩ :=
  step_eq_ok_iff.mpr (.operator hs (List.forall_mem_map.mpr hws) hst)

/-- Operators are no parentheses. -/
theorem isParen_waiting (ws : List Operator) : ∀ w ∈ waiting ws, w.isParen = false :=
  List.forall_mem_map.mpr fun _ _ => rfl

/-- A stack on which a phrase of the stratum can be read: nothing in the phrase drives away what is
on top. A call head on top waits for its own parenthesis and admits no phrase. -/
def Admits (s : Stratum) : List Waiting → Prop
  | .operator w :: _ => ∀ op : Operator, s.rank ≤ op.precedence → w.yieldsTo op = false
  | .callHead _ :: _ => False
  | _ => True

theorem Admits.mono {s t : Stratum} {st : List Waiting} (h : Admits s st) (hst : s.rank ≤ t.rank) :
    Admits t st := by
  match st with
  | .operator w :: _ => exact fun op hop => h op (Nat.le_trans hst hop)
  | .callHead _ :: _ => exact h
  | .paren :: _ | [] => trivial

theorem Admits.top {s : Stratum} {st : List Waiting} {op : Operator} (h : Admits s st)
    (hop : s.rank ≤ op.precedence) : ∀ w ∈ st.head?, appliedBefore op w = false := by
  intro w hw
  match st with
  | .operator v :: _ => cases hw; exact h op hop
  | .paren :: _ => cases hw; rfl
  | .callHead _ :: _ => exact False.elim h

/-- The state after a program has been read on top of another state: the operators `ws` still wait,
and released they complete it. -/
structure Held (rank : Nat) (p : Program) (before after : State) (ws : List Operator) : Prop where
  stack : after.stack = waiting ws ++ before.stack
  output : emit (waiting ws) after.output = p.reverse ++ before.output
  counts : after.counts = before.counts
  settled : after.justOpened = false
  binds : ∀ w ∈ ws, rank ≤ w.precedence

theorem Held.mono {r r' : Nat} {p : Program} {before after : State} {ws : List Operator}
    (h : Held r p before after ws) (hr : r' ≤ r) : Held r' p before after ws :=
  { h with binds := fun w hw => Nat.le_trans hr (h.binds w hw) }

/-- What is read above a waiting operator is read above what the operator stands on, and the
operator comes last. -/
theorem Held.under {r : Nat} {p q : Program} {s after : State} {ws : List Operator} {op : Operator}
    (h : Held r p ⟨q.reverse ++ s.output, .operator op :: s.stack, s.counts, false⟩ after ws)
    (hr : r ≤ op.precedence) :
    Held r (q ++ (p ++ [.operator op])) s after (ws ++ [op]) where
  stack := by rw [h.stack, waiting_append, List.append_assoc]; rfl
  output := by
    rw [waiting_append, emit_append, h.output, emit_waiting_singleton]
    simp
  counts := h.counts
  settled := h.settled
  binds := by
    intro w hw
    rcases List.mem_append.mp hw with hw | hw
    · exact h.binds w hw
    · rw [List.mem_singleton.mp hw]; exact hr

/-! ## Reading phrases

`Reads` speaks of any state before the phrase. So the induction hypothesis for an operand can be
used on the stack that this operand meets, which has an operator or a parenthesis more than the
stack below the whole phrase, and only that this stack admits the operand has to be shown. There is
one lemma for each rule of the grammar. -/

/-- An operand is held with nothing waiting. -/
theorem Held.operand {r : Nat} {i : Instruction} {s : State} :
    Held r [i] s ⟨i :: s.output, s.stack, s.counts, false⟩ [] where
  stack := rfl
  output := rfl
  counts := rfl
  settled := rfl
  binds := by intro w hw; cases hw

/-- A closing parenthesis after a held phrase closes a group, unless a call head stands below. -/
theorem step_rightParen_group {s after : State} {r : Nat} {p : Program} {ws : List Operator}
    {st : List Waiting} (hs : s.stack = .paren :: st) (hst : Admits .primary st)
    (h : Held r p s after ws) :
    step after .rightParen = .ok ⟨p.reverse ++ s.output, st, s.counts, false⟩ := by
  have hstack : after.stack = waiting ws ++ .paren :: st := by rw [h.stack, hs]
  have hne : ∀ f st', st ≠ .callHead f :: st' := by
    rintro f st' rfl
    exact hst
  rw [step_eq_ok_iff.mpr (.closeGroup hstack (isParen_waiting ws) hne h.settled), h.output,
    h.counts]

/-- A comma after a held phrase counts an argument of the call around it. -/
theorem step_comma_call {s after : State} {r : Nat} {p : Program} {ws : List Operator}
    {st : List Waiting} {f : String} (hs : s.stack = .paren :: .callHead f :: st)
    (h : Held r p s after ws) :
    step after .comma =
      .ok ⟨p.reverse ++ s.output, s.stack, countArgument s.counts, false⟩ := by
  have hstack : after.stack = waiting ws ++ .paren :: .callHead f :: st := by rw [h.stack, hs]
  rw [step_eq_ok_iff.mpr (.comma hstack (isParen_waiting ws)), h.output, h.counts, hs]

/-- A closing parenthesis after a held phrase closes the call around it. -/
theorem step_rightParen_call {s after : State} {r n : Nat} {p : Program} {ws : List Operator}
    {st : List Waiting} {f : String} {ns : List Nat} (hs : s.stack = .paren :: .callHead f :: st)
    (hn : s.counts = n :: ns) (h : Held r p s after ws) :
    step after .rightParen = .ok ⟨.call f n :: (p.reverse ++ s.output), st, ns, false⟩ := by
  have hstack : after.stack = waiting ws ++ .paren :: .callHead f :: st := by rw [h.stack, hs]
  rw [step_eq_ok_iff.mpr (.closeCall hstack (isParen_waiting ws)), h.output, h.counts, h.settled,
    hn]
  rfl

/-- What reading a phrase does, on any stack that admits it. -/
def Reads (s : Stratum) (ls : List Lexeme) (e : Expr) : Prop :=
  ∀ before : State, Admits s before.stack →
    ∃ after ws, run before ls = .ok after ∧ Held s.rank e.program before after ws

/-- What reading a row of lexemes does right after an open parenthesis, or after a comma. -/
def ReadsInside (ls : List Lexeme) (e : Expr) : Prop :=
  ∀ (before : State) (st : List Waiting), before.stack = .paren :: st →
    ∃ after ws, run before ls = .ok after ∧ Held 0 e.program before after ws

section

variable {s t : Stratum} {ls rs : List Lexeme} {e l r : Expr}

theorem Reads.widen (h : Reads t ls e) (hst : s.rank ≤ t.rank) : Reads s ls e := by
  intro before hadm
  obtain ⟨after, ws, hrun, hheld⟩ := h before (hadm.mono hst)
  exact ⟨after, ws, hrun, hheld.mono hst⟩

/-- A parenthesis admits every phrase. -/
theorem Reads.inside (h : Reads s ls e) : ReadsInside ls e := by
  intro before st hst
  obtain ⟨after, ws, hrun, hheld⟩ := h before (by rw [hst]; trivial)
  exact ⟨after, ws, hrun, hheld.mono (Nat.zero_le _)⟩

theorem Reads.leftBinary {op : BinaryOp} (hs : s ≠ .power) (hop : op ∈ s.operators)
    (ht : s.tighter? = some t) (hl : Reads s ls l) (hr : Reads t rs r) :
    Reads s (ls ++ .operator (.binary op) :: rs) (.binary op l r) := by
  intro before hadm
  have hprec : (Operator.binary op).precedence = s.rank :=
    Stratum.precedence_of_mem_operators hop
  have hassoc : (Operator.binary op).associativity = .left :=
    Stratum.associativity_of_mem_operators hs hop
  have hrank := Stratum.rank_lt_of_tighter ht
  obtain ⟨mid, vs, hrun, hheld⟩ := hl before hadm
  -- The operator releases the whole left operand, and nothing below it.
  have hyield : ∀ v ∈ vs, v.yieldsTo (.binary op) = true := by
    intro v hv
    rw [Operator.yieldsTo_of_left hassoc, hprec]
    exact decide_eq_true (hheld.binds v hv)
  have hstep := step_operator hheld.stack hyield (hadm.top (by omega))
  rw [hheld.output, hheld.counts] at hstep
  obtain ⟨after, ws, hrun', hheld'⟩ := hr
    ⟨l.program.reverse ++ before.output, .operator (.binary op) :: before.stack,
      before.counts, false⟩
    (fun op' hop' => Operator.not_yieldsTo_of_lt (by omega))
  refine ⟨after, ws ++ [.binary op], ?_, ?_⟩
  · rw [run_append_of_ok hrun, run_cons_of_ok hstep, hrun']
  · exact (hheld'.mono (Nat.le_of_lt hrank)).under (by omega)

theorem Reads.rightBinary {op : BinaryOp} (hop : op ∈ Stratum.power.operators)
    (hl : Reads .unary ls l) (hr : Reads .power rs r) :
    Reads .power (ls ++ .operator (.binary op) :: rs) (.binary op l r) := by
  intro before hadm
  have hprec : (Operator.binary op).precedence = Stratum.power.rank :=
    Stratum.precedence_of_mem_operators hop
  have hassoc : (Operator.binary op).associativity = .right :=
    Operator.associativity_eq_right (by omega)
  obtain ⟨mid, vs, hrun, hheld⟩ := hl before (hadm.mono (by decide))
  -- Only prefix operators wait after the base, and they bind tighter.
  have hyield : ∀ v ∈ vs, v.yieldsTo (.binary op) = true := by
    intro v hv
    rw [Operator.yieldsTo_of_right hassoc, hprec]
    exact decide_eq_true (Nat.lt_of_lt_of_le (by decide) (hheld.binds v hv))
  have hstep := step_operator hheld.stack hyield (hadm.top (by omega))
  rw [hheld.output, hheld.counts] at hstep
  obtain ⟨after, ws, hrun', hheld'⟩ := hr
    ⟨l.program.reverse ++ before.output, .operator (.binary op) :: before.stack,
      before.counts, false⟩
    (fun op' hop' => Operator.not_yieldsTo_of_le (by omega) (by omega))
  refine ⟨after, ws ++ [.binary op], ?_, ?_⟩
  · rw [run_append_of_ok hrun, run_cons_of_ok hstep, hrun']
  · exact hheld'.under (by omega)

theorem Reads.unary (op : UnaryOp) (h : Reads .unary ls e) :
    Reads .unary (.operator (.unary op) :: ls) (.unary op e) := by
  intro before hadm
  have hstep : step before (.operator (.unary op)) =
      .ok ⟨before.output, .operator (.unary op) :: before.stack, before.counts, false⟩ :=
    step_operator (show before.stack = waiting [] ++ before.stack from rfl)
      (by intro w hw; cases hw) (hadm.top (Nat.le_refl _))
  obtain ⟨after, ws, hrun, hheld⟩ := h
    ⟨before.output, .operator (.unary op) :: before.stack, before.counts, false⟩
    (fun op' hop' => Operator.not_yieldsTo_of_le (by show 30 ≤ 40; decide) hop')
  refine ⟨after, ws ++ [.unary op], ?_, ?_⟩
  · rw [run_cons_of_ok hstep, hrun]
  · exact Held.under (q := []) hheld (Nat.le_refl _)

theorem Reads.group (h : ReadsInside ls e) :
    Reads .primary (.leftParen :: (ls ++ [.rightParen])) e := by
  intro before hadm
  obtain ⟨after, ws, hrun, hheld⟩ :=
    h ⟨before.output, .paren :: before.stack, before.counts, true⟩ _ rfl
  refine ⟨⟨e.program.reverse ++ before.output, before.stack, before.counts, false⟩, [], ?_,
    ⟨rfl, rfl, rfl, rfl, by intro w hw; cases hw⟩⟩
  rw [run_cons_of_ok rfl, run_append_of_ok hrun,
    run_cons_of_ok (step_rightParen_group rfl hadm hheld), run_nil]

/-- Arguments are read one after the other and counted at their commas. -/
theorem run_arguments {f : String} {st : List Waiting} {ns : List Nat}
    (args : List (List Lexeme × Expr)) (hne : args ≠ [])
    (hargs : ∀ a ∈ args, ReadsInside a.1 a.2) (output : List Instruction) (n : Nat)
    (opened : Bool) :
    run ⟨output, .paren :: .callHead f :: st, (n + 1) :: ns, opened⟩
        (commaSeparated (args.map Prod.fst) ++ [.rightParen]) =
      .ok ⟨.call f (n + args.length) :: ((Expr.programs (args.map Prod.snd)).reverse ++ output),
        st, ns, false⟩ := by
  induction args generalizing output n opened with
  | nil => exact absurd rfl hne
  | cons a args ih =>
      obtain ⟨after, ws, hrun, hheld⟩ :=
        hargs a (by simp) ⟨output, .paren :: .callHead f :: st, (n + 1) :: ns, opened⟩ _ rfl
      cases args with
      | nil =>
          simp only [List.map_cons, List.map_nil, commaSeparated]
          rw [run_append_of_ok hrun, run_cons_of_ok (step_rightParen_call rfl rfl hheld), run_nil]
          simp [Expr.programs]
      | cons b args =>
          have hrest := ih (by simp) (fun c hc => hargs c (by simp [hc]))
            (a.2.program.reverse ++ output) (n + 1) false
          simp only [List.map_cons, commaSeparated] at hrest ⊢
          rw [List.append_assoc, run_append_of_ok hrun, List.cons_append,
            run_cons_of_ok (step_comma_call rfl hheld)]
          refine hrest.trans ?_
          simp [Expr.programs, Nat.add_assoc, Nat.add_comm 1]

theorem Reads.call {f : String} {args : List (List Lexeme × Expr)}
    (hargs : ∀ a ∈ args, ReadsInside a.1 a.2) :
    Reads .primary
      (.callHead f :: .leftParen :: (commaSeparated (args.map Prod.fst) ++ [.rightParen]))
      (.call f (args.map Prod.snd)) := by
  intro before _
  refine ⟨⟨.call f args.length :: ((Expr.programs (args.map Prod.snd)).reverse ++
    before.output), before.stack, before.counts, false⟩, [], ?_,
    ⟨rfl, by simp [emit, waiting, Expr.program], rfl, rfl, by intro w hw; cases hw⟩⟩
  rw [run_cons_of_ok rfl, run_cons_of_ok rfl]
  by_cases hne : args = []
  · subst hne
    rfl
  · rw [run_arguments args hne hargs, Nat.zero_add]

end

theorem reads_phrase {s : Stratum} {ls : List Lexeme} {e : Expr} (h : Phrase s ls e) :
    Reads s ls e := by
  induction h with
  | lift ht _ ih => exact ih.widen (Nat.le_of_lt (Stratum.rank_lt_of_tighter ht))
  | leftBinary hs hop ht _ _ ihl ihr => exact .leftBinary hs hop ht ihl ihr
  | rightBinary hop _ _ ihl ihr => exact .rightBinary hop ihl ihr
  | unary _ ih => exact .unary _ ih
  | number | name =>
      intro before _
      exact ⟨_, [], rfl, Held.operand⟩
  | group _ ih => exact .group ih.inside
  | call _ ih => exact .call fun a ha => (ih a ha).inside

/-- What is read on the empty stack is accepted as a whole. -/
theorem Reads.ofLexemes {ls : List Lexeme} {e : Expr} (h : Reads .or ls e) :
    Program.ofLexemes ls = .ok e.program := by
  obtain ⟨after, ws, hrun, hheld⟩ := h {} trivial
  have hdrain : drain after.stack = .ok (ws.map .operator) := by
    rw [hheld.stack, List.append_nil]
    exact drain_waiting ws
  have hout : after.output.reverse ++ ws.map .operator = e.program := by
    rw [← reverse_emit_waiting, hheld.output]
    simp
  show (run {} ls >>= fun s => drain s.stack >>= fun p => .ok (s.output.reverse ++ p)) = _
  rw [hrun]
  show (drain after.stack >>= fun p => .ok (after.output.reverse ++ p)) = _
  rw [hdrain]
  exact congrArg Except.ok hout

end Yard

/-- A phrase of the grammar is always accepted, and its program lists its tree in postfix order. -/
theorem ofLexemes_eq_program {ls : List Lexeme} {e : Expr} (h : Phrase .or ls e) :
    Program.ofLexemes ls = .ok e.program :=
  (Yard.reads_phrase h).ofLexemes

/-- Grouping never refuses the tokens of a phrase, wherever in the text they stand, and gives the
postfix listing of the phrase's tree. -/
theorem group_phrase {tokens : List Token} {e : Expr}
    (h : Phrase .or (tokens.map Token.lexeme) e) : group tokens = .ok e.program := by
  rw [group, ofLexemes_eq_program h]
  rfl

/-- The tokens of `a-f(b,~c**d)-e`. -/
theorem group_phrase_differences :
    group [⟨.name "a", 1⟩, ⟨.operator (.binary .sub), 2⟩, ⟨.callHead "f", 3⟩, ⟨.leftParen, 4⟩,
      ⟨.name "b", 5⟩, ⟨.comma, 6⟩, ⟨.operator (.unary .complement), 7⟩, ⟨.name "c", 8⟩,
      ⟨.operator (.binary .doubleStar), 9⟩, ⟨.name "d", 11⟩, ⟨.rightParen, 12⟩,
      ⟨.operator (.binary .sub), 13⟩, ⟨.name "e", 14⟩] =
    .ok [.constant "a", .constant "b", .constant "c", .operator (.unary .complement),
      .constant "d", .operator (.binary .doubleStar), .call "f" 2, .operator (.binary .sub),
      .constant "e", .operator (.binary .sub)] := by
  have hname : ∀ (s : Stratum) (x : String), Phrase s [.name x] (.name x) :=
    fun s x => Phrase.name.widen (by cases s <;> decide)
  have hpower : Phrase .power ([.operator (.unary .complement), .name "c"] ++
      .operator (.binary .doubleStar) :: [.name "d"])
      (.binary .doubleStar (.unary .complement (.name "c")) (.name "d")) :=
    .rightBinary (by decide) (.unary (hname .unary "c")) (hname .power "d")
  have hcall := @Phrase.call "f" [([.name "b"], .name "b"), (_, _)]
    (List.forall_mem_cons.mpr ⟨hname .or "b",
      List.forall_mem_singleton.mpr (hpower.widen (by decide))⟩)
  have hleft := @Phrase.leftBinary .sum .product .sub _ _ _ _ (by decide) (by decide) rfl
    (hname .sum "a") (hcall.widen (by decide))
  have hwhole := @Phrase.leftBinary .sum .product .sub _ _ _ _ (by decide) (by decide) rfl
    hleft (hname .product "e")
  have hphrase : Phrase .or _ _ := hwhole.widen (by decide)
  refine (group_phrase (e := ?tree) ?phrase).trans ?listing
  case phrase => exact hphrase
  case listing => rfl

end Reckon
