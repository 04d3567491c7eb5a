import Reckon.Proofs.Outcome
import Reckon.Proofs.Places

/-!
# Well placed rows that the yard accepts are phrases

The grammar is read off a row of lexemes from left to right, along with the yard. At each point the
text so far falls into two parts. The first ends with the innermost open parenthesis (`Open`), and
the yard's stack knows its structure: one entry for each parenthesis, with the call head in front
of it if it belongs to a call. The second is what stands inside that parenthesis since the last
comma. Where an operand has ended it is a phrase of the loosest stratum. Where an operand is due
it is one that lacks its last operand (`Lacks`).

The yard's operators play no part in this. Which operator takes which operands is settled by
`Phrase.extend`: a phrase followed by an operator and an operand is a phrase again, and the rule to
be used is found from the ranks.
-/

namespace Reckon

/-! ## Extending a phrase to the right

The induction is on the phrase to the left, and keeps its stratum. Either the operator belongs to
that stratum, and the whole phrase becomes its left operand, or it binds tighter and goes on inside
the last operand. Ranks decide between the two, since no operator has one that lies between those of
neighbouring strata. Operators that group to the right always go on inside. -/

namespace Stratum

theorem precedence_lt_unary (op : BinaryOp) : op.precedence < Stratum.unary.rank := by
  cases op <;> decide

/-- An operator whose rank lies between two neighbours is an operator of the looser one. -/
theorem mem_operators_of_lt {s t : Stratum} {op : BinaryOp} (ht : s.tighter? = some t)
    (hs : s.rank ≤ op.precedence) (hlt : op.precedence < t.rank) : op ∈ s.operators := by
  cases s <;> cases ht <;> cases op <;>
    first | decide | exact absurd hs (by decide) | exact absurd hlt (by decide)

theorem rank_le_unary {s t : Stratum} {op : BinaryOp} (ht : s.tighter? = some t)
    (hs : s.rank ≤ op.precedence) : t.rank ≤ Stratum.unary.rank := by
  have hop := precedence_lt_unary op
  cases s <;> cases ht <;> first | decide | exact absurd (Nat.lt_of_le_of_lt hs hop) (by decide)

end Stratum

/-- A phrase whose stratum has the operator, and an operand after it. -/
theorem Phrase.binary {s t : Stratum} {op : BinaryOp} {ls rs : List Lexeme} {l r : Expr}
    (ht : s.tighter? = some t) (hop : op ∈ s.operators) (hl : Phrase s ls l)
    (hl' : s = .power → Phrase .unary ls l) (hr : Phrase .unary rs r) :
    Phrase s (ls ++ .operator (.binary op) :: rs) (.binary op l r) := by
  have hprec := Stratum.precedence_of_mem_operators hop
  by_cases hs : s = .power
  · subst hs
    exact .rightBinary hop (hl' rfl) (hr.widen (by decide))
  · exact .leftBinary hs hop ht hl (hr.widen (Stratum.rank_le_unary ht (Nat.le_of_eq hprec.symm)))

/-- A phrase goes on with any operator that is not looser than its stratum. -/
theorem Phrase.extend {s : Stratum} {op : BinaryOp} {ls rs : List Lexeme} {l r : Expr}
    (hl : Phrase s ls l) (hr : Phrase .unary rs r) (hs : s.rank ≤ op.precedence) :
    ∃ e, Phrase s (ls ++ .operator (.binary op) :: rs) e := by
  have hunary := Stratum.precedence_lt_unary op
  induction hl with
  -- Either the operator is one of this stratum, or it goes on inside the last operand.
  | @lift s t ls e ht h ih =>
      by_cases hlt : op.precedence < t.rank
      · have hop := Stratum.mem_operators_of_lt ht hs hlt
        refine ⟨_, Phrase.binary ht hop (.lift ht h) ?_ hr⟩
        intro hpower
        subst hpower
        cases ht
        exact h
      · obtain ⟨e, he⟩ := ih (Nat.le_of_not_lt hlt)
        exact ⟨e, .lift ht he⟩
  | @leftBinary s t op' ls ts l' r' hne hop' ht hl' hr' _ ihr =>
      by_cases hlt : op.precedence < t.rank
      · have hop := Stratum.mem_operators_of_lt ht hs hlt
        exact ⟨_, Phrase.binary ht hop (.leftBinary hne hop' ht hl' hr')
          (fun hpower => absurd hpower hne) hr⟩
      · obtain ⟨e, he⟩ := ihr (Nat.le_of_not_lt hlt)
        rw [List.append_assoc, List.cons_append]
        exact ⟨_, .leftBinary hne hop' ht hl' he⟩
  | rightBinary hop' hl' _ _ ihr =>
      obtain ⟨e, he⟩ := ihr hs
      rw [List.append_assoc, List.cons_append]
      exact ⟨_, .rightBinary hop' hl' he⟩
  | unary => exact absurd (Nat.lt_of_lt_of_le hunary hs) (Nat.lt_irrefl _)
  | number | name | group | call =>
      exact absurd (Nat.lt_of_lt_of_le hunary (Nat.le_trans (by decide) hs)) (Nat.lt_irrefl _)

/-- Lexemes that become a phrase as soon as one operand follows. -/
def Lacks (ls : List Lexeme) : Prop :=
  ∀ {rs : List Lexeme} {r : Expr}, Phrase .unary rs r → ∃ e, Phrase .or (ls ++ rs) e

theorem Lacks.nil : Lacks [] :=
  fun h => ⟨_, h.widen (by decide)⟩

theorem Lacks.unary {ls : List Lexeme} (h : Lacks ls) (op : UnaryOp) :
    Lacks (ls ++ [.operator (.unary op)]) := by
  intro rs r hr
  rw [List.append_assoc]
  exact h (.unary hr)

theorem Lacks.binary {ls : List Lexeme} {l : Expr} (h : Phrase .or ls l) (op : BinaryOp) :
    Lacks (ls ++ [.operator (.binary op)]) := by
  intro rs r hr
  rw [List.append_assoc]
  exact h.extend hr (by cases op <;> decide)

theorem Lacks.primary {ls rs : List Lexeme} {r : Expr} (h : Lacks ls) (hr : Phrase .primary rs r) :
    ∃ e, Phrase .or (ls ++ rs) e :=
  h (.lift rfl hr)

/-- The arguments of a call so far, each with the comma after it. -/
def led (args : List (List Lexeme × Expr)) : List Lexeme :=
  args.flatMap fun a => a.1 ++ [.comma]

theorem led_append_singleton (args : List (List Lexeme × Expr)) (a : List Lexeme × Expr) :
    led (args ++ [a]) = led args ++ (a.1 ++ [.comma]) := by
  simp [led]

theorem commaSeparated_append_singleton (args : List (List Lexeme × Expr))
    (a : List Lexeme × Expr) : commaSeparated ((args ++ [a]).map Prod.fst) = led args ++ a.1 := by
  induction args with
  | nil => rfl
  | cons b args ih =>
      have hne : (args ++ [a]).map Prod.fst ≠ [] := by simp
      match hrest : (args ++ [a]).map Prod.fst with
      | [] => exact absurd hrest hne
      | ls :: lss =>
          rw [List.cons_append, List.map_cons, hrest, commaSeparated, ← hrest, ih]
          · simp [led]
          · simp

namespace Yard

/-- The stack of the yard and the text up to the innermost open parenthesis, or in a call up to the
last comma in it. -/
inductive Open : List Waiting → List Lexeme → Prop
  | start : Open [] []
  | group {ws : List Operator} {st : List Waiting} {c d : List Lexeme} :
      Open st c → Lacks d → Open (.paren :: (waiting ws ++ st)) (c ++ (d ++ [.leftParen]))
  | call {ws : List Operator} {st : List Waiting} {c d : List Lexeme} {f : String}
      {args : List (List Lexeme × Expr)} :
      Open st c → Lacks d → (∀ a ∈ args, Phrase .or a.1 a.2) →
      Open (.paren :: .callHead f :: (waiting ws ++ st))
        (c ++ (d ++ .callHead f :: .leftParen :: led args))

/-- The stack of the yard and all of the text so far, with the place it has led to. -/
inductive Parsed : Place → List Waiting → List Lexeme → Prop
  | operand {ws : List Operator} {st : List Waiting} {c d : List Lexeme} :
      Open st c → Lacks d → Parsed .operand (waiting ws ++ st) (c ++ d)
  | operator {ws : List Operator} {st : List Waiting} {c d : List Lexeme} {e : Expr} :
      Open st c → Phrase .or d e → Parsed .operator (waiting ws ++ st) (c ++ d)
  | head {ws : List Operator} {st : List Waiting} {c d : List Lexeme} {f : String} :
      Open st c → Lacks d →
      Parsed .head (.callHead f :: (waiting ws ++ st)) (c ++ (d ++ [.callHead f]))
  | arguments {ws : List Operator} {st : List Waiting} {c d : List Lexeme} {f : String} :
      Open st c → Lacks d →
      Parsed .arguments (.paren :: .callHead f :: (waiting ws ++ st))
        (c ++ (d ++ [.callHead f, .leftParen]))

section

variable {s s' : State} {ws : List Operator} {st : List Waiting}

/-- An operator takes the place of some of those that wait and leaves what is below them. -/
theorem stack_of_operator {op : Operator} (hs : s.stack = waiting ws ++ st)
    (hst : ∀ w ∈ st.head?, appliedBefore op w = false) (h : step s (.operator op) = .ok s') :
    ∃ vs, s'.stack = waiting vs ++ st := by
  -- The waiting operators are split where the first one does not yield.
  obtain ⟨as, bs, rfl, has, hbs⟩ : ∃ as bs : List Operator, ws = as ++ bs ∧
      (∀ w ∈ as, w.yieldsTo op = true) ∧ ∀ w ∈ bs.head?, w.yieldsTo op = false := by
    refine ⟨ws.takeWhile (·.yieldsTo op), ws.dropWhile (·.yieldsTo op),
      List.takeWhile_append_dropWhile.symm, List.all_eq_true.mp List.all_takeWhile, ?_⟩
    intro w hw
    have hnot := List.head?_dropWhile_not (·.yieldsTo op) ws
    rw [hw] at hnot
    exact hnot
  rw [waiting_append, List.append_assoc] at hs
  have hnext : ∀ w ∈ (waiting bs ++ st).head?, appliedBefore op w = false := by
    cases bs with
    | nil => exact hst
    | cons b bs =>
        intro w hw
        cases hw
        exact hbs b rfl
  rw [step_operator hs has hnext] at h
  cases h
  exact ⟨op :: bs, rfl⟩

theorem stack_of_comma {f : String} (hs : s.stack = waiting ws ++ .paren :: .callHead f :: st)
    (h : step s .comma = .ok s') : s'.stack = .paren :: .callHead f :: st := by
  change comma s = _ at h
  simp only [comma, unwind_of_paren hs (isParen_waiting _)] at h
  cases h
  rfl

theorem stack_of_rightParen_call {f : String}
    (hs : s.stack = waiting ws ++ .paren :: .callHead f :: st)
    (h : step s .rightParen = .ok s') : s'.stack = st := by
  change close s = _ at h
  simp only [close, unwind_of_paren hs (isParen_waiting _)] at h
  cases h
  rfl

theorem stack_of_rightParen_group (hs : s.stack = waiting ws ++ .paren :: st)
    (hst : ∀ f st', st ≠ .callHead f :: st') (h : step s .rightParen = .ok s') :
    s'.stack = st := by
  change close s = _ at h
  simp only [close, unwind_of_paren hs (isParen_waiting _)] at h
  split at h
  · cases h
  · cases h
    rfl

/-- A comma needs a call around it. -/
theorem comma_group (hs : s.stack = waiting ws ++ .paren :: st)
    (hst : ∀ f st', st ≠ .callHead f :: st') : step s .comma ≠ .ok s' := by
  intro h
  change comma s = _ at h
  simp only [comma, unwind_of_paren hs (isParen_waiting _)] at h
  split at h
  · cases h
  · next hstack => exact hst _ _ (List.cons.inj hstack).2
  · cases h

/-- With no parenthesis open there is nothing to be closed and nothing to be divided. -/
theorem unwind_start (hs : s.stack = waiting ws) : (unwind s).stack = [] := by
  have hspan : (waiting ws ++ []).dropWhile (fun w : Waiting => !w.isParen) = [] :=
    (span_append (List.forall_mem_map.mpr fun _ _ => rfl) (by intro w hw; cases hw)).2
  rw [List.append_nil, ← hs] at hspan
  exact hspan

theorem rightParen_start (hs : s.stack = waiting ws) : step s .rightParen ≠ .ok s' := by
  intro h
  change close s = _ at h
  simp only [close, unwind_start hs] at h
  cases h

theorem comma_start (hs : s.stack = waiting ws) : step s .comma ≠ .ok s' := by
  intro h
  change comma s = _ at h
  simp only [comma, unwind_start hs] at h
  cases h

/-- At the end no parenthesis may be open. -/
theorem drain_waiting_paren (ws : List Operator) (st : List Waiting) :
    drain (waiting ws ++ .paren :: st) = .error .mismatchedParens := by
  induction ws with
  | nil => rfl
  | cons w ws ih =>
      show (drain (waiting ws ++ .paren :: st) >>= fun p => .ok (.operator w :: p)) = _
      rw [ih]
      rfl

theorem drain_paren {p : Program} : drain (waiting ws ++ .paren :: st) ≠ .ok p := by
  rw [drain_waiting_paren]
  exact nofun

end

/-! ## Parsing along with the yard

The places know what may follow what, but not which parenthesis is open. Whether there is one to be
closed, and whether it is that of a call, so that a comma may stand in it, is known from the step of
the yard that has succeeded. That is why `Parsed.close` and `Parsed.divide` need the step, and why a
well placed row alone is not yet a phrase. -/

theorem Open.top {st : List Waiting} {c : List Lexeme} (h : Open st c) (op : Operator) :
    ∀ w ∈ st.head?, appliedBefore op w = false := by
  intro w hw
  cases h with
  | start => cases hw
  | group | call =>
      cases hw
      rfl

theorem Open.ne_callHead {st : List Waiting} {c : List Lexeme} (h : Open st c)
    (ws : List Operator) (f : String) (st' : List Waiting) :
    waiting ws ++ st ≠ .callHead f :: st' := by
  intro heq
  cases ws with
  | nil => cases h <;> cases heq
  | cons w ws => cases heq

/-- Right after what is open an operand is due. -/
theorem Open.parsed {st : List Waiting} {c : List Lexeme} (h : Open st c) :
    Parsed .operand st c := by
  have hparsed : Parsed .operand (waiting [] ++ st) (c ++ []) := .operand h Lacks.nil
  rw [List.append_nil] at hparsed
  exact hparsed

/-- The first argument of a call may begin at once. -/
theorem Parsed.of_arguments {st : List Waiting} {text : List Lexeme}
    (h : Parsed .arguments st text) : Parsed .operand st text := by
  cases h with
  | @arguments ws st c d f hopen hd =>
      have hargs : ∀ a ∈ ([] : List (List Lexeme × Expr)), Phrase .or a.1 a.2 := by
        intro a ha
        cases ha
      have hcall := @Open.call ws st c d f [] hopen hd hargs
      exact hcall.parsed

variable {s s' : State} {text : List Lexeme} {l : Lexeme} {q : Place}

theorem Parsed.begin (h : Parsed .operand s.stack text) (hl : Place.begin l = some q)
    (hs : step s l = .ok s') : Parsed q s'.stack (text ++ [l]) := by
  generalize hst : s.stack = st at h
  cases h with
  | @operand ws st c d hopen hd =>
      rw [List.append_assoc]
      cases l with
      | number n =>
          cases hl
          cases hs
          obtain ⟨e, he⟩ := hd.primary Phrase.number
          rw [hst]
          exact .operator hopen he
      | name x =>
          cases hl
          cases hs
          obtain ⟨e, he⟩ := hd.primary Phrase.name
          rw [hst]
          exact .operator hopen he
      | callHead f =>
          cases hl
          cases hs
          rw [hst]
          exact .head hopen hd
      | leftParen =>
          cases hl
          cases hs
          rw [hst]
          exact (Open.group hopen hd).parsed
      | operator op =>
          cases op with
          | unary op =>
              cases hl
              obtain ⟨vs, hvs⟩ := stack_of_operator hst (hopen.top _) hs
              rw [hvs]
              exact .operand hopen (hd.unary op)
          | binary op => cases hl
      | rightParen | comma => cases hl

theorem Parsed.close (h : Parsed .operator s.stack text) (hs : step s .rightParen = .ok s') :
    Parsed .operator s'.stack (text ++ [.rightParen]) := by
  generalize hst : s.stack = st at h
  cases h with
  | @operator ws st c d e hopen he =>
      cases hopen with
      | start => exact absurd hs (rightParen_start (hst.trans (List.append_nil _)))
      -- The group is the operand that the text before it lacked.
      | @group vs st c' d' hopen hd =>
          rw [stack_of_rightParen_group hst (hopen.ne_callHead vs) hs]
          obtain ⟨e', he'⟩ := hd.primary (.group he)
          have hparsed : Parsed .operator (waiting vs ++ st) _ := .operator hopen he'
          simpa using hparsed
      -- So is the call, whose last argument is what has been read since the last comma.
      | @call vs st c' d' f args hopen hd hargs =>
          rw [stack_of_rightParen_call hst hs]
          have hall : ∀ a ∈ args ++ [(d, e)], Phrase .or a.1 a.2 :=
            List.forall_mem_append.mpr ⟨hargs, List.forall_mem_singleton.mpr he⟩
          obtain ⟨e', he'⟩ := hd.primary (.call (f := f) hall)
          rw [commaSeparated_append_singleton] at he'
          have hparsed : Parsed .operator (waiting vs ++ st) _ := .operator hopen he'
          simpa using hparsed

theorem Parsed.divide (h : Parsed .operator s.stack text) (hs : step s .comma = .ok s') :
    Parsed .operand s'.stack (text ++ [.comma]) := by
  generalize hst : s.stack = st at h
  cases h with
  | @operator ws st c d e hopen he =>
      cases hopen with
      | start => exact absurd hs (comma_start (hst.trans (List.append_nil _)))
      | @group vs st c' d' hopen hd => exact absurd hs (comma_group hst (hopen.ne_callHead vs))
      | @call vs st c' d' f args hopen hd hargs =>
          rw [stack_of_comma hst hs]
          have hall : ∀ a ∈ args ++ [(d, e)], Phrase .or a.1 a.2 :=
            List.forall_mem_append.mpr ⟨hargs, List.forall_mem_singleton.mpr he⟩
          have hopen' : Open (.paren :: .callHead f :: (waiting vs ++ st)) _ :=
            .call hopen hd hall
          rw [led_append_singleton] at hopen'
          simpa using hopen'.parsed

/-- One lexeme in its place, taken in by the yard. -/
theorem Parsed.step {p : Place} (h : Parsed p s.stack text) (hl : p.after l = some q)
    (hs : step s l = .ok s') : Parsed q s'.stack (text ++ [l]) := by
  cases p with
  | operand => exact h.begin hl hs
  | operator =>
      cases l with
      | operator op =>
          cases op with
          | binary op =>
              cases hl
              generalize hst : s.stack = st at h
              cases h with
              | @operator ws st c d e hopen he =>
                  obtain ⟨vs, hvs⟩ := stack_of_operator hst (hopen.top _) hs
                  rw [hvs, List.append_assoc]
                  exact .operand hopen (Lacks.binary he op)
          | unary op => cases hl
      | rightParen =>
          cases hl
          exact h.close hs
      | comma =>
          cases hl
          exact h.divide hs
      | number | name | callHead | leftParen => cases hl
  | head =>
      cases l with
      | leftParen =>
          cases hl
          cases hs
          generalize hst : s.stack = st at h
          cases h with
          | @head ws st c d f hopen hd =>
              have hparsed : Parsed .arguments (.paren :: .callHead f :: (waiting ws ++ st)) _ :=
                .arguments hopen hd
              simpa using hparsed
      | _ => cases hl
  | arguments =>
      cases l with
      | rightParen =>
          cases hl
          generalize hst : s.stack = st at h
          cases h with
          | @arguments ws st c d f hopen hd =>
              have hst' : s.stack = waiting [] ++ .paren :: .callHead f :: (waiting ws ++ st) := hst
              rw [stack_of_rightParen_call hst' hs]
              obtain ⟨e, he⟩ := hd.primary (@Phrase.call f [] (by intro a ha; cases ha))
              have hparsed : Parsed .operator (waiting ws ++ st) _ := .operator hopen he
              simpa [commaSeparated] using hparsed
      | _ => exact h.of_arguments.begin hl hs

theorem Parsed.run {ls : List Lexeme} {p : Place} :
    ∀ {s : State} {text : List Lexeme}, Parsed p s.stack text → p.afterAll ls = some q →
      run s ls = .ok s' → Parsed q s'.stack (text ++ ls) := by
  induction ls generalizing p with
  | nil =>
      intro s text h hq hs
      cases hq
      cases hs
      rw [List.append_nil]
      exact h
  | cons l ls ih =>
      intro s text h hq hs
      obtain ⟨p', hl, hq⟩ := Option.bind_eq_some_iff.mp hq
      obtain ⟨mid, hmid, hs⟩ := bind_eq_ok hs
      have hrest := ih (h.step hl hmid) hq hs
      rw [List.append_assoc, List.singleton_append] at hrest
      exact hrest

end Yard

/-- A well placed row of lexemes that the yard accepts is a phrase. -/
theorem exists_phrase {ls : List Lexeme} {p : Program} (h : WellPlaced ls)
    (hp : Program.ofLexemes ls = .ok p) : ∃ e, Phrase .or ls e := by
  obtain ⟨s, hrun, hdrain⟩ := bind_eq_ok hp
  obtain ⟨q, hdrain, -⟩ := bind_eq_ok hdrain
  have hparsed := Yard.Parsed.run Yard.Open.start.parsed h hrun
  generalize s.stack = st at hparsed hdrain
  rw [List.nil_append] at hparsed
  cases hparsed with
  | operator hopen he =>
      cases hopen with
      | start => exact ⟨_, he⟩
      | group | call => exact absurd hdrain Yard.drain_paren

end Reckon
