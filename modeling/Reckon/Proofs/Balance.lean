import Reckon.Proofs.Derivation
import Reckon.Proofs.TreeValue

/-!
# Which texts have a value

The yard never looks whether operands and operators alternate, and the machine counts values only.
So the texts that have a value are those whose operators and operands balance, whatever the order
they stand in: the program of the text is the listing of one tree, and the text has the tree's value
(`evaluate_eq_ok_iff_result`). `2 ~` has a value, and it is that of `~2`.

An empty pair of parentheses is refused, though in a call only because no function takes zero
arguments. Whether a text that has a value is also a phrase of the grammar depends on nothing but
whether each lexeme stands in a place of its kind, and its tree is then the one the grammar gives.
-/

namespace Reckon

/-! ## What goes to the output stays there

The yard takes an empty pair of parentheses, if it is that of a call, and makes of it a call without
arguments; only the machine refuses that. So the call has to be found in the finished program, and
for this it is enough that the output of a state is the end of the output of every later one: what
happens between the parentheses and the end of the text plays no part. -/

namespace Yard

theorem suffix_emit (ws : List Waiting) (output : List Instruction) : output <:+ emit ws output :=
  List.suffix_append _ _

/-- A step releases what waits and may add an instruction. Nothing is ever taken back. -/
theorem Stepped.output_suffix {s s' : State} {l : Lexeme} (h : Stepped s l s') :
    s.output <:+ s'.output := by
  cases h with
  | number | name => exact List.suffix_cons _ _
  | callHead | leftParen => exact List.suffix_refl _
  | operator | comma | closeGroup => exact suffix_emit _ _
  | closeCall => exact (suffix_emit _ _).trans (List.suffix_cons _ _)

theorem output_of_run {ls : List Lexeme} {s s' : State} (h : run s ls = .ok s') :
    s.output <:+ s'.output :=
  preserved_of_run (P := fun s' => s.output <:+ s'.output)
    (fun hsuffix hstep => hsuffix.trans hstep.output_suffix) (List.suffix_refl _) h

/-- A pair of parentheses with nothing between can only be that of a call, without arguments. -/
theorem call_of_emptyParens {s s' : State} (h : run s [.leftParen, .rightParen] = .ok s') :
    ∃ f, .call f 0 ∈ s'.output := by
  obtain ⟨output, stack, counts, opened⟩ := s
  match stack with
  | .callHead f :: stack =>
      cases h
      exact ⟨f, List.mem_cons_self ..⟩
  | .operator _ :: _ | .paren :: _ | [] => cases h

end Yard

/-- A text with an empty pair of parentheses is refused or calls something without arguments. -/
theorem call_of_infix {ls : List Lexeme} {p : Program} (hp : Program.ofLexemes ls = .ok p)
    (h : [.leftParen, .rightParen] <:+: ls) : ∃ f, .call f 0 ∈ p := by
  obtain ⟨before, after, rfl⟩ := h
  obtain ⟨s, hrun, hrest⟩ := bind_eq_ok hp
  obtain ⟨q, -, hrest⟩ := bind_eq_ok hrest
  cases hrest
  change Yard.run {} _ = _ at hrun
  rw [List.append_assoc, Yard.run_append] at hrun
  obtain ⟨s₁, -, hrun⟩ := bind_eq_ok hrun
  rw [Yard.run_append] at hrun
  obtain ⟨s₂, hparens, hrun⟩ := bind_eq_ok hrun
  obtain ⟨f, hf⟩ := Yard.call_of_emptyParens hparens
  refine ⟨f, List.mem_append_left _ (List.mem_reverse.mpr ?_)⟩
  exact (Yard.output_of_run hrun).subset hf

theorem Function.accepts_zero (fn : Function) : fn.accepts 0 = false := by
  cases fn <;> rfl

/-- Neither arithmetic has a function of no arguments. -/
theorem Program.call_zero_not_mem {o : Options} {p : Program} {r : Result}
    (h : p.evaluate o = .ok r) (name : String) : .call name 0 ∉ p := by
  intro hmem
  rcases Program.machine_of_evaluate h with ⟨x, hx⟩ | ⟨x, hx⟩
  · obtain ⟨f, hf⟩ := Machine.function_of_mem hx hmem
    obtain ⟨fn, -, -, haccepts, -⟩ := Arithmetic.floats_function_eq_ok hf
    rw [fn.accepts_zero] at haccepts
    cases haccepts
  · obtain ⟨f, hf⟩ := Machine.function_of_mem hx hmem
    obtain ⟨fn, -, -, haccepts, -⟩ := Arithmetic.words_function_eq_ok hf
    rw [fn.accepts_zero] at haccepts
    cases haccepts

theorem Glyph.startingAt_of_blank {cs : List Char} (h : ∀ c ∈ cs, Text.isBlank c = true)
    (position : Nat) (spaced : Bool) : Glyph.startingAt position spaced cs = [] := by
  induction cs generalizing position spaced with
  | nil => rfl
  | cons c cs ih =>
      rw [Glyph.startingAt, if_pos (h c (by simp))]
      exact ih (fun d hd => h d (by simp [hd])) _ _

theorem scan_of_isBlankText {text : String} (h : isBlankText text = true) (o : Options) :
    scan o text = .ok [] := by
  have hglyphs : Glyph.ofText text.toList = [] :=
    Glyph.startingAt_of_blank (List.all_eq_true.mp h) _ _
  rw [scan, tokenize, hglyphs, Scan.tokens]
  rfl

theorem evaluate_of_not_blank {text : String} (h : isBlankText text = false) (o : Options) :
    evaluate o text = scan o text >>= fun tokens => group tokens >>= fun p =>
      (p.evaluate o).mapError Fault.evaluation := by
  rw [evaluate, h]
  rfl

/-- A text whose tokens list a tree has the outcome of that tree. -/
theorem evaluate_of_group {o : Options} {text : String} {tokens : List Token} {e : Expr}
    (hscan : scan o text = .ok tokens) (hgroup : group tokens = .ok e.program) :
    evaluate o text = (e.result o).mapError Fault.evaluation := by
  cases hblank : isBlankText text with
  | true =>
      rw [scan_of_isBlankText hblank] at hscan
      cases hscan
      exact absurd (Except.ok.inj (mapError_eq_ok hgroup)).symm e.program_ne_nil
  | false =>
      rw [evaluate_of_not_blank hblank, hscan]
      show (group tokens >>= fun p => (p.evaluate o).mapError Fault.evaluation) = _
      rw [hgroup]
      show (e.program.evaluate o).mapError Fault.evaluation = _
      rw [Expr.evaluate_program]

/-- A text with a value has the value of the tree that its program lists. -/
theorem evaluate_eq_ok_iff_result (o : Options) (text : String) (r : Result) :
    evaluate o text = .ok r ↔ ∃ (tokens : List Token) (e : Expr), scan o text = .ok tokens ∧
      group tokens = .ok e.program ∧ e.result o = .ok r := by
  constructor
  · intro h
    cases hblank : isBlankText text with
    | true =>
        rw [evaluate, hblank] at h
        cases h
    | false =>
        rw [evaluate_of_not_blank hblank] at h
        obtain ⟨tokens, hscan, h⟩ := bind_eq_ok h
        obtain ⟨p, hgroup, h⟩ := bind_eq_ok h
        have hvalue := mapError_eq_ok h
        obtain ⟨e, rfl⟩ := Program.exists_expr hvalue
        rw [Expr.evaluate_program] at hvalue
        exact ⟨tokens, e, hscan, hgroup, hvalue⟩
  · rintro ⟨tokens, e, hscan, hgroup, hresult⟩
    rw [evaluate_of_group hscan hgroup, hresult]
    rfl

/-- Tokens that list a tree are a phrase exactly if they are well placed, and a phrase of that tree
and of no other. -/
theorem phrase_iff_wellPlaced {tokens : List Token} {e : Expr} (h : group tokens = .ok e.program)
    (e' : Expr) : Phrase .or (tokens.map Token.lexeme) e' ↔
      WellPlaced (tokens.map Token.lexeme) ∧ e' = e := by
  have hprogram := mapError_eq_ok h
  have huniq : ∀ {e'}, Phrase .or (tokens.map Token.lexeme) e' → e' = e := by
    intro e' he'
    rw [ofLexemes_eq_program he'] at hprogram
    exact Expr.program_injective (Except.ok.inj hprogram)
  constructor
  · exact fun he' => ⟨he'.wellPlaced, huniq he'⟩
  · rintro ⟨hplaced, rfl⟩
    obtain ⟨e', he'⟩ := exists_phrase hplaced hprogram
    rw [← huniq he']
    exact he'

/-- A text has a value exactly if its tokens balance, that is if they group into the listing of one
tree, and the value is that tree's. No pair of parentheses in it is then empty, and its tokens are
a phrase of the grammar, with the same tree, exactly if each stands in a place of its kind. -/
theorem evaluate_eq_ok_iff (o : Options) (text : String) (r : Result) :
    evaluate o text = .ok r ↔ ∃ (tokens : List Token) (e : Expr), scan o text = .ok tokens ∧
      group tokens = .ok e.program ∧ e.result o = .ok r ∧
      (∀ e' : Expr, group tokens = .ok e'.program → e' = e) ∧
      ¬ [.leftParen, .rightParen] <:+: tokens.map Token.lexeme ∧
      ∀ e' : Expr, Phrase .or (tokens.map Token.lexeme) e' ↔
        WellPlaced (tokens.map Token.lexeme) ∧ e' = e := by
  rw [evaluate_eq_ok_iff_result]
  constructor
  · rintro ⟨tokens, e, hscan, hgroup, hresult⟩
    refine ⟨tokens, e, hscan, hgroup, hresult, ?_, ?_, phrase_iff_wellPlaced hgroup⟩
    · intro e' he'
      rw [hgroup] at he'
      exact Expr.program_injective (Except.ok.inj he').symm
    · intro hempty
      obtain ⟨f, hf⟩ := call_of_infix (mapError_eq_ok hgroup) hempty
      rw [← Expr.evaluate_program] at hresult
      exact Program.call_zero_not_mem hresult f hf
  · rintro ⟨tokens, e, hscan, hgroup, hresult, -⟩
    exact ⟨tokens, e, hscan, hgroup, hresult⟩

/-- Lexemes out of place are no phrase. -/
theorem not_phrase_of_not_wellPlaced {o : Options} {text : String} {tokens : List Token}
    (hscan : (scan o text).toOption = some tokens)
    (hplaced : ¬ WellPlaced (tokens.map Token.lexeme)) :
    ∀ tokens', scan o text = .ok tokens' →
      ∀ e : Expr, ¬ Phrase .or (tokens'.map Token.lexeme) e := by
  intro tokens' hscan' e he
  rw [eq_ok_of_toOption hscan] at hscan'
  cases hscan'
  exact hplaced he.wellPlaced

/-- A prefix operator after its operand, two operands side by side with their operator after both,
and an argument without an expression: each of these texts has a value and is no phrase. -/
theorem values_out_of_place :
    (evaluate { mode := .integer } "2 ~" =
        .ok (.word 18446744073709551613 { mode := .integer }) ∧
      ∀ tokens, scan { mode := .integer } "2 ~" = .ok tokens →
        ∀ e : Expr, ¬ Phrase .or (tokens.map Token.lexeme) e) ∧
    (evaluate { mode := .integer } "(1)(2)+" = .ok (.word 3 { mode := .integer }) ∧
      ∀ tokens, scan { mode := .integer } "(1)(2)+" = .ok tokens →
        ∀ e : Expr, ¬ Phrase .or (tokens.map Token.lexeme) e) ∧
    (evaluate { mode := .integer } "max((1)(2),)" = .ok (.word 2 { mode := .integer }) ∧
      ∀ tokens, scan { mode := .integer } "max((1)(2),)" = .ok tokens →
        ∀ e : Expr, ¬ Phrase .or (tokens.map Token.lexeme) e) := by
  refine ⟨⟨eq_ok_of_toOption (by decide +kernel), ?_⟩, ⟨eq_ok_of_toOption (by decide +kernel), ?_⟩,
    ⟨eq_ok_of_toOption (by decide +kernel), ?_⟩⟩
  · have hscan : (scan { mode := .integer } "2 ~").toOption =
        some [⟨.number { text := "2" }, 1⟩, ⟨.operator (.unary .complement), 3⟩] := by
      decide +kernel
    exact not_phrase_of_not_wellPlaced hscan (by decide)
  · have hscan : (scan { mode := .integer } "(1)(2)+").toOption =
        some [⟨.leftParen, 1⟩, ⟨.number { text := "1" }, 2⟩, ⟨.rightParen, 3⟩, ⟨.leftParen, 4⟩,
          ⟨.number { text := "2" }, 5⟩, ⟨.rightParen, 6⟩, ⟨.operator (.binary .add), 7⟩] := by
      decide +kernel
    exact not_phrase_of_not_wellPlaced hscan (by decide)
  · have hscan : (scan { mode := .integer } "max((1)(2),)").toOption =
        some [⟨.callHead "max", 1⟩, ⟨.leftParen, 4⟩, ⟨.leftParen, 5⟩, ⟨.number { text := "1" }, 6⟩,
          ⟨.rightParen, 7⟩, ⟨.leftParen, 8⟩, ⟨.number { text := "2" }, 9⟩, ⟨.rightParen, 10⟩,
          ⟨.comma, 11⟩, ⟨.rightParen, 12⟩] := by
      decide +kernel
    exact not_phrase_of_not_wellPlaced hscan (by decide)

end Reckon
