import Reckon.Proofs.Token.Lossless

/-!
# What is known between two tokens

A scan reads a lexeme from the glyphs ahead, and all it knows of the tokens before is whether an
operand is due. The later stages see neither: they see the tokens before and the tokens after. The
two views agree, for whether an operand is due depends on the last token alone (`Reads.due_eq`), and
a parenthesis is ahead exactly if it is the next token (`Reads.opensParen_eq`). So what a single
reading ensures (`fits_of_lexeme`) holds of every token in its place.

The place itself is where the text continues after all that the tokens before are written as.
-/

namespace Reckon

/-- Whether an operand is due after the tokens. -/
def operandDue (before : List Token) : Bool :=
  before.getLast?.all (·.lexeme.expectsOperand)

/-- Whether the tokens begin with a parenthesis. -/
def parenAhead (after : List Token) : Bool :=
  after.head?.any (·.lexeme == .leftParen)

/-- The lexeme is one that can be met where an operand is due or not and a parenthesis follows or
not. -/
structure Lexeme.Fits (radix : Radix) (due opens : Bool) (l : Lexeme) : Prop where
  operator : ∀ op, l = .operator op → Operator.ofSymbol? l.text = some op
  sign : ∀ c ∈ ['+', '-'], l.written = [c] →
    ∃ op, l = .operator op ∧ op.symbol.toList = if due then ['u', c] else [c]
  callHead : ∀ f, l = .callHead f → opens = true
  name : ∀ x, l = .name x → opens = false
  xor : l.text = "xor" →
    l = if opens && due then .callHead "xor" else .operator (.binary .bitXor)
  number : ∀ n, l = .number n → n.WellFormed radix

/-- The token begins in the text where the tokens before end, blanks and underscores apart; if it is
a word it stands there letter by letter. -/
def Token.StandsAfter (before : List Token) (text : List Char) (t : Token) : Prop :=
  ∃ cs c ds, text = cs ++ c :: ds ∧ t.position = cs.length + 1 ∧
    Text.isBlank c = false ∧ t.lexeme.written.head?.map Char.toLower = some c.toLower ∧
    Text.plain (cs.filter fun d => !Text.isBlank d) =
      Text.plain (before.flatMap (·.lexeme.written)) ∧
    (t.lexeme.isWord = true →
      t.lexeme.text.toList = (c :: ds.takeWhile Scan.isWordChar).map Char.toLower)

namespace Scan

variable {radix : Radix} {due due' : Bool} {g : Glyph} {gs rest : List Glyph} {l : Lexeme}

theorem Lexed.head?_written (h : Lexed radix due g gs l rest) :
    l.written.head?.map Char.toLower = some g.char.toLower := by
  have hword : (wordText g.char gs).toList.head?.map Char.toLower = some g.char.toLower := by
    rw [wordText, String.toList_ofList, List.map_cons, List.head?_cons, Option.map_some,
      Text.toLower_toLower]
  cases h with
  | leftParen hg | rightParen hg | comma hg =>
      rw [hg]
      decide
  | symbol hop =>
      obtain ⟨used, -, hwritten⟩ := operator?_written hop
      rw [Lexeme.written, hwritten]
      rfl
  | xor _ _ htext _ =>
      rw [htext] at hword
      exact hword
  | callHead | name => exact hword
  | @marked r hannounced _ =>
      obtain ⟨hzero, m, gs, rfl, hm⟩ := announcedRadix?_eq_some hannounced
      rw [hzero, Lexeme.written_marked, mark_of_ofMarkLetter? hm]
      rfl
  | @bare body _ _ _ _ hbody _ _ =>
      obtain ⟨cs, hcs, -⟩ := takes_decimalBody g.char gs
      rw [Lexeme.written_bare, show body = g.char :: cs by rw [← hcs, hbody]]
      rfl

/-- A sign is told by its character, whatever follows it. -/
theorem sign_of_lexeme (h : lexeme radix due g gs = .ok (l, rest)) {c : Char} (hc : c ∈ ['+', '-'])
    (hwritten : l.written = [c]) :
    ∃ op, l = .operator op ∧ op.symbol.toList = if due then ['u', c] else [c] := by
  simp only [List.mem_cons, List.not_mem_nil, or_false] at hc
  have hg : g.char = c := by
    have hhead := (lexed_of_lexeme h).head?_written
    have hplain : c.isAlpha = false ∧ c.toLower = c := by
      rcases hc with rfl | rfl <;> decide
    rw [hwritten, List.head?_cons, Option.map_some, Option.some.injEq, hplain.2] at hhead
    exact (Text.toLower_eq_iff hplain.1).mp hhead.symm
  have hsingle : ∃ op, singleOperator? due c = some op ∧
      op.symbol.toList = if due then ['u', c] else [c] := by
    rcases hc with rfl | rfl <;> cases due <;> exact ⟨_, rfl, by decide⟩
  obtain ⟨op, hop, hsymbol⟩ := hsingle
  have hdelimiter : delimiter? g.char = none := by
    rw [hg]
    rcases hc with rfl | rfl <;> rfl
  have hpaired : ∀ h ∈ gs.head?, pairedOperator? g.char h.char = none := by
    rw [hg]
    rcases hc with rfl | rfl <;> exact fun _ _ => rfl
  rw [lexeme_single hdelimiter hpaired (hg ▸ hop)] at h
  cases h
  exact ⟨op, rfl, hsymbol⟩

/-- No lexeme but a word has an `x` in its text. -/
theorem Lexed.xor_eq (h : Lexed radix due g gs l rest) (htext : l.text = "xor") :
    l = if opensParen rest && due then .callHead "xor" else .operator (.binary .bitXor) := by
  have hx : 'x' ∈ l.text.toList := by
    rw [htext]
    decide
  cases h with
  | leftParen | rightParen | comma => exact absurd htext (by decide)
  | @symbol op _ hop =>
      have hxor : op = .binary .bitXor := by
        have hsymbol : Operator.ofSymbol? op.symbol = Operator.ofSymbol? "xor" :=
          congrArg Operator.ofSymbol? htext
        rw [Operator.ofSymbol?_symbol] at hsymbol
        exact Option.some.inj hsymbol
      exact absurd hxor (operator?_ne_xor hop)
  | xor _ _ _ hcalled =>
      rw [if_neg (by simpa using hcalled)]
  | callHead _ _ hopens hdue =>
      have htext : wordText g.char gs = "xor" := htext
      rw [hopens, hdue htext, htext]
      rfl
  | name _ _ _ hne => exact absurd htext hne
  | @marked r _ _ =>
      change 'x' ∈ (String.ofList _).toList at hx
      rw [String.toList_ofList] at hx
      exact absurd (isDigit_of_mem_runDigits hx) (by cases r <;> decide)
  | bare _ hstarts hbody _ _ =>
      change 'x' ∈ (String.ofList _).toList at hx
      rw [String.toList_ofList] at hx
      exact absurd (isDecimalChar_of_mem_body hstarts hbody _ hx) (by decide)

theorem ne_dec_of_ofMarkLetter? {c : Char} {r : Radix} (h : Radix.ofMarkLetter? c = some r) :
    r ≠ .dec := by
  unfold Radix.ofMarkLetter? at h
  split at h <;> cases h <;> decide

theorem Lexed.wellFormed {n : Numeral} (h : Lexed radix due g gs (.number n) rest) :
    n.WellFormed radix := by
  cases h with
  | @marked r hannounced hne =>
      obtain ⟨-, m, gs, rfl, hm⟩ := announcedRadix?_eq_some hannounced
      exact .marked (ne_dec_of_ofMarkLetter? hm) ⟨hne, fun _ hc => isDigit_of_mem_runDigits hc⟩
  | bare _ hstarts hbody hdecimal hfractional =>
      exact wellFormed_body radix hstarts (congrArg Prod.fst hbody) hdecimal hfractional

theorem fits_of_lexeme (h : lexeme radix due g gs = .ok (l, rest)) :
    l.Fits radix due (opensParen rest) where
  operator := by
    rintro op rfl
    exact Operator.ofSymbol?_symbol op
  sign c hc hwritten := sign_of_lexeme h hc hwritten
  callHead := by
    rintro f rfl
    cases lexed_of_lexeme h with
    | callHead _ _ hopens _ => exact hopens
  name := by
    rintro x rfl
    cases lexed_of_lexeme h with
    | name _ _ hopens _ => exact hopens
  xor := (lexed_of_lexeme h).xor_eq
  number := by
    rintro n rfl
    exact (lexed_of_lexeme h).wellFormed

theorem Reads.standsAfter {cs : List Char} {before after : List Token} {t : Token}
    (h : Reads radix due (Glyph.ofText cs) (before ++ t :: after) due' rest) :
    t.StandsAfter before cs := by
  obtain ⟨due₁, g, gs, mid, hbefore, hposition, hl, -⟩ := h.split
  obtain ⟨used, hused, hplain⟩ := hbefore.taken
  obtain ⟨ds, es, rfl, hplace, hblank, hds, rfl⟩ := Glyph.startingAt_split hused
  have hlexed := lexed_of_lexeme hl
  refine ⟨ds, g.char, es, rfl, by omega, hblank, hlexed.head?_written, ?_, fun hword => ?_⟩
  · rw [hds, hplain]
  · rw [(hlexed.of_isWord hword).2.1, wordText_startingAt, String.toList_ofList]

theorem Reads.fits {before after : List Token} {t : Token}
    (h : Reads radix true gs (before ++ t :: after) due' []) :
    t.lexeme.Fits radix (operandDue before) (parenAhead after) := by
  obtain ⟨due₁, g, gs', mid, hbefore, -, hl, hafter⟩ := h.split
  have hdue : due₁ = operandDue before := by
    rw [hbefore.due_eq, operandDue]
    cases before.getLast? <;> rfl
  rw [parenAhead, ← hafter.opensParen_eq, ← hdue]
  exact fits_of_lexeme hl

end Scan

/-- The tokens of a text stand in it one after the other, and each fits between those before and
those after. -/
theorem tokens_fit {radix : Radix} {text : String} {tokens : List Token}
    (h : tokenize radix text = .ok tokens) :
    tokens.Pairwise (·.position < ·.position) ∧
      ∀ before t after, tokens = before ++ t :: after →
        t.StandsAfter before text.toList ∧
          t.lexeme.Fits radix (operandDue before) (parenAhead after) := by
  obtain ⟨due, hreads⟩ := Scan.exists_reads h
  constructor
  · have hglyphs :=
      (Glyph.pairwise_startingAt 1 false text.toList).map Glyph.position fun _ _ h => h
    exact List.pairwise_map.mp (hglyphs.sublist hreads.sublist)
  · rintro before t after rfl
    exact ⟨hreads.standsAfter, hreads.fits⟩

/-- Behind the sign an operand is due, so that `xor` calls. -/
theorem tokens_fit_called :
    tokenize .oct "-XOR (7.e1, 0X_f)" = .ok [⟨.operator (.unary .minus), 1⟩, ⟨.callHead "xor", 2⟩,
      ⟨.leftParen, 6⟩, ⟨.number { text := "7.e1", fractional := true }, 7⟩, ⟨.comma, 11⟩,
      ⟨.number { text := "f", radix := .hex, marked := true }, 13⟩, ⟨.rightParen, 17⟩] ∧
    (Token.mk (.callHead "xor") 2).StandsAfter [⟨.operator (.unary .minus), 1⟩]
      "-XOR (7.e1, 0X_f)".toList ∧
    (Lexeme.callHead "xor").Fits .oct true true := by
  have htokens : tokenize .oct "-XOR (7.e1, 0X_f)" = .ok _ := eq_ok_of_toOption
    (show _ = some [⟨.operator (.unary .minus), 1⟩, ⟨.callHead "xor", 2⟩, ⟨.leftParen, 6⟩,
      ⟨.number { text := "7.e1", fractional := true }, 7⟩, ⟨.comma, 11⟩,
      ⟨.number { text := "f", radix := .hex, marked := true }, 13⟩, ⟨.rightParen, 17⟩]
      by decide +kernel)
  exact ⟨htokens,
    (tokens_fit htokens).2 [⟨.operator (.unary .minus), 1⟩] ⟨.callHead "xor", 2⟩ _ rfl⟩

end Reckon
