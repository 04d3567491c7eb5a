import Reckon.Proofs.Text.Ascii
import Reckon.Proofs.Token.Reading
import Mathlib.Data.Bool.AllAny

/-!
# Spelling

`Spells` lifts `Reads` from glyphs to characters. A row of characters spells the same lexemes
wherever in a text it stands, so a text that is put together from parts can be read part by part:
delimiters, operators and call heads spell themselves, blanks spell nothing, and a text that has
been scanned on its own spells its tokens again in front of a closing parenthesis or a comma
(`Spells.text`).
-/

namespace Reckon

/-- What a prefix operator is written as. -/
def UnaryOp.spelling : UnaryOp → Char
  | minus => '-'
  | plus => '+'
  | complement => '~'

theorem Glyph.startingAt_append (position : Nat) (spaced : Bool) (cs ds : List Char) :
    ∃ position' spaced', Glyph.startingAt position spaced (cs ++ ds) =
      Glyph.startingAt position spaced cs ++ Glyph.startingAt position' spaced' ds := by
  induction cs generalizing position spaced with
  | nil => exact ⟨position, spaced, rfl⟩
  | cons c cs ih =>
      cases hc : Text.isBlank c with
      | true =>
          simp only [List.cons_append, Glyph.startingAt, hc, if_true]
          exact ih (position + 1) true
      | false =>
          obtain ⟨position', spaced', h⟩ := ih (position + 1) false
          refine ⟨position', spaced', ?_⟩
          simp only [List.cons_append, Glyph.startingAt, hc, Bool.false_eq_true, if_false, h]

theorem Glyph.startingAt_cons {c : Char} (hc : Text.isBlank c = false) (position : Nat)
    (spaced : Bool) (cs : List Char) : Glyph.startingAt position spaced (c :: cs) =
      ⟨c, position, spaced⟩ :: Glyph.startingAt (position + 1) false cs := by
  rw [Glyph.startingAt, if_neg (by simp [hc])]

theorem Glyph.startingAt_blank {c : Char} (hc : Text.isBlank c = true) (position : Nat)
    (spaced : Bool) (cs : List Char) : Glyph.startingAt position spaced (c :: cs) =
      Glyph.startingAt (position + 1) true cs := by
  rw [Glyph.startingAt, if_pos hc]

namespace Scan

theorem alike_startingAt (position position' : Nat) (spaced : Bool) (cs : List Char) :
    List.Forall₂ Alike (Glyph.startingAt position spaced cs)
      (Glyph.startingAt position' spaced cs) := by
  induction cs generalizing position position' spaced with
  | nil => exact .nil
  | cons c cs ih =>
      cases hc : Text.isBlank c with
      | true =>
          rw [Glyph.startingAt_blank hc, Glyph.startingAt_blank hc]
          exact ih _ _ _
      | false =>
          rw [Glyph.startingAt_cons hc, Glyph.startingAt_cons hc]
          exact .cons ⟨rfl, rfl⟩ (ih _ _ _)

/-! ## Spelling

Tokens know their places, and lexemes do not. So what a row of characters spells is said for all
places at which it may begin, in the lexemes alone, and what is left over is again a row of
characters, at some place. This makes two rows that are spelled one after the other fit together
without a word about places (`Spells.trans`). -/

/-- The characters `cs` spell lexemes, with `rest` left. The truth values say whether an operand is
due before and after. -/
def Spells (radix : Radix) (due : Bool) (cs : List Char) (ls : List Lexeme) (due' : Bool)
    (rest : List Char) : Prop :=
  ∀ position spaced, ∃ ts position' spaced', ts.map Token.lexeme = ls ∧
    Reads radix due (Glyph.startingAt position spaced cs) ts due'
      (Glyph.startingAt position' spaced' rest)

variable {radix : Radix} {due due' due'' : Bool} {cs mid rest : List Char} {ls ms : List Lexeme}

theorem Spells.trans (h : Spells radix due cs ls due' mid)
    (h' : Spells radix due' mid ms due'' rest) : Spells radix due cs (ls ++ ms) due'' rest := by
  intro position spaced
  obtain ⟨ts, position', spaced', rfl, hts⟩ := h position spaced
  obtain ⟨us, position'', spaced'', rfl, hus⟩ := h' position' spaced'
  exact ⟨ts ++ us, position'', spaced'', List.map_append, hts.append hus⟩

theorem Spells.blank {c : Char} (hc : Text.isBlank c = true)
    (h : Spells radix due cs ls due' rest) :
    Spells radix due (c :: cs) ls due' rest := by
  intro position spaced
  rw [Glyph.startingAt_blank hc]
  exact h _ _

/-- A single reading. -/
theorem Spells.lexeme {c : Char} {l : Lexeme} (hc : Text.isBlank c = false)
    (h : ∀ position spaced position', ∃ position'' spaced'',
      lexeme radix due ⟨c, position, spaced⟩ (Glyph.startingAt position' false cs) =
        .ok (l, Glyph.startingAt position'' spaced'' rest)) :
    Spells radix due (c :: cs) [l] l.expectsOperand rest := by
  intro position spaced
  rw [Glyph.startingAt_cons hc]
  obtain ⟨position'', spaced'', hl⟩ := h position spaced (position + 1)
  exact ⟨_, position'', spaced'', rfl, .token hl .done⟩

theorem Spells.delimiter {c : Char} {l : Lexeme} (hc : Text.isBlank c = false)
    (hl : delimiter? c = some l) : Spells radix due (c :: cs) [l] l.expectsOperand cs := by
  refine .lexeme hc fun position spaced position' => ⟨position', false, ?_⟩
  simp only [Scan.lexeme, hl]

theorem Spells.leftParen : Spells radix due ('(' :: cs) [.leftParen] true cs :=
  .delimiter (by decide) rfl

theorem Spells.rightParen : Spells radix due (')' :: cs) [.rightParen] false cs :=
  .delimiter (by decide) rfl

theorem Spells.comma : Spells radix due (',' :: cs) [.comma] true cs :=
  .delimiter (by decide) rfl

theorem lexeme_single {g : Glyph} {gs : List Glyph} {op : Operator}
    (hdelimiter : delimiter? g.char = none)
    (hpaired : ∀ h ∈ gs.head?, pairedOperator? g.char h.char = none)
    (hsingle : singleOperator? due g.char = some op) :
    lexeme radix due g gs = .ok (.operator op, gs) := by
  have hpair : (gs.head?.bind fun h => pairedOperator? g.char h.char) = none := by
    cases gs with
    | nil => rfl
    | cons h gs => exact hpaired h rfl
  simp only [lexeme, hdelimiter, operator?, hpair, hsingle, Option.map_some]

/-- No prefix operator begins a longer one. -/
theorem Spells.unary (op : UnaryOp) :
    Spells radix true (op.spelling :: cs) [.operator (.unary op)] true cs := by
  cases op <;> exact .lexeme (by decide) fun _ _ position =>
    ⟨position, false, lexeme_single rfl (fun _ _ => rfl) rfl⟩

/-- Whether the characters are a word that does not begin with a digit. -/
def isName : List Char → Bool
  | [] => false
  | c :: cs => isWordChar c && !Radix.dec.isDigit c && cs.all isWordChar

theorem toNat_lt_of_isWordChar {c : Char} (h : isWordChar c = true) : c.toNat < 0x80 := by
  delta isWordChar Char.isAlphanum Char.isAlpha Char.isUpper Char.isLower Char.isDigit at h
  simp only [Bool.or_eq_true, Bool.and_eq_true, decide_eq_true_eq, beq_iff_eq,
    UInt32.le_iff_toNat_le, ge_iff_le] at h
  rcases h with ((h | h) | h) | rfl
  · exact Nat.lt_of_le_of_lt h.2 (by decide)
  · exact Nat.lt_of_le_of_lt h.2 (by decide)
  · exact Nat.lt_of_le_of_lt h.2 (by decide)
  · decide

theorem isBlank_of_isWordChar {c : Char} (h : isWordChar c = true) : Text.isBlank c = false :=
  Text.of_ascii (P := fun c => isWordChar c = true → Text.isBlank c = false) (by decide +kernel)
    (toNat_lt_of_isWordChar h) h

/-- What is none of the symbols is no delimiter and no operator. -/
theorem no_symbol_of_ne {c : Char} (hne : ∀ d ∈ "(),+-*/%^&|~<>".toList, c ≠ d) (due : Bool) :
    delimiter? c = none ∧ (∀ d, pairedOperator? c d = none) ∧ singleOperator? due c = none := by
  refine ⟨?_, fun d => ?_, ?_⟩
  · unfold delimiter?
    split <;> first | rfl | exact absurd rfl (hne _ (by decide))
  · unfold pairedOperator?
    split <;> first | rfl | exact absurd rfl (hne _ (by decide))
  · unfold singleOperator?
    split <;> first | rfl | exact absurd rfl (hne _ (by decide))

/-- No word begins like a delimiter or an operator. -/
theorem no_symbol_of_isWordChar {c : Char} (h : isWordChar c = true) (due : Bool)
    (gs : List Glyph) :
    delimiter? c = none ∧ operator? due c gs = none := by
  have hsymbols : ∀ d ∈ "(),+-*/%^&|~<>".toList, isWordChar d = false :=
    List.all_iff_forall_prop.mp (by decide)
  have hne : ∀ d ∈ "(),+-*/%^&|~<>".toList, c ≠ d := by
    intro d hd heq
    rw [heq, hsymbols d hd] at h
    cases h
  obtain ⟨hdelimiter, hpaired, hsingle⟩ := no_symbol_of_ne hne due
  have hpair : (gs.head?.bind fun g => pairedOperator? c g.char) = none := by
    cases gs with
    | nil => rfl
    | cons g gs => exact hpaired g.char
  refine ⟨hdelimiter, ?_⟩
  rw [operator?, hpair, hsingle]
  rfl

theorem lexeme_word {g : Glyph} {gs : List Glyph} (hword : isWordChar g.char = true)
    (hdigit : Radix.dec.isDigit g.char = false) :
    lexeme radix due g gs = .ok (word due g.char gs, afterWord gs) := by
  obtain ⟨hdelimiter, hoperator⟩ := no_symbol_of_isWordChar hword due gs
  simp [lexeme, hdelimiter, hoperator, hword, hdigit]

theorem span_of_head {α : Type} {p : α → Bool} {xs : List α} (h : ∀ x ∈ xs.head?, p x = false) :
    xs.takeWhile p = [] ∧ xs.dropWhile p = xs := by
  cases xs with
  | nil => exact ⟨rfl, rfl⟩
  | cons x xs =>
      have hx : p x = false := h x rfl
      simp [hx]

/-- A word goes on to the first character that is of no word, or to a blank. -/
theorem span_word {cs : List Char} (hcs : ∀ c ∈ cs, isWordChar c = true)
    (hrest : ∀ position, ∀ g ∈ (Glyph.startingAt position false rest).head?,
      continuesWord g = false) (position : Nat) : ∃ position',
      ((Glyph.startingAt position false (cs ++ rest)).takeWhile continuesWord).map Glyph.char = cs ∧
      afterWord (Glyph.startingAt position false (cs ++ rest)) =
        Glyph.startingAt position' false rest := by
  induction cs generalizing position with
  | nil =>
      obtain ⟨htake, hdrop⟩ := span_of_head (hrest position)
      exact ⟨position, by rw [List.nil_append, htake, List.map_nil], hdrop⟩
  | cons c cs ih =>
      have hc : isWordChar c = true := hcs c (by simp)
      have hcontinues : continuesWord ⟨c, position, false⟩ = true := by simp [continuesWord, hc]
      obtain ⟨position', htake, hafter⟩ := ih (fun d hd => hcs d (by simp [hd])) (position + 1)
      rw [List.cons_append, Glyph.startingAt_cons (isBlank_of_isWordChar hc)]
      refine ⟨position', ?_, ?_⟩
      · rw [List.takeWhile_cons_of_pos hcontinues, List.map_cons, htake]
      · rw [afterWord, List.dropWhile_cons_of_pos hcontinues]
        exact hafter

/-- A name in front of a parenthesis calls, where an operand is due. -/
theorem Spells.callHead {f : String} (hf : isName f.toList = true) :
    Spells radix true (f.toList ++ '(' :: cs) [.callHead f.toLower] false ('(' :: cs) := by
  have hlower : f.toLower = String.ofList (f.toList.map Char.toLower) := by
    rw [← String.toList_inj, String.toList_ofList]
    exact String.toList_map
  rw [hlower]
  generalize f.toList = name at hf
  cases name with
  | nil => cases hf
  | cons c ds =>
      simp only [isName, Bool.and_eq_true, Bool.not_eq_true', List.all_eq_true] at hf
      obtain ⟨⟨hc, hdigit⟩, hds⟩ := hf
      rw [List.cons_append]
      refine .lexeme (isBlank_of_isWordChar hc) fun position spaced position' => ?_
      have hparen : ∀ position, ∀ g ∈ (Glyph.startingAt position false ('(' :: cs)).head?,
          continuesWord g = false := by
        intro position g hg
        cases hg
        rfl
      obtain ⟨position'', htake, hafter⟩ := span_word hds hparen position'
      have hopens : opensParen (Glyph.startingAt position'' false ('(' :: cs)) = true := rfl
      refine ⟨position'', false, ?_⟩
      rw [lexeme_word hc hdigit, word, wordText, htake, hafter, hopens]
      simp

/-- A binary operator in front of an operand, with blanks around it. -/
theorem Spells.binary (op : BinaryOp) {d : Char} (hd : Text.isBlank d = false)
    (hpaired : ∀ c, pairedOperator? c d = none) :
    Spells radix false (' ' :: (op.symbol.toList ++ ' ' :: d :: cs)) [.operator (.binary op)] true
      (d :: cs) := by
  refine .blank (by decide) ?_
  have hblank (position : Nat) : Glyph.startingAt position false (' ' :: d :: cs) =
      ⟨d, position + 1, true⟩ :: Glyph.startingAt (position + 2) false cs := by
    rw [Glyph.startingAt_blank (by decide), Glyph.startingAt_cons hd]
  have hsingle {c : Char} {single : BinaryOp} (hc : Text.isBlank c = false)
      (hdelimiter : delimiter? c = none) (hop : singleOperator? false c = some (.binary single)) :
      Spells radix false (c :: ' ' :: d :: cs) [.operator (.binary single)] true (d :: cs) := by
    refine .lexeme hc fun _ _ position => ⟨position + 1, true, ?_⟩
    refine lexeme_single hdelimiter (fun h hh => ?_) hop
    rw [hblank] at hh
    cases hh
    exact hpaired c
  cases op with
  | doubleStar | shiftLeft | shiftRight =>
      exact .lexeme (by decide) fun _ _ position => ⟨position + 2, true, rfl⟩
  | bitXor =>
      have hstop : ∀ position, ∀ g ∈ (Glyph.startingAt position false (' ' :: d :: cs)).head?,
          continuesWord g = false := by
        intro position g hg
        rw [hblank] at hg
        cases hg
        simp [continuesWord]
      show Spells radix false ('x' :: (['o', 'r'] ++ ' ' :: d :: cs)) _ _ _
      refine .lexeme (by decide) fun position spaced position' => ?_
      have hor : ∀ c ∈ ['o', 'r'], isWordChar c = true := List.all_eq_true.mp (by decide)
      obtain ⟨position'', htake, hafter⟩ := span_word hor hstop position'
      have hxor : isWordChar 'x' = true ∧ Radix.dec.isDigit 'x' = false := by decide
      refine ⟨position'' + 1, true, ?_⟩
      rw [lexeme_word hxor.1 hxor.2, word, wordText, htake, hafter, Bool.and_false]
      rfl
  | _ => exact hsingle (by decide) rfl rfl

/-- A text that is scanned on its own spells its tokens in front of what goes on with nothing. -/
theorem Spells.text {text : String} {tokens : List Token} {c : Char}
    (h : tokenize radix text = .ok tokens) (hc : c = ')' ∨ c = ',') :
    ∃ due', Spells radix true (text.toList ++ c :: rest) (tokens.map Token.lexeme) due'
      (c :: rest) := by
  obtain ⟨due', hreads⟩ := exists_reads h
  refine ⟨due', fun position spaced => ?_⟩
  obtain ⟨position', spaced', hglyphs⟩ :=
    Glyph.startingAt_append position spaced text.toList (c :: rest)
  have hblank : Text.isBlank c = false := by
    rcases hc with rfl | rfl <;> decide
  have htail : Closing (Glyph.startingAt position' spaced' (c :: rest)) := by
    rw [Glyph.startingAt_cons hblank]
    exact .cons hc _
  obtain ⟨us, hus, hreads'⟩ :=
    hreads.extended htail (Glyph.startingAt position spaced (text.toList ++ c :: rest)) (by
      rw [hglyphs]
      cases text.toList with
      | nil => exact .inr ⟨[], .nil, rfl⟩
      | cons d ds =>
          cases hd : Text.isBlank d with
          | true =>
              rw [Glyph.ofText, Glyph.startingAt_blank hd, Glyph.startingAt_blank hd]
              exact .inr ⟨_, alike_startingAt _ _ _ ds, rfl⟩
          -- The first glyph may stand after a blank here and did not there.
          | false =>
              rw [Glyph.ofText, Glyph.startingAt_cons hd, Glyph.startingAt_cons hd]
              exact .inl ⟨_, _, _, _, rfl, rfl, rfl, _, alike_startingAt _ _ _ ds, rfl⟩)
  exact ⟨us, position', spaced', hus, hreads'⟩

/-- Lexemes that are spelled to the end are those of the tokens. -/
theorem Spells.tokenize {text : String} (h : Spells radix true text.toList ls due' []) :
    ∃ tokens, tokenize radix text = .ok tokens ∧ tokens.map Token.lexeme = ls := by
  obtain ⟨ts, _, _, hts, hreads⟩ := h 1 false
  exact ⟨ts, hreads.tokens_eq_ok, hts⟩

end Scan

end Reckon
