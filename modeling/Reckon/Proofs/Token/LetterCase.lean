import Reckon.Proofs.Text.Ascii
import Reckon.Proofs.Token.Spelling

/-!
# Scanning small letters

Nothing in a scan tells a capital from its small letter. Where letters are read at all, both forms
of a letter are asked for, or the letter is made small first, and what is no letter is not changed.
So making the letters of a text small and scanning it commute: each reader finds in the small
letters what it has found before, in small letters. Only numerals and errors keep the letters that
were written; of everything else a scan finds the capitals are lost already.
-/

namespace Reckon

def Glyph.lower (g : Glyph) : Glyph :=
  { g with char := g.char.toLower }

def Numeral.lower (n : Numeral) : Numeral :=
  { n with text := n.text.toLower }

/-- The lexeme of the text in small letters. Names are in small letters already. -/
def Lexeme.lower : Lexeme → Lexeme
  | number n => number n.lower
  | l => l

def Token.lower (t : Token) : Token :=
  { t with lexeme := t.lexeme.lower }

def LexError.Cause.lower : LexError.Cause → LexError.Cause
  | unexpected c => unexpected c.toLower
  | malformedNumber body => malformedNumber body.toLower
  | malformedDigits r => malformedDigits r

def LexError.lower (e : LexError) : LexError :=
  { e with cause := e.cause.lower }

theorem Lexeme.expectsOperand_lower (l : Lexeme) : l.lower.expectsOperand = l.expectsOperand := by
  cases l <;> rfl

/-! ## Characters

What is asked of a single character is checked for all of ASCII at once, and beyond it nothing is
made small (`apply_toLower`). That does not serve for two characters that are asked together, or
where a character selects a case. These come down to comparisons with characters that are no
letters, and the small form of a letter is none of them either (`toLower_eq_iff`). -/

namespace Text

/-- What is the same for both forms of the letters of ASCII does not depend on capitals. -/
theorem apply_toLower {α : Type} {f : Char → α}
    (h : ∀ n < 0x80, f (Char.ofNat n).toLower = f (Char.ofNat n)) (c : Char) :
    f c.toLower = f c := by
  by_cases hc : c.toNat < 0x80
  · exact of_ascii (P := fun c => f c.toLower = f c) h hc
  · rw [toLower_of_le (by omega)]

theorem toLower_beq {d : Char} (hd : d.isAlpha = false) (c : Char) :
    (c.toLower == d) = (c == d) := by
  rw [Bool.eq_iff_iff, beq_iff_eq, beq_iff_eq, toLower_eq_iff hd]

theorem isBlank_toLower (c : Char) : isBlank c.toLower = isBlank c :=
  apply_toLower (by decide +kernel) c

theorem toList_toLower (s : String) : s.toLower.toList = s.toList.map Char.toLower :=
  String.toList_map

theorem ofList_map_toLower (cs : List Char) :
    String.ofList (cs.map Char.toLower) = (String.ofList cs).toLower := by
  rw [← String.toList_inj, toList_toLower, String.toList_ofList, String.toList_ofList]

/-- Small letters of a text are small already. -/
theorem toLower_toLower_text (s : String) : s.toLower.toLower = s.toLower := by
  rw [← String.toList_inj, toList_toLower, toList_toLower, List.map_map, toLower_comp_toLower]

end Text

theorem Numeral.lower_lower (n : Numeral) : n.lower.lower = n.lower := by
  rw [lower, lower, Text.toLower_toLower_text]

theorem LexError.lower_lower (e : LexError) : e.lower.lower = e.lower := by
  have hcause : e.cause.lower.lower = e.cause.lower := by
    cases e.cause with
    | unexpected c => exact congrArg Cause.unexpected (Text.toLower_toLower c)
    | malformedNumber body => exact congrArg Cause.malformedNumber (Text.toLower_toLower_text body)
    | malformedDigits r => rfl
  rw [lower, lower, hcause]

namespace Radix

theorem digit?_toLower (r : Radix) (c : Char) : r.digit? c.toLower = r.digit? c := by
  cases r <;> exact Text.apply_toLower (by decide +kernel) c

theorem isDigit_toLower (r : Radix) (c : Char) : r.isDigit c.toLower = r.isDigit c := by
  rw [isDigit, digit?_toLower, isDigit]

theorem isDigit_comp_toLower (r : Radix) : r.isDigit ∘ Char.toLower = r.isDigit :=
  funext r.isDigit_toLower

theorem ofMarkLetter?_toLower (c : Char) : ofMarkLetter? c.toLower = ofMarkLetter? c :=
  Text.apply_toLower (by decide +kernel) c

theorem value?_toLower (r : Radix) (cs : List Char) :
    r.value? (cs.map Char.toLower) = r.value? cs := by
  simp only [value?, List.foldlM_map, digit?_toLower]

end Radix

namespace Scan

theorem isWordChar_toLower (c : Char) : isWordChar c.toLower = isWordChar c :=
  Text.apply_toLower (by decide +kernel) c

theorem delimiter?_toLower (c : Char) : delimiter? c.toLower = delimiter? c :=
  Text.apply_toLower (by decide +kernel) c

theorem singleOperator?_toLower (due : Bool) (c : Char) :
    singleOperator? due c.toLower = singleOperator? due c := by
  cases due <;> exact Text.apply_toLower (by decide +kernel) c

theorem pairedOperator?_eq (c d : Char) : pairedOperator? c d =
    if c = '*' ∧ d = '*' then some .doubleStar else if c = '<' ∧ d = '<' then some .shiftLeft
    else if c = '>' ∧ d = '>' then some .shiftRight else none := by
  unfold pairedOperator?
  split <;> grind

theorem pairedOperator?_toLower (c d : Char) :
    pairedOperator? c.toLower d.toLower = pairedOperator? c d := by
  have hstar (c : Char) : c.toLower = '*' ↔ c = '*' := Text.toLower_eq_iff (by decide)
  have hless (c : Char) : c.toLower = '<' ↔ c = '<' := Text.toLower_eq_iff (by decide)
  have hgreater (c : Char) : c.toLower = '>' ↔ c = '>' := Text.toLower_eq_iff (by decide)
  simp only [pairedOperator?_eq, hstar, hless, hgreater]

end Scan

namespace Decimal

theorem natural?_toLower (cs : List Char) : natural? (cs.map Char.toLower) = natural? cs := by
  rw [natural?, List.isEmpty_map, Radix.value?_toLower, natural?]

theorem signed?_toLower (cs : List Char) : signed? (cs.map Char.toLower) = signed? cs := by
  cases cs with
  | nil => rfl
  | cons c cs =>
      have hminus : c.toLower = '-' ↔ c = '-' := Text.toLower_eq_iff (by decide)
      have hplus : c.toLower = '+' ↔ c = '+' := Text.toLower_eq_iff (by decide)
      have hall := natural?_toLower (c :: cs)
      rw [List.map_cons] at hall ⊢
      by_cases hc : c = '-'
      · simp [signed?, hc, natural?_toLower]
      · by_cases hd : c = '+'
        · simp [signed?, hd, natural?_toLower]
        · simp [signed?, hc, hd, hminus, hplus, hall]

theorem exponent?_toLower (cs : List Char) : exponent? (cs.map Char.toLower) = exponent? cs := by
  cases cs with
  | nil => rfl
  | cons c cs =>
      have hmark : (c.toLower == 'e' || c.toLower == 'E') = (c == 'e' || c == 'E') :=
        Text.apply_toLower (f := fun c => c == 'e' || c == 'E') (by decide +kernel) c
      rw [List.map_cons, exponent?, hmark, signed?_toLower, exponent?]

theorem splitFraction_toLower (cs : List Char) :
    splitFraction (cs.map Char.toLower) =
      Prod.map (List.map Char.toLower) (List.map Char.toLower) (splitFraction cs) := by
  cases cs with
  | nil => rfl
  | cons c cs =>
      have hdot : c.toLower = '.' ↔ c = '.' := Text.toLower_eq_iff (by decide)
      by_cases hc : c = '.'
      · simp [splitFraction, hc, List.takeWhile_map, List.dropWhile_map,
          Radix.isDigit_comp_toLower]
      · simp [splitFraction, hc, hdot]

theorem ofText?_toLower (cs : List Char) : ofText? (cs.map Char.toLower) = ofText? cs := by
  simp only [ofText?, List.takeWhile_map, List.dropWhile_map, Radix.isDigit_comp_toLower,
    splitFraction_toLower, Prod.map_fst, Prod.map_snd, ← List.map_append, natural?_toLower,
    exponent?_toLower, List.length_map]

end Decimal

theorem Glyph.startingAt_toLower (position : Nat) (spaced : Bool) (cs : List Char) :
    startingAt position spaced (cs.map Char.toLower) =
      (startingAt position spaced cs).map Glyph.lower := by
  induction cs generalizing position spaced with
  | nil => rfl
  | cons c cs ih =>
      rw [List.map_cons, startingAt, startingAt, Text.isBlank_toLower, ih, ih]
      split <;> rfl

namespace Scan

theorem operator?_lower (due : Bool) (c : Char) (gs : List Glyph) :
    operator? due c.toLower (gs.map Glyph.lower) =
      (operator? due c gs).map (Prod.map id (List.map Glyph.lower)) := by
  have hpaired : ((gs.map Glyph.lower).head?.bind fun g => pairedOperator? c.toLower g.char) =
      gs.head?.bind fun g => pairedOperator? c g.char := by
    cases gs with
    | nil => rfl
    | cons g gs => exact pairedOperator?_toLower c g.char
  rw [operator?, hpaired, operator?, singleOperator?_toLower]
  split
  · rw [← List.map_tail]
    rfl
  · rw [Option.map_map]
    rfl

theorem continuesWord_comp_lower : continuesWord ∘ Glyph.lower = continuesWord := by
  funext g
  simp [continuesWord, Glyph.lower, isWordChar_toLower]

theorem afterWord_lower (gs : List Glyph) :
    afterWord (gs.map Glyph.lower) = (afterWord gs).map Glyph.lower := by
  rw [afterWord, List.dropWhile_map, continuesWord_comp_lower, afterWord]

theorem wordText_lower (c : Char) (gs : List Glyph) :
    wordText c.toLower (gs.map Glyph.lower) = wordText c gs := by
  have hchars : (gs.map Glyph.lower).takeWhile continuesWord =
      (gs.takeWhile continuesWord).map Glyph.lower := by
    rw [List.takeWhile_map, continuesWord_comp_lower]
  have hsmall : Char.toLower ∘ Glyph.char ∘ Glyph.lower = Char.toLower ∘ Glyph.char := by
    funext g
    exact Text.toLower_toLower g.char
  rw [wordText, hchars, wordText, List.map_cons, List.map_cons, Text.toLower_toLower]
  rw [List.map_map, List.map_map, List.map_map, Function.comp_assoc, hsmall]

theorem opensParen_lower (gs : List Glyph) : opensParen (gs.map Glyph.lower) = opensParen gs := by
  cases gs with
  | nil => rfl
  | cons g gs =>
      exact Text.toLower_beq (by decide) g.char

theorem word_lower (due : Bool) (c : Char) (gs : List Glyph) :
    word due c.toLower (gs.map Glyph.lower) = (word due c gs).lower := by
  simp only [word, wordText_lower, afterWord_lower, opensParen_lower]
  split
  · rfl
  · split <;> rfl

theorem inRun_comp_lower (r : Radix) : inRun r ∘ Glyph.lower = inRun r := by
  funext g
  have hunderscore : (g.lower.char == '_') = (g.char == '_') := Text.toLower_beq (by decide) g.char
  rw [Function.comp_apply, inRun, hunderscore, inRun]
  exact congrArg (· || _) (r.isDigit_toLower g.char)

theorem runDigits_lower (r : Radix) (gs : List Glyph) :
    runDigits r (gs.map Glyph.lower) = (runDigits r gs).map Char.toLower := by
  have hchars : Glyph.char ∘ Glyph.lower = Char.toLower ∘ Glyph.char := rfl
  rw [runDigits, List.takeWhile_map, inRun_comp_lower, List.map_map, hchars, ← List.map_map,
    List.filter_map, Text.bne_underscore_comp_toLower, runDigits]

theorem afterRun_lower (r : Radix) (gs : List Glyph) :
    afterRun r (gs.map Glyph.lower) = (afterRun r gs).map Glyph.lower := by
  rw [afterRun, List.dropWhile_map, inRun_comp_lower, afterRun]

/-- Characters that were gathered and the glyphs after them, in small letters. -/
def lowerBoth : List Char × List Glyph → List Char × List Glyph :=
  Prod.map (List.map Char.toLower) (List.map Glyph.lower)

theorem fraction_lower (gs : List Glyph) :
    fraction (gs.map Glyph.lower) = lowerBoth (fraction gs) := by
  cases gs with
  | nil => rfl
  | cons g gs =>
      have hdot : (g.lower.char == '.') = (g.char == '.') :=
        Text.toLower_beq (by decide) g.char
      rw [List.map_cons, fraction, hdot, fraction, runDigits_lower, afterRun_lower]
      split <;> rfl

theorem sign_lower (gs : List Glyph) : sign (gs.map Glyph.lower) = lowerBoth (sign gs) := by
  cases gs with
  | nil => rfl
  | cons g gs =>
      have hsign :
          (g.lower.char == '+' || g.lower.char == '-') = (g.char == '+' || g.char == '-') :=
        Text.apply_toLower (f := fun c => c == '+' || c == '-') (by decide +kernel) g.char
      rw [List.map_cons, sign, hsign, sign]
      split <;> rfl

theorem exponent_lower (gs : List Glyph) :
    exponent (gs.map Glyph.lower) = lowerBoth (exponent gs) := by
  cases gs with
  | nil => rfl
  | cons g gs =>
      have hmark :
          (g.lower.char == 'e' || g.lower.char == 'E') = (g.char == 'e' || g.char == 'E') :=
        Text.apply_toLower (f := fun c => c == 'e' || c == 'E') (by decide +kernel) g.char
      rw [List.map_cons, exponent, hmark, exponent]
      split
      · simp [sign_lower, lowerBoth, runDigits_lower, afterRun_lower, Glyph.lower]
      · rfl

theorem decimalBody_lower (c : Char) (gs : List Glyph) :
    decimalBody c.toLower (gs.map Glyph.lower) = lowerBoth (decimalBody c gs) := by
  have hdot : (c.toLower == '.') = (c == '.') :=
    Text.toLower_beq (by decide) c
  simp only [decimalBody, hdot, runDigits_lower, afterRun_lower, fraction_lower]
  split <;> simp [exponent_lower, lowerBoth]

/-- What is found, in small letters. -/
def Found.lower : Found → Found
  | .ok (l, rest) => .ok (l.lower, rest.map Glyph.lower)
  | .error e => .error e.lower

theorem markedNumeral_lower (r : Radix) (position : Nat) (gs : List Glyph) :
    markedNumeral r position (gs.map Glyph.lower) = (markedNumeral r position gs).lower := by
  simp only [markedNumeral, runDigits_lower, afterRun_lower, List.isEmpty_map,
    Text.ofList_map_toLower]
  split <;> rfl

theorem bareNumeral_lower (radix : Radix) (position : Nat) (c : Char) (gs : List Glyph) :
    bareNumeral radix position c.toLower (gs.map Glyph.lower) =
      (bareNumeral radix position c gs).lower := by
  simp only [bareNumeral, decimalBody_lower, lowerBoth, Prod.map_fst, Prod.map_snd,
    Decimal.ofText?_toLower, Text.ofList_map_toLower, List.all_map, Radix.isDigit_comp_toLower]
  split <;> rfl

theorem announcedRadix?_lower (c : Char) (gs : List Glyph) :
    announcedRadix? c.toLower (gs.map Glyph.lower) = announcedRadix? c gs := by
  have hzero : (c.toLower == '0') = (c == '0') :=
    Text.toLower_beq (by decide) c
  rw [announcedRadix?, hzero, announcedRadix?]
  cases gs with
  | nil => rfl
  | cons g gs => simp [Glyph.lower, Radix.ofMarkLetter?_toLower]

theorem numeral_lower (radix : Radix) (position : Nat) (c : Char) (gs : List Glyph) :
    numeral radix position c.toLower (gs.map Glyph.lower) =
      (numeral radix position c gs).lower := by
  rw [numeral, announcedRadix?_lower, numeral]
  split
  · rw [← List.map_tail, markedNumeral_lower]
  · rw [bareNumeral_lower]

theorem startsNumeral_lower (c : Char) (gs : List Glyph) :
    startsNumeral c.toLower (gs.map Glyph.lower) = startsNumeral c gs := by
  have hdot : (c.toLower == '.') = (c == '.') :=
    Text.toLower_beq (by decide) c
  rw [startsNumeral, Radix.isDigit_toLower, hdot, startsNumeral]
  cases gs with
  | nil => rfl
  | cons g gs => simp [Glyph.lower, Radix.isDigit_toLower]

theorem lower_of_delimiter? {c : Char} {l : Lexeme} (h : delimiter? c = some l) : l.lower = l := by
  unfold delimiter? at h
  split at h <;> cases h <;> rfl

theorem lexeme_lower (radix : Radix) (due : Bool) (g : Glyph) (gs : List Glyph) :
    lexeme radix due g.lower (gs.map Glyph.lower) = (lexeme radix due g gs).lower := by
  have hdelimiter : delimiter? g.lower.char = delimiter? g.char := delimiter?_toLower g.char
  have hword : isWordChar g.lower.char = isWordChar g.char := isWordChar_toLower g.char
  have hdigit : Radix.dec.isDigit g.lower.char = Radix.dec.isDigit g.char :=
    Radix.dec.isDigit_toLower g.char
  have hstarts : startsNumeral g.lower.char (gs.map Glyph.lower) = startsNumeral g.char gs :=
    startsNumeral_lower g.char gs
  rw [lexeme, hdelimiter, hword, hdigit, hstarts, lexeme]
  cases hl : delimiter? g.char with
  | some l => rw [Found.lower, lower_of_delimiter? hl]
  | none =>
      have hoperator := operator?_lower due g.char gs
      rw [show operator? due g.lower.char (gs.map Glyph.lower) = _ from hoperator]
      cases operator? due g.char gs with
      | some x => rfl
      | none =>
          dsimp only [Option.map_none]
          split
          · rw [Found.lower, ← word_lower, ← afterWord_lower]
            rfl
          · split
            · exact numeral_lower radix g.position g.char gs
            · rfl

theorem tokens_lower (radix : Radix) (due : Bool) (gs : List Glyph) :
    tokens radix due (gs.map Glyph.lower) =
      ((tokens radix due gs).map (List.map Token.lower)).mapError LexError.lower := by
  induction hlength : gs.length using Nat.strongRecOn generalizing due gs with
  | ind n ih =>
      cases gs with
      | nil =>
          rw [List.map_nil, tokens_nil]
          rfl
      | cons g gs =>
          rw [List.map_cons, tokens_cons, tokens_cons, lexeme_lower]
          cases hl : lexeme radix due g gs with
          | error e => rfl
          | ok x =>
              obtain ⟨l, rest⟩ := x
              have hlt : rest.length < n := by
                rw [← hlength, List.length_cons]
                exact Nat.lt_succ_of_le (lexeme_suffix hl).length_le
              show (tokens radix l.lower.expectsOperand (rest.map _)).map _ =
                (((tokens radix l.expectsOperand rest).map _).map _).mapError _
              rw [Lexeme.expectsOperand_lower, ih _ hlt l.expectsOperand rest rfl]
              cases tokens radix l.expectsOperand rest <;> rfl

end Scan

/-- A text in small letters has the tokens of the text in small letters. -/
theorem tokenize_toLower (radix : Radix) (text : String) :
    tokenize radix text.toLower =
      ((tokenize radix text).map (List.map Token.lower)).mapError LexError.lower := by
  rw [tokenize, Glyph.ofText, Text.toList_toLower, Glyph.startingAt_toLower, Scan.tokens_lower]
  rfl

end Reckon
