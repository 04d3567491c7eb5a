import Reckon.Decimal
import Reckon.Token.Basic

/-!
# Scanning

A text becomes tokens glyph by glyph. At each place a delimiter is tried first, then an operator of
two characters, one of a single character, a word and a numeral; what is none of these is an error
at that place. All that is carried from one token to the next is whether an operand is due, which
tells a sign from a sum and a call of `xor` from the operator.

Each reader returns the glyphs after its token. They are an end of those it was given, and so the
scan terminates.
-/

namespace Reckon.Scan

/-- What a reader finds: a lexeme, and the glyphs after it. -/
abbrev Found := Except LexError (Lexeme × List Glyph)

def delimiter? : Char → Option Lexeme
  | '(' => some .leftParen
  | ')' => some .rightParen
  | ',' => some .comma
  | _ => none

def pairedOperator? : Char → Char → Option BinaryOp
  | '*', '*' => some .doubleStar
  | '<', '<' => some .shiftLeft
  | '>', '>' => some .shiftRight
  | _, _ => none

def singleOperator? (operandDue : Bool) : Char → Option Operator
  | '+' => some (if operandDue then .unary .plus else .binary .add)
  | '-' => some (if operandDue then .unary .minus else .binary .sub)
  | '*' => some (.binary .mul)
  | '/' => some (.binary .div)
  | '%' => some (.binary .mod)
  | '^' => some (.binary .caret)
  | '&' => some (.binary .bitAnd)
  | '|' => some (.binary .bitOr)
  | '~' => some (.unary .complement)
  | _ => none

/-- The operator that starts with `c` before the given glyphs, the longer one if there are two. -/
def operator? (operandDue : Bool) (c : Char) (gs : List Glyph) : Option (Operator × List Glyph) :=
  match gs.head?.bind fun g => pairedOperator? c g.char with
  | some op => some (.binary op, gs.tail)
  | none => (singleOperator? operandDue c).map (·, gs)

/-- The ASCII letters and digits, and the underscore. -/
def isWordChar (c : Char) : Bool :=
  c.isAlphanum || c == '_'

/-- Whether the glyph goes on with the word before it. -/
def continuesWord (g : Glyph) : Bool :=
  isWordChar g.char && !g.spaced

/-- What follows the word at the start. -/
def afterWord (gs : List Glyph) : List Glyph :=
  gs.dropWhile continuesWord

/-- The word that starts with `c`, its letters made small. -/
def wordText (c : Char) (gs : List Glyph) : String :=
  String.ofList ((c :: (gs.takeWhile continuesWord).map Glyph.char).map Char.toLower)

/-- Whether an opening parenthesis comes next. -/
def opensParen (gs : List Glyph) : Bool :=
  gs.head?.any fun g => g.char == '('

/-- What a word is: the operator `xor`, a call head, or a name. As a call head `xor` is met only
where an operand is due. -/
def word (operandDue : Bool) (c : Char) (gs : List Glyph) : Lexeme :=
  let name := wordText c gs
  let called := opensParen (afterWord gs)
  if name == "xor" && !(called && operandDue) then .operator (.binary .bitXor)
  else if called then .callHead name
  else .name name

/-- Whether the glyph belongs to a run of digits, which underscores may divide. -/
def inRun (r : Radix) (g : Glyph) : Bool :=
  r.isDigit g.char || g.char == '_'

/-- The digits of the run at the start, without its underscores. -/
def runDigits (r : Radix) (gs : List Glyph) : List Char :=
  ((gs.takeWhile (inRun r)).map Glyph.char).filter (· != '_')

/-- What follows the run at the start. -/
def afterRun (r : Radix) (gs : List Glyph) : List Glyph :=
  gs.dropWhile (inRun r)

/-- The numeral after a radix mark. -/
def markedNumeral (r : Radix) (position : Nat) (gs : List Glyph) : Found :=
  let digits := runDigits r gs
  if digits.isEmpty then .error ⟨.malformedDigits r, position⟩
  else .ok (.number { text := String.ofList digits, radix := r, marked := true }, afterRun r gs)

/-- A point with the run of digits after it, or nothing. -/
def fraction : List Glyph → List Char × List Glyph
  | g :: gs => if g.char == '.' then ('.' :: runDigits .dec gs, afterRun .dec gs) else ([], g :: gs)
  | [] => ([], [])

/-- A sign, or nothing. -/
def sign : List Glyph → List Char × List Glyph
  | g :: gs => if g.char == '+' || g.char == '-' then ([g.char], gs) else ([], g :: gs)
  | [] => ([], [])

/-- An exponent with its mark and sign, or nothing. Its digits may be missing. -/
def exponent : List Glyph → List Char × List Glyph
  | g :: gs =>
    if g.char == 'e' || g.char == 'E' then
      let (s, rest) := sign gs
      (g.char :: s ++ runDigits .dec rest, afterRun .dec rest)
    else ([], g :: gs)
  | [] => ([], [])

/-- The characters of a decimal numeral that starts with `c`, a digit or the point. -/
def decimalBody (c : Char) (gs : List Glyph) : List Char × List Glyph :=
  let whole := if c == '.' then [] else runDigits .dec gs
  let (frac, rest) :=
    if c == '.' then (runDigits .dec gs, afterRun .dec gs) else fraction (afterRun .dec gs)
  let (exp, rest) := exponent rest
  (c :: whole ++ frac ++ exp, rest)

/-- A numeral without a radix mark. With a point or an exponent it is decimal, else it is in the
given radix. -/
def bareNumeral (radix : Radix) (position : Nat) (c : Char) (gs : List Glyph) : Found :=
  let (body, rest) := decimalBody c gs
  if (Decimal.ofText? body).isNone then .error ⟨.malformedNumber (String.ofList body), position⟩
  else
    let fractional := !body.all Radix.dec.isDigit
    .ok (.number { text := String.ofList body, radix := if fractional then .dec else radix,
                   fractional }, rest)

/-- The radix that a zero and the next glyph announce. -/
def announcedRadix? (c : Char) (gs : List Glyph) : Option Radix :=
  if c == '0' then gs.head?.bind fun g => Radix.ofMarkLetter? g.char else none

def numeral (radix : Radix) (position : Nat) (c : Char) (gs : List Glyph) : Found :=
  match announcedRadix? c gs with
  | some r => markedNumeral r position gs.tail
  | none => bareNumeral radix position c gs

/-- Whether a numeral starts here: with a digit, or with a point before one. -/
def startsNumeral (c : Char) (gs : List Glyph) : Bool :=
  Radix.dec.isDigit c || (c == '.' && gs.head?.any fun g => Radix.dec.isDigit g.char)

/-- The lexeme that starts with `g`. -/
def lexeme (radix : Radix) (operandDue : Bool) (g : Glyph) (gs : List Glyph) : Found :=
  match delimiter? g.char, operator? operandDue g.char gs with
  | some l, _ => .ok (l, gs)
  | none, some (op, rest) => .ok (.operator op, rest)
  | none, none =>
    if isWordChar g.char && !Radix.dec.isDigit g.char then
      .ok (word operandDue g.char gs, afterWord gs)
    else if startsNumeral g.char gs then numeral radix g.position g.char gs
    else .error ⟨.unexpected g.char, g.position⟩

/-! ## What a reader leaves is an end of what it was given

`tokens` goes on with the glyphs that `lexeme` leaves, so it ends only if they are no more than
those it was given. The readers do not hand on a bound on the length but that the rest is a suffix:
it chains where one reader is made of others, later proofs need it as it stands, and the length
follows from it once, in `tokens`. -/

theorem operator?_suffix {due : Bool} {c : Char} {gs rest : List Glyph} {op : Operator}
    (h : operator? due c gs = some (op, rest)) : rest <:+ gs := by
  unfold operator? at h
  split at h
  · cases h
    exact List.tail_suffix gs
  · simp only [Option.map_eq_some_iff, Prod.mk.injEq] at h
    obtain ⟨_, _, _, rfl⟩ := h
    exact List.suffix_refl _

theorem afterWord_suffix (gs : List Glyph) : afterWord gs <:+ gs :=
  List.dropWhile_suffix _

theorem afterRun_suffix (r : Radix) (gs : List Glyph) : afterRun r gs <:+ gs :=
  List.dropWhile_suffix _

theorem fraction_suffix (gs : List Glyph) : (fraction gs).2 <:+ gs := by
  unfold fraction
  split
  · split
    · exact (afterRun_suffix _ _).trans (List.suffix_cons _ _)
    · exact List.suffix_refl _
  · exact List.suffix_refl _

theorem sign_suffix (gs : List Glyph) : (sign gs).2 <:+ gs := by
  unfold sign
  split
  · split
    · exact List.suffix_cons _ _
    · exact List.suffix_refl _
  · exact List.suffix_refl _

theorem exponent_suffix (gs : List Glyph) : (exponent gs).2 <:+ gs := by
  unfold exponent
  split
  · split
    · exact ((afterRun_suffix _ _).trans (sign_suffix _)).trans (List.suffix_cons _ _)
    · exact List.suffix_refl _
  · exact List.suffix_refl _

theorem decimalBody_suffix (c : Char) (gs : List Glyph) : (decimalBody c gs).2 <:+ gs := by
  unfold decimalBody
  dsimp only
  refine (exponent_suffix _).trans ?_
  split
  · exact afterRun_suffix _ _
  · exact (fraction_suffix _).trans (afterRun_suffix _ _)

theorem numeral_suffix {radix : Radix} {position : Nat} {c : Char} {gs rest : List Glyph}
    {l : Lexeme} (h : numeral radix position c gs = .ok (l, rest)) : rest <:+ gs := by
  unfold numeral at h
  split at h
  · unfold markedNumeral at h
    dsimp only at h
    split at h
    · cases h
    · cases h
      exact (afterRun_suffix _ _).trans (List.tail_suffix _)
  · unfold bareNumeral at h
    dsimp only at h
    split at h
    · cases h
    · cases h
      exact decimalBody_suffix _ _

theorem lexeme_suffix {radix : Radix} {due : Bool} {g : Glyph} {gs rest : List Glyph} {l : Lexeme}
    (h : lexeme radix due g gs = .ok (l, rest)) : rest <:+ gs := by
  unfold lexeme at h
  split at h
  · cases h
    exact List.suffix_refl _
  · next hop =>
    cases h
    exact operator?_suffix hop
  · split at h
    · cases h
      exact afterWord_suffix _
    · split at h
      · exact numeral_suffix h
      · cases h

/-- The tokens of a row of glyphs. -/
def tokens (radix : Radix) (operandDue : Bool) : List Glyph → Except LexError (List Token)
  | [] => .ok []
  | g :: gs =>
    match h : lexeme radix operandDue g gs with
    | .error e => .error e
    | .ok (l, rest) => do
      have : rest.length ≤ gs.length := (lexeme_suffix h).length_le
      return ⟨l, g.position⟩ :: (← tokens radix l.expectsOperand rest)
termination_by gs => gs.length

end Reckon.Scan

namespace Reckon

/-- The tokens of a text. Integral numerals without a mark are taken to be in the given radix. -/
def tokenize (radix : Radix) (text : String) : Except LexError (List Token) :=
  Scan.tokens radix true (Glyph.ofText text.toList)

end Reckon
