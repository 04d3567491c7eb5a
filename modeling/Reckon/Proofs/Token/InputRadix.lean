import Reckon.Proofs.Token.Reading
import Reckon.Proofs.YardNumerals

/-!
# Scanning in two radixes

The radix that a scan is given is written on the integral numerals without a mark, and is used for
nothing else: what belongs to a numeral, what is refused and where the next token begins is settled
before the radix is looked at. So the scans of a text in two radixes go through the same readings.
-/

namespace Reckon

/-- The same numeral, but an integral one without a mark in the one radix and in the other. -/
inductive Numeral.Rebased (r r' : Radix) : Numeral → Numeral → Prop
  | bare {text : String} : Rebased r r' { text, radix := r } { text, radix := r' }
  | fixed {n : Numeral} : n.marked = true ∨ n.fractional = true → Rebased r r' n n

/-- Lexemes in the relation, at one place. -/
def Token.Related (R : Numeral → Numeral → Prop) (t u : Token) : Prop :=
  t.position = u.position ∧ t.lexeme.Related R u.lexeme

variable {r r' : Radix}

theorem Lexeme.Related.expectsOperand_eq {R : Numeral → Numeral → Prop} {l l' : Lexeme}
    (h : l.Related R l') : l'.expectsOperand = l.expectsOperand := by
  cases l with
  | number n =>
      cases l' with
      | number m => rfl
      | name _ | callHead _ | operator _ | leftParen | rightParen | comma => cases h
  | name _ | callHead _ | operator _ | leftParen | rightParen | comma => cases h; rfl

namespace Scan

/-- What two readers find: related lexemes, and the same glyphs after them. -/
abbrev Found.Related (r r' : Radix) : Found → Found → Prop :=
  Agree fun x y => x.1.Related (Numeral.Rebased r r') y.1 ∧ x.2 = y.2

theorem markedNumeral_related (s : Radix) (position : Nat) (gs : List Glyph) :
    Found.Related r r' (markedNumeral s position gs) (markedNumeral s position gs) := by
  unfold markedNumeral
  dsimp only
  split
  · exact .error _
  · exact .ok ⟨.fixed (.inl rfl), rfl⟩

theorem bareNumeral_related (position : Nat) (c : Char) (gs : List Glyph) :
    Found.Related r r' (bareNumeral r position c gs) (bareNumeral r' position c gs) := by
  unfold bareNumeral
  dsimp only
  split
  · exact .error _
  · split
    · next h => exact .ok ⟨.fixed (.inr h), rfl⟩
    · next h =>
        rw [eq_false_of_ne_true h]
        exact .ok ⟨.bare, rfl⟩

theorem numeral_related (position : Nat) (c : Char) (gs : List Glyph) :
    Found.Related r r' (numeral r position c gs) (numeral r' position c gs) := by
  unfold numeral
  split
  · exact markedNumeral_related _ _ _
  · exact bareNumeral_related _ _ _

theorem related_delimiter? {c : Char} {l : Lexeme} (h : delimiter? c = some l) :
    l.Related (Numeral.Rebased r r') l := by
  unfold delimiter? at h
  split at h <;> cases h <;> rfl

theorem related_word (due : Bool) (c : Char) (gs : List Glyph) :
    (word due c gs).Related (Numeral.Rebased r r') (word due c gs) := by
  unfold word
  dsimp only
  split
  · rfl
  · split <;> rfl

theorem lexeme_related (due : Bool) (g : Glyph) (gs : List Glyph) :
    Found.Related r r' (lexeme r due g gs) (lexeme r' due g gs) := by
  unfold lexeme
  split
  · next hdelimiter => exact .ok ⟨related_delimiter? hdelimiter, rfl⟩
  · exact .ok ⟨rfl, rfl⟩
  · split
    · exact .ok ⟨related_word due g.char gs, rfl⟩
    · split
      · exact numeral_related _ _ _
      · exact .error _

/-- The two scans find the same tokens, or stop at the same error. -/
theorem tokens_related (due : Bool) (gs : List Glyph) :
    Agree (List.Forall₂ (Token.Related (Numeral.Rebased r r'))) (tokens r due gs)
      (tokens r' due gs) := by
  induction hlength : gs.length using Nat.strongRecOn generalizing due gs with
  | ind n ih =>
      cases gs with
      | nil =>
          rw [tokens_nil, tokens_nil]
          exact .ok .nil
      | cons g gs =>
          have hlexeme : Found.Related r r' _ _ := lexeme_related due g gs
          rw [tokens_cons, tokens_cons]
          cases hl : lexeme r due g gs with
          | error e =>
              rw [hl] at hlexeme
              generalize lexeme r' due g gs = found at hlexeme
              cases hlexeme
              exact .error e
          | ok x =>
              obtain ⟨l, rest⟩ := x
              rw [hl] at hlexeme
              obtain ⟨⟨l', _⟩, hl', hrelated, rfl⟩ := hlexeme.of_ok
              have hlt : rest.length < n := by
                rw [← hlength, List.length_cons]
                exact Nat.lt_succ_of_le (lexeme_suffix hl).length_le
              rw [hl']
              show Agree _ ((tokens r l.expectsOperand rest).map _)
                ((tokens r' l'.expectsOperand rest).map _)
              rw [hrelated.expectsOperand_eq]
              exact (ih _ hlt l.expectsOperand rest rfl).map fun _ _ h => .cons ⟨rfl, hrelated⟩ h

end Scan

theorem tokenize_related (text : String) :
    Agree (List.Forall₂ (Token.Related (Numeral.Rebased r r'))) (tokenize r text)
      (tokenize r' text) :=
  Scan.tokens_related true _

end Reckon
