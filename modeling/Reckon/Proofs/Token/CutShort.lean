import Reckon.Proofs.Token.Lossless

/-!
# Rows that are cut short

`Reads.extended` goes on with a row of glyphs; here a row is cut. A reader looks ahead, but what it
leaves it has looked at only to see that its lexeme does not go on there, and at the end of a row no
lexeme goes on. So if `tail` is among what is left of a row, the reader takes the same from the row
without it (`Reads.cut`). There is one exception, since a parenthesis behind a word makes the word a
call head: `tail` must not begin with it.

The readers are taken one by one. That the tail is left is known only of the last thing that a
reader does, and passes to what it has done before because everything left is an end of what was
there.
-/

namespace Reckon.Scan

variable {radix : Radix} {due due' : Bool} {gs rest tail : List Glyph} {l : Lexeme}

theorem not_suffix_of_shorter {g : Glyph} (h : rest <:+ gs) : ¬ g :: gs <:+ rest := by
  intro hsuffix
  have hle := (hsuffix.trans h).length_le
  rw [List.length_cons] at hle
  omega

theorem span_cut {p : Glyph → Bool} (h : tail <:+ (gs ++ tail).dropWhile p) :
    (gs ++ tail).takeWhile p = gs.takeWhile p ∧
      (gs ++ tail).dropWhile p = gs.dropWhile p ++ tail := by
  induction gs with
  | nil =>
      cases tail with
      | nil => exact ⟨rfl, rfl⟩
      | cons t tail =>
          cases ht : p t with
          | true =>
              rw [List.nil_append, List.dropWhile_cons_of_pos ht] at h
              exact absurd h (not_suffix_of_shorter (List.dropWhile_suffix p))
          | false => simp [ht]
  | cons g gs ih =>
      cases hg : p g with
      | true =>
          rw [List.cons_append, List.dropWhile_cons_of_pos hg] at h
          obtain ⟨htake, hdrop⟩ := ih h
          simp [hg, htake, hdrop]
      | false => simp [hg]

theorem run_cut {r : Radix} (h : tail <:+ afterRun r (gs ++ tail)) :
    runDigits r (gs ++ tail) = runDigits r gs ∧
      afterRun r (gs ++ tail) = afterRun r gs ++ tail := by
  obtain ⟨htake, hdrop⟩ := span_cut h
  exact ⟨by rw [runDigits, htake, runDigits], hdrop⟩

theorem fraction_cut (h : tail <:+ (fraction (gs ++ tail)).2) :
    fraction (gs ++ tail) = ((fraction gs).1, (fraction gs).2 ++ tail) := by
  cases gs with
  | nil =>
      cases tail with
      | nil => rfl
      | cons t tail =>
          cases ht : t.char == '.' with
          | true =>
              simp only [List.nil_append, fraction, ht, if_true] at h
              exact absurd h (not_suffix_of_shorter (afterRun_suffix _ _))
          | false => simp [fraction, ht]
  | cons g gs =>
      cases hg : g.char == '.' with
      | true =>
          simp only [List.cons_append, fraction, hg, if_true] at h ⊢
          obtain ⟨hdigits, hafter⟩ := run_cut h
          rw [hdigits, hafter]
      | false => simp [fraction, hg]

theorem sign_cut (h : tail <:+ (sign (gs ++ tail)).2) :
    sign (gs ++ tail) = ((sign gs).1, (sign gs).2 ++ tail) := by
  cases gs with
  | nil =>
      cases tail with
      | nil => rfl
      | cons t tail =>
          cases ht : t.char == '+' || t.char == '-' with
          | true =>
              simp only [List.nil_append, sign, ht, if_true] at h
              exact absurd h (not_suffix_of_shorter (List.suffix_refl _))
          | false => simp [sign, ht]
  | cons g gs =>
      cases hg : g.char == '+' || g.char == '-' with
      | true => simp [sign, hg]
      | false => simp [sign, hg]

theorem exponent_cut (h : tail <:+ (exponent (gs ++ tail)).2) :
    exponent (gs ++ tail) = ((exponent gs).1, (exponent gs).2 ++ tail) := by
  cases gs with
  | nil =>
      cases tail with
      | nil => rfl
      | cons t tail =>
          cases ht : t.char == 'e' || t.char == 'E' with
          | true =>
              simp only [List.nil_append, exponent, ht, if_true] at h
              exact absurd h
                (not_suffix_of_shorter ((afterRun_suffix _ _).trans (sign_suffix _)))
          | false => simp [exponent, ht]
  | cons g gs =>
      cases hg : g.char == 'e' || g.char == 'E' with
      | true =>
          simp only [List.cons_append, exponent, hg, if_true] at h ⊢
          have hsign := sign_cut (h.trans (afterRun_suffix _ _))
          rw [hsign] at h ⊢
          obtain ⟨hdigits, hafter⟩ := run_cut h
          rw [hdigits, hafter]
      | false => simp [exponent, hg]

theorem decimalBody_cut {c : Char} (h : tail <:+ (decimalBody c (gs ++ tail)).2) :
    decimalBody c (gs ++ tail) = ((decimalBody c gs).1, (decimalBody c gs).2 ++ tail) := by
  cases hc : c == '.' with
  | true =>
      simp only [decimalBody, hc, if_true] at h ⊢
      obtain ⟨hdigits, hafter⟩ := run_cut (h.trans (exponent_suffix _))
      rw [hafter] at h
      rw [hdigits, hafter, exponent_cut h]
  | false =>
      simp only [decimalBody, hc, Bool.false_eq_true, if_false] at h ⊢
      have hfraction := h.trans (exponent_suffix _)
      obtain ⟨hdigits, hafter⟩ := run_cut (hfraction.trans (fraction_suffix _))
      rw [hafter] at h hfraction ⊢
      rw [fraction_cut hfraction] at h
      rw [hdigits, fraction_cut hfraction, exponent_cut h]

section

variable {position : Nat} {c : Char}

theorem bareNumeral_rest (h : bareNumeral radix position c gs = .ok (l, rest)) :
    rest = (decimalBody c gs).2 := by
  unfold bareNumeral at h
  dsimp only at h
  split at h
  · cases h
  · cases h
    rfl

theorem bareNumeral_cut (h : bareNumeral radix position c (gs ++ tail) = .ok (l, rest))
    (htail : tail <:+ rest) :
    ∃ rest', rest = rest' ++ tail ∧ bareNumeral radix position c gs = .ok (l, rest') := by
  unfold bareNumeral at h ⊢
  dsimp only at h ⊢
  split at h
  · cases h
  · next hsome =>
      cases h
      have hbody := decimalBody_cut htail
      rw [hbody] at hsome ⊢
      exact ⟨_, rfl, by rw [if_neg hsome]⟩

theorem markedNumeral_cut {r : Radix}
    (h : markedNumeral r position (gs ++ tail) = .ok (l, rest)) (htail : tail <:+ rest) :
    ∃ rest', rest = rest' ++ tail ∧ markedNumeral r position gs = .ok (l, rest') := by
  unfold markedNumeral at h ⊢
  dsimp only at h ⊢
  split at h
  · cases h
  · next hne =>
      cases h
      obtain ⟨hdigits, hafter⟩ := run_cut htail
      rw [hdigits] at hne ⊢
      rw [hafter]
      exact ⟨_, rfl, by rw [if_neg hne]⟩

theorem markedNumeral_suffix {r : Radix} (h : markedNumeral r position gs = .ok (l, rest)) :
    rest <:+ gs := by
  unfold markedNumeral at h
  dsimp only at h
  split at h
  · cases h
  · cases h
    exact afterRun_suffix _ _

/-- The letter of a mark is not in the tail, since it is never left. -/
theorem announcedRadix?_cut (h : numeral radix position c (gs ++ tail) = .ok (l, rest))
    (htail : tail <:+ rest) : announcedRadix? c (gs ++ tail) = announcedRadix? c gs := by
  cases gs with
  | cons g gs => rfl
  | nil =>
      rw [List.nil_append] at h ⊢
      have hnil : announcedRadix? c [] = none := announcedRadix?_eq_none (by simp)
      rw [hnil, Option.eq_none_iff_forall_ne_some]
      intro r hannounced
      rw [numeral, hannounced] at h
      obtain ⟨-, m, gs, rfl, -⟩ := announcedRadix?_eq_some hannounced
      exact not_suffix_of_shorter (markedNumeral_suffix h) htail

theorem numeral_cut (h : numeral radix position c (gs ++ tail) = .ok (l, rest))
    (htail : tail <:+ rest) :
    ∃ rest', rest = rest' ++ tail ∧ numeral radix position c gs = .ok (l, rest') := by
  have hradix := announcedRadix?_cut h htail
  unfold numeral at h ⊢
  rw [hradix] at h
  cases hannounced : announcedRadix? c gs with
  | none =>
      rw [hannounced] at h
      exact bareNumeral_cut h htail
  | some r =>
      rw [hannounced] at h
      obtain ⟨-, m, gs, rfl, -⟩ := announcedRadix?_eq_some hannounced
      exact markedNumeral_cut h htail

end

/-! ## Lexemes

What a reader leaves it may have looked at all the same. An operator of one character is found only
after the next glyph did not make it one of two, and a point is a numeral only in front of a digit.
The first is no trouble: a glyph that made no pair is not missed. The second is, since the digit may
stand in the tail; but then it would have been taken, and the tail would not be left whole
(`startsNumeral_cut`). -/

theorem operator?_eq_none_iff {c : Char} : operator? due c gs = none ↔
    (∀ g ∈ gs.head?, pairedOperator? c g.char = none) ∧ singleOperator? due c = none := by
  have hpair : (gs.head?.bind fun g => pairedOperator? c g.char) = none ↔
      ∀ g ∈ gs.head?, pairedOperator? c g.char = none := by
    cases gs with
    | nil => simp
    | cons g gs => simp
  rw [← hpair]
  unfold operator?
  split
  · next hsome => simp [hsome]
  · next hnone => simp [hnone]

theorem operator?_cut_none {c : Char} (h : operator? due c (gs ++ tail) = none) :
    operator? due c gs = none := by
  obtain ⟨hpaired, hsingle⟩ := operator?_eq_none_iff.mp h
  refine operator?_eq_none_iff.mpr ⟨fun g hg => hpaired g ?_, hsingle⟩
  rw [List.head?_append, hg]
  rfl

theorem operator?_cut {c : Char} {op : Operator}
    (h : operator? due c (gs ++ tail) = some (op, rest)) (htail : tail <:+ rest) :
    ∃ rest', rest = rest' ++ tail ∧ operator? due c gs = some (op, rest') := by
  unfold operator? at h ⊢
  split at h
  · next pair hpair =>
      cases h
      cases gs with
      | cons g gs =>
          rw [List.cons_append, List.head?_cons] at hpair
          exact ⟨gs, rfl, by rw [List.head?_cons, hpair]; rfl⟩
      | nil =>
          cases tail with
          | nil => cases hpair
          | cons t tail => exact absurd htail (not_suffix_of_shorter (List.suffix_refl _))
  · next hpair =>
      rw [Option.map_eq_some_iff] at h
      obtain ⟨op, hop, h⟩ := h
      cases h
      refine ⟨gs, rfl, ?_⟩
      cases gs with
      | cons g gs =>
          rw [List.cons_append, List.head?_cons] at hpair
          rw [List.head?_cons, hpair, hop]
          rfl
      | nil =>
          rw [hop]
          rfl

/-- A point at the end of the row is no numeral, though a digit may stand in the tail. -/
theorem startsNumeral_cut {position : Nat} {c : Char}
    (hstarts : startsNumeral c (gs ++ tail) = true)
    (h : numeral radix position c (gs ++ tail) = .ok (l, rest)) (htail : tail <:+ rest) :
    startsNumeral c gs = true := by
  rcases startsNumeral_eq_true hstarts with hdigit | ⟨rfl, hdigits⟩
  · rw [startsNumeral, hdigit, Bool.true_or]
  · cases gs with
    | cons g gs => exact hstarts
    | nil =>
        have hrest : rest = (exponent (afterRun .dec ([] ++ tail))).2 := bareNumeral_rest h
        rw [hrest] at htail
        exact absurd (run_cut (htail.trans (exponent_suffix _))).1 hdigits

/-- What follows a word is looked at for a parenthesis. -/
theorem word_cut (hparen : ∀ t ∈ tail.head?, t.char ≠ '(') (due : Bool) (c : Char)
    (h : tail <:+ afterWord (gs ++ tail)) :
    word due c (gs ++ tail) = word due c gs ∧ afterWord (gs ++ tail) = afterWord gs ++ tail := by
  obtain ⟨htake, hdrop⟩ := span_cut h
  have hopens : opensParen (afterWord (gs ++ tail)) = opensParen (afterWord gs) := by
    rw [show afterWord (gs ++ tail) = afterWord gs ++ tail from hdrop]
    cases afterWord gs with
    | cons g gs => rfl
    | nil =>
        cases tail with
        | nil => rfl
        | cons t tail => simpa [opensParen] using hparen t rfl
  exact ⟨by rw [word, wordText, htake, hopens, word, wordText], hdrop⟩

theorem lexeme_cut {g : Glyph} (hparen : ∀ t ∈ tail.head?, t.char ≠ '(')
    (h : lexeme radix due g (gs ++ tail) = .ok (l, rest)) (htail : tail <:+ rest) :
    ∃ rest', rest = rest' ++ tail ∧ lexeme radix due g gs = .ok (l, rest') := by
  unfold lexeme at h ⊢
  cases hdelimiter : delimiter? g.char with
  | some l' =>
      rw [hdelimiter] at h
      cases h
      exact ⟨gs, rfl, rfl⟩
  | none =>
      rw [hdelimiter] at h
      cases hop : operator? due g.char (gs ++ tail) with
      | some x =>
          obtain ⟨op, mid⟩ := x
          rw [hop] at h
          cases h
          obtain ⟨rest', hrest, hcut⟩ := operator?_cut hop htail
          exact ⟨rest', hrest, by rw [hcut]⟩
      | none =>
          rw [hop] at h
          rw [operator?_cut_none hop]
          dsimp only at h ⊢
          split at h
          · next hword =>
              cases h
              obtain ⟨hcut, hafter⟩ := word_cut hparen due g.char htail
              exact ⟨_, hafter, by rw [if_pos hword, hcut]⟩
          · next hword =>
              rw [if_neg hword]
              split at h
              · next hstarts =>
                  rw [if_pos (startsNumeral_cut hstarts h htail)]
                  exact numeral_cut h htail
              · cases h

theorem Reads.suffix {ts : List Token} (h : Reads radix due gs ts due' rest) : rest <:+ gs := by
  induction h with
  | done => exact List.suffix_refl _
  | token hl _ ih => exact (ih.trans (lexeme_suffix hl)).trans (List.suffix_cons _ _)

/-- What has been read up to a place is read without what follows. -/
theorem Reads.cut {ts : List Token} (hparen : ∀ t ∈ tail.head?, t.char ≠ '(')
    (h : Reads radix due (gs ++ tail) ts due' tail) : Reads radix due gs ts due' [] := by
  generalize hrow : gs ++ tail = row at h
  generalize htail : tail = rest at h
  induction h generalizing gs with
  | @done due row =>
      subst htail
      rw [List.append_left_eq_self.mp hrow]
      exact .done
  | @token due due' g row mid rest l ts hl hreads ih =>
      subst htail
      cases gs with
      | nil =>
          -- What has been read is not left, so a row that is all left has no token before it.
          rw [List.nil_append] at hrow
          rw [hrow] at hreads
          exact absurd hreads.suffix (not_suffix_of_shorter (lexeme_suffix hl))
      | cons g' gs =>
          obtain ⟨rfl, rfl⟩ := List.cons.inj hrow
          obtain ⟨mid', rfl, hcut⟩ := lexeme_cut hparen hl hreads.suffix
          exact .token hcut (ih rfl rfl)

end Reckon.Scan
