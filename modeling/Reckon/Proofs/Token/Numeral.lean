import Reckon.Proofs.Radix.Digits
import Reckon.Proofs.Token.Spelling
import Mathlib.Data.List.TakeWhile

/-!
# Spelling numerals

A numeral may be spread out by blanks and underscores as one likes; what is read is its digits. It
ends where neither a blank nor a digit nor an underscore follows, and a numeral without a mark
must not run into a point, an exponent or a letter that makes its zero a mark.
-/

namespace Reckon

namespace Radix

theorem exists_readOn {r : Radix} {cs : List Char} (h : ∀ c ∈ cs, r.isDigit c = true) (n : Nat) :
    ∃ m, r.readOn n cs = some m := by
  induction cs generalizing n with
  | nil => exact ⟨n, rfl⟩
  | cons c cs ih =>
      obtain ⟨d, hd⟩ := Option.isSome_iff_exists.mp (h c (by simp))
      obtain ⟨m, hm⟩ := ih (fun x hx => h x (by simp [hx])) (r.base * n + d)
      exact ⟨m, by rw [readOn_cons, hd, Option.bind_some, hm]⟩

theorem isWordChar_of_isDigit {r : Radix} {c : Char} (h : r.isDigit c = true) :
    Scan.isWordChar c = true := by
  obtain ⟨d, hd⟩ := Option.isSome_iff_exists.mp h
  have hvalue : (digitValue? c).isSome := by
    obtain ⟨hd, -⟩ := Option.filter_eq_some_iff.mp hd
    rw [hd]
    rfl
  delta Scan.isWordChar Char.isAlphanum Char.isAlpha Char.isUpper Char.isLower Char.isDigit
  simp only [Bool.or_eq_true, Bool.and_eq_true, decide_eq_true_eq, ge_iff_le]
  unfold digitValue? at hvalue
  split at hvalue
  · next h => exact .inl (.inr h)
  · split at hvalue
    · next h => exact .inl (.inl (.inr ⟨h.1, UInt32.le_trans h.2 (by decide)⟩))
    · split at hvalue
      · next h => exact .inl (.inl (.inl ⟨h.1, UInt32.le_trans h.2 (by decide)⟩))
      · cases hvalue

/-- No digit is the letter of a mark. -/
theorem ofMarkLetter?_of_isDigit {c : Char} (h : Radix.dec.isDigit c = true) :
    ofMarkLetter? c = none :=
  Text.of_ascii (P := fun c => Radix.dec.isDigit c = true → ofMarkLetter? c = none)
    (by decide +kernel) (Scan.toNat_lt_of_isWordChar (isWordChar_of_isDigit h)) h

theorem isBlank_of_isDigit {r : Radix} {c : Char} (h : r.isDigit c = true) :
    Text.isBlank c = false :=
  Scan.isBlank_of_isWordChar (isWordChar_of_isDigit h)

end Radix

namespace Decimal

/-- Digits alone are the decimal number that they denote. -/
theorem ofText?_of_value? {cs : List Char} {n : Nat} (hne : cs ≠ [])
    (h : Radix.dec.value? cs = some n) : ofText? cs = some ⟨n, 0⟩ := by
  have hdigits := Radix.isDigit_of_value? h
  have htake : cs.takeWhile Radix.dec.isDigit = cs := List.takeWhile_eq_self_iff.mpr hdigits
  have hdrop : cs.dropWhile Radix.dec.isDigit = [] := List.dropWhile_eq_nil_iff.mpr hdigits
  have hempty : cs.isEmpty = false := by simpa using hne
  simp only [ofText?, htake, hdrop, splitFraction, List.append_nil, natural?, hempty, h]
  rfl

theorem isSome_ofText?_of_isDigit {c : Char} {cs : List Char}
    (h : ∀ d ∈ c :: cs, Radix.dec.isDigit d = true) : (ofText? (c :: cs)).isSome := by
  obtain ⟨n, hn⟩ := Radix.exists_readOn h 0
  rw [ofText?_of_value? (List.cons_ne_nil c cs) hn]
  rfl

end Decimal

namespace Scan

variable {radix : Radix} {due : Bool} {body rest : List Char}

/-- The next character that is no blank. -/
def nextChar? (cs : List Char) : Option Char :=
  cs.find? fun c => !Text.isBlank c

theorem forall_head?_startingAt {p : Char → Prop} {cs : List Char} (h : ∀ c ∈ nextChar? cs, p c)
    (position : Nat) (spaced : Bool) :
    ∀ g ∈ (Glyph.startingAt position spaced cs).head?, p g.char := by
  induction cs generalizing position spaced with
  | nil =>
      intro g hg
      cases hg
  | cons c cs ih =>
      cases hc : Text.isBlank c with
      | true =>
          rw [Glyph.startingAt_blank hc]
          refine ih (fun d hd => h d ?_) _ _
          rwa [nextChar?, List.find?_cons_of_neg (by simp [hc])]
      | false =>
          rw [Glyph.startingAt_cons hc]
          intro g hg
          cases hg
          refine h c ?_
          rw [nextChar?, List.find?_cons_of_pos (by simp [hc])]
          rfl

/-! ## Runs of digits

A run is taken from glyphs and spelled in characters, so the induction is on the characters: a blank
among them adds no glyph and moves what follows. Where the rest stands after the run is of no use to
anybody, and so the places are only said to exist. -/

/-- A digit at the front of a run is read, an underscore is passed over. -/
theorem runDigits_cons {r : Radix} {g : Glyph} {gs : List Glyph}
    (h : r.isDigit g.char = true ∨ g.char = '_') :
    runDigits r (g :: gs) = [g.char].filter r.isDigit ++ runDigits r gs := by
  have hrun : inRun r g = true := by simpa [inRun] using h
  rw [runDigits, runDigits, List.takeWhile_cons_of_pos hrun, List.map_cons]
  rcases h with hd | hunderscore
  · have hne : g.char ≠ '_' := by
      intro hunderscore
      rw [hunderscore] at hd
      revert hd
      cases r <;> decide
    rw [List.filter_cons_of_pos (by simpa using hne), List.filter_cons_of_pos hd]
    rfl
  · have hd : r.isDigit '_' = false := by cases r <;> decide
    rw [hunderscore, List.filter_cons_of_neg (by simp), List.filter_cons_of_neg (by simp [hd])]
    rfl

/-- A run goes on to the first character that is neither a blank nor a digit nor an underscore. -/
theorem span_run {r : Radix}
    (hbody : ∀ c ∈ body, Text.isBlank c = true ∨ r.isDigit c = true ∨ c = '_')
    (hrest : ∀ c ∈ nextChar? rest, r.isDigit c = false ∧ c ≠ '_') (position : Nat) (spaced : Bool) :
    ∃ position' spaced',
      runDigits r (Glyph.startingAt position spaced (body ++ rest)) = body.filter r.isDigit ∧
      afterRun r (Glyph.startingAt position spaced (body ++ rest)) =
        Glyph.startingAt position' spaced' rest := by
  induction body generalizing position spaced with
  | nil =>
      have hstop : ∀ g ∈ (Glyph.startingAt position spaced rest).head?, inRun r g = false := by
        intro g hg
        simp [inRun, forall_head?_startingAt hrest position spaced g hg]
      obtain ⟨htake, hdrop⟩ := span_of_head hstop
      refine ⟨position, spaced, ?_, hdrop⟩
      rw [runDigits, List.nil_append, htake]
      rfl
  | cons c body ih =>
      have hbody' := fun d hd => hbody d (List.mem_cons_of_mem c hd)
      rw [List.cons_append]
      cases hc : Text.isBlank c with
      | true =>
          have hdigit : r.isDigit c = false := by
            cases hd : r.isDigit c with
            | false => rfl
            | true =>
                rw [Radix.isBlank_of_isDigit hd] at hc
                cases hc
          rw [Glyph.startingAt_blank hc, List.filter_cons_of_neg (by simp [hdigit])]
          exact ih hbody' _ _
      | false =>
          have hc' : r.isDigit c = true ∨ c = '_' := by simpa [hc] using hbody c (by simp)
          have hrun : inRun r ⟨c, position, spaced⟩ = true := by simpa [inRun] using hc'
          obtain ⟨position', spaced', hdigits, hafter⟩ := ih hbody' (position + 1) false
          refine ⟨position', spaced', ?_, ?_⟩
          · rw [Glyph.startingAt_cons hc, runDigits_cons hc', hdigits, ← List.filter_append]
            rfl
          · rw [Glyph.startingAt_cons hc, afterRun, List.dropWhile_cons_of_pos hrun]
            exact hafter

theorem ne_point_of_isDigit {c : Char} (h : Radix.dec.isDigit c = true) : (c == '.') = false := by
  rw [beq_eq_false_iff_ne]
  rintro rfl
  exact absurd h (by decide)

theorem lexeme_numeral {g : Glyph} {gs : List Glyph} (h : Radix.dec.isDigit g.char = true) :
    lexeme radix due g gs = numeral radix g.position g.char gs := by
  obtain ⟨hdelimiter, hoperator⟩ :=
    no_symbol_of_isWordChar (Radix.isWordChar_of_isDigit h) due gs
  simp [lexeme, hdelimiter, hoperator, startsNumeral, h]

/-- A mark with digits after it. -/
theorem Spells.marked {r : Radix} {m : Char} (hm : Radix.ofMarkLetter? m = some r)
    (hblank : Text.isBlank m = false)
    (hbody : ∀ c ∈ body, Text.isBlank c = true ∨ r.isDigit c = true ∨ c = '_')
    (hne : body.filter r.isDigit ≠ [])
    (hrest : ∀ c ∈ nextChar? rest, r.isDigit c = false ∧ c ≠ '_') :
    Spells radix due ('0' :: m :: (body ++ rest))
      [.number { text := String.ofList (body.filter r.isDigit), radix := r, marked := true }] false
      rest := by
  refine .lexeme (by decide) fun position spaced position' => ?_
  obtain ⟨position'', spaced'', hdigits, hafter⟩ := span_run hbody hrest (position' + 1) false
  refine ⟨position'', spaced'', ?_⟩
  have hzero : Radix.dec.isDigit '0' = true := by decide
  rw [lexeme_numeral hzero, Glyph.startingAt_cons hblank]
  have hannounced : announcedRadix? '0' (⟨m, position', false⟩ ::
      Glyph.startingAt (position' + 1) false (body ++ rest)) = some r := hm
  have hempty : (body.filter r.isDigit).isEmpty = false := by simpa using hne
  simp only [numeral, hannounced, List.tail_cons, markedNumeral, hdigits, hafter, hempty]
  rfl

section

variable {gs : List Glyph}

theorem announcedRadix?_eq_none {c : Char}
    (h : c = '0' → ∀ g ∈ gs.head?, Radix.ofMarkLetter? g.char = none) :
    announcedRadix? c gs = none := by
  unfold announcedRadix?
  split
  · next hzero =>
      cases gs with
      | nil => rfl
      | cons g gs => exact h (by simpa using hzero) g rfl
  · rfl

theorem fraction_eq_nil (h : ∀ g ∈ gs.head?, g.char ≠ '.') : fraction gs = ([], gs) := by
  cases gs with
  | nil => rfl
  | cons g gs => simp [fraction, h g rfl]

theorem exponent_eq_nil (h : ∀ g ∈ gs.head?, g.char ≠ 'e' ∧ g.char ≠ 'E') :
    exponent gs = ([], gs) := by
  cases gs with
  | nil => rfl
  | cons g gs => simp [exponent, h g rfl]

end

/-- Digits without a mark. -/
theorem Spells.bare {c : Char} (hc : Radix.dec.isDigit c = true)
    (hbody : ∀ d ∈ body, Text.isBlank d = true ∨ Radix.dec.isDigit d = true ∨ d = '_')
    (hmark : c = '0' → ∀ d ∈ nextChar? (body ++ rest), Radix.ofMarkLetter? d = none)
    (hrest : ∀ d ∈ nextChar? rest, (Radix.dec.isDigit d = false ∧ d ≠ '_') ∧
      d ≠ '.' ∧ d ≠ 'e' ∧ d ≠ 'E') :
    Spells radix due (c :: (body ++ rest))
      [.number { text := String.ofList (c :: body.filter Radix.dec.isDigit), radix }] false
      rest := by
  refine .lexeme (Radix.isBlank_of_isDigit hc) fun position spaced position' => ?_
  obtain ⟨position'', spaced'', hdigits, hafter⟩ :=
    span_run hbody (fun d hd => (hrest d hd).1) position' false
  refine ⟨position'', spaced'', ?_⟩
  have hannounced : announcedRadix? c (Glyph.startingAt position' false (body ++ rest)) = none :=
    announcedRadix?_eq_none fun hzero => forall_head?_startingAt (hmark hzero) position' false
  have hnext := forall_head?_startingAt (fun d hd => (hrest d hd).2) position'' spaced''
  have hfraction := fraction_eq_nil fun g hg => (hnext g hg).1
  have hexponent := exponent_eq_nil fun g hg => (hnext g hg).2
  have hdot := ne_point_of_isDigit hc
  have hall : ∀ d ∈ c :: body.filter Radix.dec.isDigit, Radix.dec.isDigit d = true := by
    refine List.forall_mem_cons.mpr ⟨hc, fun d hd => ?_⟩
    exact (List.mem_filter.mp hd).2
  have hdecimal : (Decimal.ofText? (c :: body.filter Radix.dec.isDigit)).isNone = false := by
    rw [← Option.not_isSome, Decimal.isSome_ofText?_of_isDigit hall]
    rfl
  have hbodyEq : decimalBody c (Glyph.startingAt position' false (body ++ rest)) =
      (c :: body.filter Radix.dec.isDigit, Glyph.startingAt position'' spaced'' rest) := by
    simp [decimalBody, hdot, hdigits, hafter, hfraction, hexponent]
  rw [lexeme_numeral hc, numeral, hannounced]
  simp only [bareNumeral, hbodyEq, hdecimal, List.all_eq_true.mpr hall]
  rfl

end Scan

end Reckon
