import Reckon.Proofs.Token.CutShort
import Reckon.Proofs.Token.Malformed

/-!
# Why a text has no tokens

The first lexeme that cannot be read decides: its error is that of the text. `Unreadable` says of
characters alone which lexemes these are. That no reader fails for another reason, and that each
fails for these wherever it stands, is `lexeme_eq_error_iff`; so the error can be held against the
text itself. What stands before it has tokens, since it is read as it was with the rest in sight
(`Reads.cut`), and what begins with it fails at once, since neither the places of characters nor
what has been read before can make it readable.
-/

namespace Reckon

/-- The characters, without blanks, begin with what is no lexeme, for the given cause. -/
inductive Unreadable : LexError.Cause → List Char → Prop
  | foreign {c : Char} {cs : List Char} :
      c.isAlphanum = false → c ∉ "_(),+-*/%^&|~<>.".toList → Unreadable (.unexpected c) (c :: cs)
  | unpaired {c : Char} {cs : List Char} :
      c = '<' ∨ c = '>' → cs.head? ≠ some c → Unreadable (.unexpected c) (c :: cs)
  | point {cs : List Char} :
      (∀ c ∈ cs.head?, Radix.dec.isDigit c = false) → Unreadable (.unexpected '.') ('.' :: cs)
  | mark {r : Radix} {m : Char} {cs : List Char} :
      r.mark.toList = ['0', m.toLower] → digitAhead r cs = false →
      Unreadable (.malformedDigits r) ('0' :: m :: cs)
  | decimal {body cs : List Char} :
      Unfinished body cs → Unreadable (.malformedNumber (String.ofList body)) cs

namespace Scan

variable {radix : Radix} {due : Bool} {position : Nat} {c : Char} {g : Glyph} {gs : List Glyph}
  {error : LexError}

/-! ## What is unexpected

A character is unexpected if no reader wants it, and each reader looks at what follows as well. What
follows is seldom to blame, though. All characters that tokens begin with begin one on their own,
but for three (`symbol_begins`): an angle that is not doubled, and a point without a digit. -/

/-- All characters that tokens begin with begin one on their own, but for the three. -/
theorem symbol_begins (due : Bool) : ∀ c ∈ "_(),+-*/%^&|~<>.".toList,
    c = '<' ∨ c = '>' ∨ c = '.' ∨ isWordChar c = true ∨ (delimiter? c).isSome = true ∨
      (singleOperator? due c).isSome = true :=
  List.all_iff_forall_prop.mp (by cases due <;> decide)

/-- What is left when neither a symbol nor a word nor a numeral begins. -/
theorem unreadable_of_unexpected (hdelimiter : delimiter? g.char = none)
    (hoperator : operator? due g.char gs = none)
    (hword : ¬ (isWordChar g.char && !Radix.dec.isDigit g.char) = true)
    (hstarts : ¬ startsNumeral g.char gs = true) :
    Unreadable (.unexpected g.char) (g.char :: gs.map Glyph.char) := by
  obtain ⟨hpaired, hsingle⟩ := operator?_eq_none_iff.mp hoperator
  have hdigit : Radix.dec.isDigit g.char = false := by
    cases hdigit : Radix.dec.isDigit g.char with
    | false => rfl
    | true => exact absurd (by rw [startsNumeral, hdigit, Bool.true_or]) hstarts
  have hword : isWordChar g.char = false := by simpa [hdigit] using hword
  have hnext : g.char = '<' ∨ g.char = '>' → (gs.map Glyph.char).head? ≠ some g.char := by
    intro hangle hhead
    rw [List.head?_map, Option.map_eq_some_iff] at hhead
    obtain ⟨g', hg', hchar⟩ := hhead
    have hnone := hpaired g' hg'
    rcases hangle with hangle | hangle <;> (rw [hchar, hangle] at hnone; cases hnone)
  by_cases hmem : g.char ∈ "_(),+-*/%^&|~<>.".toList
  · rcases symbol_begins due _ hmem with hc | hc | hc | hc | hc | hc
    · exact .unpaired (.inl hc) (hnext (.inl hc))
    · exact .unpaired (.inr hc) (hnext (.inr hc))
    · rw [hc] at hstarts ⊢
      refine .point fun d hd => ?_
      cases gs with
      | nil => cases hd
      | cons g' gs =>
          cases hd
          exact Bool.eq_false_iff.mpr hstarts
    · rw [hc] at hword
      cases hword
    · rw [hdelimiter] at hc
      cases hc
    · rw [hsingle] at hc
      cases hc
  · rw [isWordChar, Bool.or_eq_false_iff] at hword
    exact .foreign hword.1 hmem

/-- A character that begins nothing. -/
theorem lexeme_unexpected (hdelimiter : delimiter? g.char = none)
    (hpaired : ∀ h ∈ gs.head?, pairedOperator? g.char h.char = none)
    (hsingle : singleOperator? due g.char = none) (hword : isWordChar g.char = false)
    (hstarts : startsNumeral g.char gs = false) :
    lexeme radix due g gs = .error ⟨.unexpected g.char, g.position⟩ := by
  have hoperator : operator? due g.char gs = none := operator?_eq_none_iff.mpr ⟨hpaired, hsingle⟩
  simp [lexeme, hdelimiter, hoperator, hword, hstarts]

theorem lexeme_foreign (halphanum : g.char.isAlphanum = false)
    (hmem : g.char ∉ "_(),+-*/%^&|~<>.".toList) :
    lexeme radix due g gs = .error ⟨.unexpected g.char, g.position⟩ := by
  have hne : ∀ d ∈ "_(),+-*/%^&|~<>.".toList, g.char ≠ d := by
    intro d hd heq
    exact hmem (heq ▸ hd)
  have hword : isWordChar g.char = false := by
    rw [isWordChar, halphanum, Bool.false_or, beq_eq_false_iff_ne]
    exact hne _ (by decide)
  have hdigit : Radix.dec.isDigit g.char = false := by
    cases hdigit : Radix.dec.isDigit g.char with
    | false => rfl
    | true =>
        rw [Radix.isWordChar_of_isDigit hdigit] at hword
        cases hword
  have hdot : (g.char == '.') = false := beq_eq_false_iff_ne.mpr (hne _ (by decide))
  have hsymbols : "(),+-*/%^&|~<>".toList ⊆ "_(),+-*/%^&|~<>.".toList := by decide
  obtain ⟨hdelimiter, hpaired, hsingle⟩ := no_symbol_of_ne (fun d hd => hne d (hsymbols hd)) due
  exact lexeme_unexpected hdelimiter (fun h _ => hpaired h.char) hsingle hword
    (by simp [startsNumeral, hdigit, hdot])

theorem eq_of_pairedOperator? {d : Char} {op : BinaryOp} (h : pairedOperator? c d = some op) :
    d = c := by
  unfold pairedOperator? at h
  split at h
  · rfl
  · rfl
  · rfl
  · cases h

theorem lexeme_unpaired (hg : g.char = '<' ∨ g.char = '>')
    (hnext : ∀ h ∈ gs.head?, h.char ≠ g.char) :
    lexeme radix due g gs = .error ⟨.unexpected g.char, g.position⟩ := by
  have hpaired : ∀ h ∈ gs.head?, pairedOperator? g.char h.char = none := by
    intro h hh
    rw [Option.eq_none_iff_forall_ne_some]
    exact fun op hop => hnext h hh (eq_of_pairedOperator? hop)
  rcases hg with hg | hg
  · refine lexeme_unexpected ?_ hpaired ?_ ?_ ?_ <;> (rw [hg]; rfl)
  · refine lexeme_unexpected ?_ hpaired ?_ ?_ ?_ <;> (rw [hg]; rfl)

theorem unreadable_of_numeral (hstarts : startsNumeral c gs = true)
    (h : numeral radix position c gs = .error error) :
    error.position = position ∧ Unreadable error.cause (c :: gs.map Glyph.char) := by
  unfold numeral at h
  split at h
  · next r hannounced =>
      obtain ⟨rfl, m, gs, rfl, hm⟩ := announcedRadix?_eq_some hannounced
      obtain ⟨hdigits, rfl⟩ := markedNumeral_eq_error_iff.mp h
      exact ⟨rfl, .mark (mark_of_ofMarkLetter? hm) hdigits⟩
  · obtain ⟨body, hbody, rfl⟩ := (bareNumeral_eq_error_iff hstarts).mp h
    exact ⟨rfl, .decimal hbody⟩

theorem lexeme_of_startsNumeral (h : startsNumeral g.char gs = true) :
    lexeme radix due g gs = numeral radix g.position g.char gs := by
  rcases startsNumeral_eq_true h with hdigit | ⟨hdot, -⟩
  · exact lexeme_numeral hdigit
  · have hdelimiter : delimiter? '.' = none := rfl
    have hoperator : operator? due '.' gs = none :=
      operator?_eq_none_iff.mpr ⟨fun _ _ => rfl, rfl⟩
    have hword : isWordChar '.' = false := by decide
    rw [hdot] at h
    simp [lexeme, hdot, hdelimiter, hoperator, hword, h]

theorem unreadable_of_lexeme (h : lexeme radix due g gs = .error error) :
    error.position = g.position ∧ Unreadable error.cause (g.char :: gs.map Glyph.char) := by
  unfold lexeme at h
  split at h
  · cases h
  · cases h
  · next hdelimiter hoperator =>
      split at h
      · cases h
      · next hword =>
          split at h
          · next hstarts => exact unreadable_of_numeral hstarts h
          · next hstarts =>
              cases h
              exact ⟨rfl, unreadable_of_unexpected hdelimiter hoperator hword hstarts⟩

theorem lexeme_of_unreadable {cause : LexError.Cause}
    (h : Unreadable cause (g.char :: gs.map Glyph.char)) :
    lexeme radix due g gs = .error ⟨cause, g.position⟩ := by
  generalize hrow : g.char :: gs.map Glyph.char = row at h
  cases h with
  | foreign halphanum hmem =>
      obtain ⟨rfl, -⟩ := List.cons.inj hrow
      exact lexeme_foreign halphanum hmem
  | unpaired hc hhead =>
      obtain ⟨rfl, rfl⟩ := List.cons.inj hrow
      refine lexeme_unpaired hc fun h hh heq => hhead ?_
      rw [List.head?_map, hh, Option.map_some, heq]
  | point hcs =>
      obtain ⟨hg, rfl⟩ := List.cons.inj hrow
      have hstarts : startsNumeral g.char gs = false := by
        rw [hg]
        cases gs with
        | nil => rfl
        | cons h gs => exact hcs h.char rfl
      rw [← hg]
      refine lexeme_unexpected ?_ (fun h _ => ?_) ?_ ?_ hstarts <;> (rw [hg]; rfl)
  | @mark r m cs hm hcs =>
      obtain ⟨hg, hgs⟩ := List.cons.inj hrow
      obtain ⟨g', rest, rfl, rfl, rfl⟩ := List.map_eq_cons_iff.mp hgs
      have hannounced : announcedRadix? '0' (g' :: rest) = some r := ofMarkLetter?_of_mark hm
      rw [lexeme_numeral (by rw [hg]; decide), numeral, hg, hannounced]
      exact markedNumeral_eq_error_iff.mpr ⟨hcs, rfl⟩
  | decimal hbody =>
      subst hrow
      have hstarts := startsNumeral_of_unfinished hbody
      rw [lexeme_of_startsNumeral hstarts, numeral, announcedRadix?_of_unfinished hbody]
      exact (bareNumeral_eq_error_iff hstarts).mpr ⟨_, hbody, rfl⟩

/-- A lexeme cannot be read exactly if its characters say so. Neither the radix nor what has been
read before matters. -/
theorem lexeme_eq_error_iff : lexeme radix due g gs = .error error ↔
    error.position = g.position ∧ Unreadable error.cause (g.char :: gs.map Glyph.char) := by
  constructor
  · exact unreadable_of_lexeme
  · rintro ⟨hposition, h⟩
    rw [lexeme_of_unreadable h, ← hposition]

/-- A scan that fails has read up to a lexeme that fails. -/
theorem exists_reads_error (h : tokens radix due gs = .error error) :
    ∃ ts due' g rest, Reads radix due gs ts due' (g :: rest) ∧
      lexeme radix due' g rest = .error error := by
  -- By induction on the length: what a lexeme leaves is shorter.
  induction hlength : gs.length using Nat.strongRecOn generalizing due gs with
  | ind n ih =>
      cases gs with
      | nil =>
          rw [tokens_nil] at h
          cases h
      | cons g gs =>
          rw [tokens_cons] at h
          cases hl : lexeme radix due g gs with
          | error e =>
              rw [hl] at h
              cases h
              exact ⟨[], due, g, gs, .done, hl⟩
          | ok x =>
              obtain ⟨l, mid⟩ := x
              rw [hl] at h
              have hmid : tokens radix l.expectsOperand mid = .error error := map_eq_error h
              have hlt : mid.length < n := by
                rw [← hlength, List.length_cons]
                exact Nat.lt_succ_of_le (lexeme_suffix hl).length_le
              obtain ⟨ts, due', g', rest, hreads, herror⟩ := ih _ hlt hmid rfl
              exact ⟨_ :: ts, due', g', rest, .token hl hreads, herror⟩

end Scan

section

variable {radix : Radix} {text : String} {error : LexError}

theorem Glyph.startingAt_of_split {position : Nat} {spaced : Bool} {used gs : List Glyph}
    {ds es : List Char} (h : startingAt position spaced (ds ++ es) = used ++ gs)
    (hds : (ds.filter fun c => !Text.isBlank c) = used.map char) :
    startingAt position spaced ds = used := by
  obtain ⟨position', spaced', happend⟩ := startingAt_append position spaced ds es
  have hlength : (startingAt position spaced ds).length = used.length := by
    rw [← List.length_map char, map_char_startingAt, hds, List.length_map]
  exact (List.append_inj (happend.symm.trans h) hlength).1

/-- The text at the place of its error. -/
theorem exists_unreadable (h : tokenize radix text = .error error) :
    ∃ before c after, text.toList = before ++ c :: after ∧
      error.position = before.length + 1 ∧ Text.isBlank c = false ∧
      (∃ tokens, tokenize radix (String.ofList before) = .ok tokens) ∧
      tokenize radix (String.ofList (c :: after)) = .error ⟨error.cause, 1⟩ ∧
      Unreadable error.cause ((c :: after).filter fun d => !Text.isBlank d) := by
  obtain ⟨ts, due, g, gs, hreads, hl⟩ := Scan.exists_reads_error h
  obtain ⟨used, hrow⟩ := hreads.suffix
  obtain ⟨ds, es, htext, hposition, hblank, hds, hgs⟩ := Glyph.startingAt_split hrow.symm
  obtain ⟨herror, hunreadable⟩ := Scan.lexeme_eq_error_iff.mp hl
  rw [hgs, Glyph.map_char_startingAt] at hunreadable
  refine ⟨ds, g.char, es, htext, by omega, hblank, ⟨ts, ?_⟩, ?_, ?_⟩
  · -- A parenthesis can be read, so what is cut off does not begin with one.
    have hparen : ∀ t ∈ (g :: gs).head?, t.char ≠ '(' := by
      intro t ht hchar
      cases ht
      rw [Scan.lexeme, hchar] at hl
      cases hl
    have hsplit : Glyph.startingAt 1 false (ds ++ g.char :: es) = used ++ g :: gs := by
      rw [← htext]
      exact hrow.symm
    rw [← hrow] at hreads
    rw [tokenize, String.toList_ofList, Glyph.ofText, Glyph.startingAt_of_split hsplit hds]
    exact (hreads.cut hparen).tokens_eq_ok
  · have hlexeme : Scan.lexeme radix true ⟨g.char, 1, false⟩ (Glyph.startingAt 2 false es) =
        .error ⟨error.cause, 1⟩ :=
      Scan.lexeme_eq_error_iff.mpr ⟨rfl, by rwa [Glyph.map_char_startingAt]⟩
    rw [tokenize, String.toList_ofList, Glyph.ofText, Glyph.startingAt_cons hblank,
      Scan.tokens_cons, hlexeme]
    rfl
  · rwa [List.filter_cons_of_pos (by simp [hblank])]

/-- An error in scanning is at the first lexeme that cannot be read. Its place is that of a visible
character; what stands before has tokens, and what begins there has the same error on its own, for
the characters that it begins with. -/
theorem tokenize_error_first (h : tokenize radix text = .error error) :
    1 ≤ error.position ∧ error.position ≤ text.length ∧
      (∃ c, text.toList[error.position - 1]? = some c ∧ Text.isBlank c = false) ∧
      (∃ tokens, tokenize radix (String.ofList (text.toList.take (error.position - 1))) =
        .ok tokens) ∧
      tokenize radix (String.ofList (text.toList.drop (error.position - 1))) =
        .error ⟨error.cause, 1⟩ ∧
      Unreadable error.cause
        ((text.toList.drop (error.position - 1)).filter fun c => !Text.isBlank c) := by
  obtain ⟨before, c, after, htext, hposition, hblank, hbefore, hfrom, hchars⟩ := exists_unreadable h
  have hindex : error.position - 1 = before.length := by omega
  have hlength : text.length = before.length + (after.length + 1) := by
    rw [← String.length_toList, htext, List.length_append, List.length_cons]
  rw [hindex, htext, List.take_left, List.drop_left]
  refine ⟨by omega, by omega, ⟨c, ?_, hblank⟩, hbefore, hfrom, hchars⟩
  rw [List.getElem?_append_right (Nat.le_refl _), Nat.sub_self]
  rfl

/-- An exponent whose sign is held off by an underscore. -/
theorem tokenize_error_first_exponent :
    tokenize .dec "(2 - 1.5 E_+3" = .error ⟨.malformedNumber "1.5E", 6⟩ ∧
      (∃ tokens, tokenize .dec "(2 - " = .ok tokens) ∧
      tokenize .dec "1.5 E_+3" = .error ⟨.malformedNumber "1.5E", 1⟩ ∧
      Unreadable (.malformedNumber "1.5E") "1.5E_+3".toList := by
  have h : tokenize .dec "(2 - 1.5 E_+3" = .error ⟨.malformedNumber "1.5E", 6⟩ := by
    decide +kernel
  obtain ⟨-, -, -, hbefore, hfrom, hchars⟩ := tokenize_error_first h
  exact ⟨h, hbefore, hfrom, hchars⟩

end

end Reckon
