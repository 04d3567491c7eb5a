import Reckon.Proofs.Outcome
import Reckon.Token.Scan
import Mathlib.Data.List.Forall2

/-!
# Reading on, and reading elsewhere

A scan is a row of single readings, each of which finds a lexeme and leaves the glyphs after it.
`Reads` keeps what is left in sight, so that scans can be put together: a longest match is never
cut, because whoever reads the first part has the second part before him.

What a reader finds hardly depends on where it stands. It looks at characters, and in a word at the
blanks between them; places matter only to errors. And a closing parenthesis or a comma goes on with
nothing: no word, no run of digits, no point, no exponent and no operator of two characters. So
glyphs that have been read to their end are read the same elsewhere in front of either of the two
(`Reads.extended`). The readers are compared one by one, on glyphs `gs` and on glyphs `hs` that are
alike but have a tail after them.
-/

namespace Reckon.Scan

theorem tokens_nil (radix : Radix) (due : Bool) : tokens radix due [] = .ok [] := by
  rw [tokens]

theorem tokens_cons (radix : Radix) (due : Bool) (g : Glyph) (gs : List Glyph) :
    tokens radix due (g :: gs) = lexeme radix due g gs >>= fun x =>
      (tokens radix x.1.expectsOperand x.2).map (⟨x.1, g.position⟩ :: ·) := by
  rw [tokens]
  split
  · next e he =>
      rw [he]
      rfl
  · next l rest hl =>
      conv_rhs => rw [hl]
      show (tokens radix l.expectsOperand rest >>= _) = Except.map _ _
      cases tokens radix l.expectsOperand rest with
      | error e => rfl
      | ok ts => rfl

/-- From the glyphs `gs` the tokens are read, and the glyphs `rest` are left. The truth values say
whether an operand is due before and after. -/
inductive Reads (radix : Radix) : Bool → List Glyph → List Token → Bool → List Glyph → Prop
  | done {due : Bool} {gs : List Glyph} : Reads radix due gs [] due gs
  | token {due due' : Bool} {g : Glyph} {gs mid rest : List Glyph} {l : Lexeme} {ts : List Token} :
      lexeme radix due g gs = .ok (l, mid) → Reads radix l.expectsOperand mid ts due' rest →
      Reads radix due (g :: gs) (⟨l, g.position⟩ :: ts) due' rest

variable {radix : Radix} {due due' due'' : Bool} {gs hs mid rest tail : List Glyph}
  {ts us : List Token}

theorem Reads.append (h : Reads radix due gs ts due' mid)
    (h' : Reads radix due' mid us due'' rest) :
    Reads radix due gs (ts ++ us) due'' rest := by
  induction h with
  | done => exact h'
  | token hl _ ih => exact .token hl (ih h')

/-- The reading of a token in the middle, and the readings around it. -/
theorem Reads.split {t : Token} (h : Reads radix due gs (ts ++ t :: us) due'' rest) :
    ∃ due' g gs' mid, Reads radix due gs ts due' (g :: gs') ∧ t.position = g.position ∧
      lexeme radix due' g gs' = .ok (t.lexeme, mid) ∧
      Reads radix t.lexeme.expectsOperand mid us due'' rest := by
  induction ts generalizing due gs with
  | nil =>
      cases h with
      | token hl hreads => exact ⟨_, _, _, _, .done, rfl, hl, hreads⟩
  | cons u ts ih =>
      cases h with
      | token hu hreads =>
          obtain ⟨due', g, gs', mid, hbefore, hposition, hl, hafter⟩ := ih hreads
          exact ⟨due', g, gs', mid, .token hu hbefore, hposition, hl, hafter⟩

/-- Whatever is read on the way is read in the end. -/
theorem Reads.initial (h : Reads radix due gs ts due' rest) (h' : Reads radix due gs us due'' []) :
    ts <+: us := by
  induction h generalizing us with
  | done => exact List.nil_prefix
  | token hl _ ih =>
      cases h' with
      | token hl' hreads =>
          rw [hl] at hl'
          cases hl'
          exact List.cons_prefix_cons.mpr ⟨rfl, ih hreads⟩

/-- Whether an operand is due depends on the last token alone. -/
theorem Reads.due_eq (h : Reads radix due gs ts due' rest) :
    due' = (ts.getLast?.map fun t => t.lexeme.expectsOperand).getD due := by
  induction h with
  | done => rfl
  | @token _ _ _ _ _ _ _ ts _ _ ih =>
      cases ts with
      | nil => exact ih
      | cons t ts => rw [ih, List.getLast?_cons_cons, List.getLast?_cons]; rfl

theorem Reads.tokens_eq_ok (h : Reads radix due gs ts due' []) :
    tokens radix due gs = .ok ts := by
  generalize hrest : ([] : List Glyph) = rest at h
  induction h with
  | done =>
      subst hrest
      exact tokens_nil _ _
  | token hl _ ih =>
      rw [tokens_cons, hl]
      show Except.map _ (tokens radix _ _) = _
      rw [ih hrest]
      rfl

theorem exists_reads (h : tokens radix due gs = .ok ts) :
    ∃ due', Reads radix due gs ts due' [] := by
  induction ts generalizing due gs with
  | nil =>
      cases gs with
      | nil => exact ⟨due, .done⟩
      | cons g gs =>
          rw [tokens_cons] at h
          obtain ⟨x, -, h⟩ := bind_eq_ok h
          obtain ⟨us, -, hus⟩ := map_eq_ok h
          cases hus
  | cons t ts ih =>
      cases gs with
      | nil =>
          rw [tokens_nil] at h
          cases h
      | cons g gs =>
          rw [tokens_cons] at h
          obtain ⟨⟨l, mid⟩, hl, h⟩ := bind_eq_ok h
          obtain ⟨us, hus, hcons⟩ := map_eq_ok h
          cases hcons
          obtain ⟨due', hreads⟩ := ih hus
          exact ⟨due', .token hl hreads⟩

/-! ## The same glyphs with a tail

How two glyphs are related is left open. A text that has been put elsewhere keeps its blanks, and a
text that is spread by blanks does not, while there is no tail behind it. All that the readers below
are told is that the characters are the same. A run of such glyphs ends at a glyph of both rows, or
where the first row ends; then it has to be the tail that stops it in the second row. -/

/-- The glyphs `hs` are those of `gs`, each replaced by a related one, with a tail after them. -/
def Extended (R : Glyph → Glyph → Prop) (tail gs hs : List Glyph) : Prop :=
  ∃ mid, List.Forall₂ R gs mid ∧ hs = mid ++ tail

/-- Glyphs that go on with nothing: there are none, or the first is a closing parenthesis or a
comma. -/
def Closing (tail : List Glyph) : Prop :=
  ∀ g ∈ tail.head?, g.char = ')' ∨ g.char = ','

theorem Closing.cons {g : Glyph} (h : g.char = ')' ∨ g.char = ',') (gs : List Glyph) :
    Closing (g :: gs) := by
  intro g' hg'
  cases hg'
  exact h

/-- What is false of the two closing characters is false of a closing glyph. -/
theorem Closing.head (h : Closing tail) {p : Glyph → Bool}
    (hp : ∀ g : Glyph, g.char = ')' ∨ g.char = ',' → p g = false) :
    ∀ g ∈ tail.head?, p g = false :=
  fun g hg => hp g (h g hg)

section

variable {R : Glyph → Glyph → Prop}

theorem Extended.nil (h : Extended R tail [] hs) : hs = tail := by
  obtain ⟨mid, hmid, rfl⟩ := h
  cases hmid
  rfl

theorem Extended.cons {g : Glyph} (h : Extended R tail (g :: gs) hs) :
    ∃ g' hs', hs = g' :: hs' ∧ R g g' ∧ Extended R tail gs hs' := by
  obtain ⟨mid, hmid, rfl⟩ := h
  cases hmid with
  | cons hg hrest => exact ⟨_, _, rfl, hg, _, hrest, rfl⟩

theorem Extended.tail_of_ne_nil (h : Extended R tail gs hs) (hne : gs ≠ []) :
    Extended R tail gs.tail hs.tail := by
  cases gs with
  | nil => exact absurd rfl hne
  | cons g gs =>
      obtain ⟨g', hs', rfl, -, h⟩ := h.cons
      exact h

/-- A run ends in both rows at the same glyph. -/
theorem Extended.span (hchar : ∀ {g g'}, R g g' → g.char = g'.char) {p : Glyph → Bool}
    (hp : ∀ {g g'}, R g g' → p g = p g') (htail : ∀ g ∈ tail.head?, p g = false)
    (h : Extended R tail gs hs) :
    (hs.takeWhile p).map Glyph.char = (gs.takeWhile p).map Glyph.char ∧
      Extended R tail (gs.dropWhile p) (hs.dropWhile p) := by
  induction gs generalizing hs with
  | nil =>
      rw [h.nil]
      cases tail with
      | nil => exact ⟨rfl, [], .nil, rfl⟩
      | cons t tail =>
          have ht : p t = false := htail t rfl
          simp only [List.takeWhile_cons, List.dropWhile_cons, ht]
          exact ⟨rfl, [], .nil, rfl⟩
  | cons g gs ih =>
      obtain ⟨g', hs', rfl, hg, hrest⟩ := h.cons
      obtain ⟨htake, hdrop⟩ := ih hrest
      cases hpg : p g with
      | true =>
          have hpg' : p g' = true := hp hg ▸ hpg
          simp only [List.takeWhile_cons, List.dropWhile_cons, hpg, hpg', if_true, List.map_cons,
            htake, hchar hg]
          exact ⟨trivial, hdrop⟩
      | false =>
          have hpg' : p g' = false := hp hg ▸ hpg
          simp only [List.takeWhile_cons, List.dropWhile_cons, hpg, hpg',
            Bool.false_eq_true, if_false]
          exact ⟨trivial, h⟩

/-- A test of the next glyph has the same outcome in both rows. -/
theorem Extended.any_head (hchar : ∀ {g g'}, R g g' → g.char = g'.char) {q : Char → Bool}
    (htail : ∀ g ∈ tail.head?, q g.char = false) (h : Extended R tail gs hs) :
    (hs.head?.any fun g => q g.char) = gs.head?.any fun g => q g.char := by
  cases gs with
  | nil =>
      rw [h.nil]
      cases tail with
      | nil => rfl
      | cons t tail => exact htail t rfl
  | cons g gs =>
      obtain ⟨g', hs', rfl, hg, -⟩ := h.cons
      show q g'.char = q g.char
      rw [hchar hg]

/-- So has a look-up by the next character. -/
theorem Extended.bind_head {α : Type} (hchar : ∀ {g g'}, R g g' → g.char = g'.char)
    {q : Char → Option α} (htail : ∀ g ∈ tail.head?, q g.char = none)
    (h : Extended R tail gs hs) :
    (hs.head?.bind fun g => q g.char) = gs.head?.bind fun g => q g.char := by
  cases gs with
  | nil =>
      rw [h.nil]
      cases tail with
      | nil => rfl
      | cons t tail => exact htail t rfl
  | cons g gs =>
      obtain ⟨g', hs', rfl, hg, -⟩ := h.cons
      show q g'.char = q g.char
      rw [hchar hg]

end

/-- The closing characters belong to no run of digits. -/
theorem inRun_closing (r : Radix) (g : Glyph) (h : g.char = ')' ∨ g.char = ',') :
    inRun r g = false := by
  rcases h with h | h
  · rw [inRun, h]
    cases r <;> decide
  · rw [inRun, h]
    cases r <;> decide

section

variable {R : Glyph → Glyph → Prop} (hchar : ∀ {g g'}, R g g' → g.char = g'.char)
  (htail : Closing tail)

include hchar htail

theorem Extended.run (r : Radix) (h : Extended R tail gs hs) :
    runDigits r hs = runDigits r gs ∧ Extended R tail (afterRun r gs) (afterRun r hs) := by
  have hp : ∀ {g g'}, R g g' → inRun r g = inRun r g' := by
    intro g g' hg
    rw [inRun, inRun, hchar hg]
  obtain ⟨htake, hdrop⟩ := h.span hchar hp (htail.head (inRun_closing r))
  exact ⟨congrArg (List.filter (· != '_')) htake, hdrop⟩

theorem Extended.fraction (h : Extended R tail gs hs) :
    (fraction hs).1 = (fraction gs).1 ∧ Extended R tail (fraction gs).2 (fraction hs).2 := by
  cases gs with
  | nil =>
      rw [h.nil]
      cases tail with
      | nil => exact ⟨rfl, [], .nil, rfl⟩
      | cons t tail =>
          have ht : (t.char == '.') = false := by
            rcases htail t rfl with ht | ht <;> rw [ht] <;> rfl
          simp only [Scan.fraction, ht]
          exact ⟨rfl, [], .nil, rfl⟩
  | cons g gs =>
      obtain ⟨g', hs', rfl, hg, hrest⟩ := h.cons
      obtain ⟨hdigits, hafter⟩ := hrest.run hchar htail .dec
      cases hdot : g.char == '.' with
      | true =>
          simp only [Scan.fraction, ← hchar hg, hdot, if_true, hdigits]
          exact ⟨trivial, hafter⟩
      | false =>
          simp only [Scan.fraction, ← hchar hg, hdot]
          exact ⟨rfl, h⟩

theorem Extended.sign (h : Extended R tail gs hs) :
    (sign hs).1 = (sign gs).1 ∧ Extended R tail (sign gs).2 (sign hs).2 := by
  cases gs with
  | nil =>
      rw [h.nil]
      cases tail with
      | nil => exact ⟨rfl, [], .nil, rfl⟩
      | cons t tail =>
          have ht : (t.char == '+' || t.char == '-') = false := by
            rcases htail t rfl with ht | ht <;> rw [ht] <;> rfl
          simp only [Scan.sign, ht]
          exact ⟨rfl, [], .nil, rfl⟩
  | cons g gs =>
      obtain ⟨g', hs', rfl, hg, hrest⟩ := h.cons
      cases hsign : g.char == '+' || g.char == '-' with
      | true =>
          simp only [Scan.sign, ← hchar hg, hsign, if_true]
          exact ⟨trivial, hrest⟩
      | false =>
          simp only [Scan.sign, ← hchar hg, hsign]
          exact ⟨rfl, h⟩

theorem Extended.exponent (h : Extended R tail gs hs) :
    (exponent hs).1 = (exponent gs).1 ∧ Extended R tail (exponent gs).2 (exponent hs).2 := by
  cases gs with
  | nil =>
      rw [h.nil]
      cases tail with
      | nil => exact ⟨rfl, [], .nil, rfl⟩
      | cons t tail =>
          have ht : (t.char == 'e' || t.char == 'E') = false := by
            rcases htail t rfl with ht | ht <;> rw [ht] <;> rfl
          simp only [Scan.exponent, ht]
          exact ⟨rfl, [], .nil, rfl⟩
  | cons g gs =>
      obtain ⟨g', hs', rfl, hg, hrest⟩ := h.cons
      obtain ⟨hsign, hrest'⟩ := hrest.sign hchar htail
      obtain ⟨hdigits, hafter⟩ := hrest'.run hchar htail .dec
      cases hmark : g.char == 'e' || g.char == 'E' with
      | true =>
          simp only [Scan.exponent, ← hchar hg, hmark, if_true, hsign, hdigits]
          exact ⟨trivial, hafter⟩
      | false =>
          simp only [Scan.exponent, ← hchar hg, hmark]
          exact ⟨rfl, h⟩

theorem Extended.decimalBody (c : Char) (h : Extended R tail gs hs) :
    (decimalBody c hs).1 = (decimalBody c gs).1 ∧
      Extended R tail (decimalBody c gs).2 (decimalBody c hs).2 := by
  obtain ⟨hdigits, hafter⟩ := h.run hchar htail .dec
  obtain ⟨hfrac, hafter'⟩ := hafter.fraction hchar htail
  cases hdot : c == '.' with
  | true =>
      obtain ⟨hexp, hrest⟩ := hafter.exponent hchar htail
      simp only [Scan.decimalBody, hdot, if_true, hdigits, hexp]
      exact ⟨trivial, hrest⟩
  | false =>
      obtain ⟨hexp, hrest⟩ := hafter'.exponent hchar htail
      simp only [Scan.decimalBody, hdot, Bool.false_eq_true, if_false, hdigits, hfrac, hexp]
      exact ⟨trivial, hrest⟩

theorem Extended.bareNumeral {position position' : Nat} {c : Char} {l : Lexeme}
    (h : Extended R tail gs hs) (hl : bareNumeral radix position c gs = .ok (l, rest)) :
    ∃ rest', bareNumeral radix position' c hs = .ok (l, rest') ∧ Extended R tail rest rest' := by
  obtain ⟨hbody, hrest⟩ := h.decimalBody hchar htail c
  unfold Scan.bareNumeral at hl ⊢
  dsimp only at hl ⊢
  rw [hbody]
  split at hl
  · cases hl
  · next hsome =>
      cases hl
      rw [if_neg hsome]
      exact ⟨_, rfl, hrest⟩

theorem Extended.markedNumeral {position position' : Nat} {r : Radix} {l : Lexeme}
    (h : Extended R tail gs hs) (hl : markedNumeral r position gs = .ok (l, rest)) :
    ∃ rest', markedNumeral r position' hs = .ok (l, rest') ∧ Extended R tail rest rest' := by
  obtain ⟨hdigits, hafter⟩ := h.run hchar htail r
  unfold Scan.markedNumeral at hl ⊢
  dsimp only at hl ⊢
  rw [hdigits]
  split at hl
  · cases hl
  · next hne =>
      cases hl
      rw [if_neg hne]
      exact ⟨_, rfl, hafter⟩

theorem Extended.announcedRadix? (c : Char) (h : Extended R tail gs hs) :
    announcedRadix? c hs = announcedRadix? c gs := by
  have hnone : ∀ g ∈ tail.head?, Radix.ofMarkLetter? g.char = none := by
    intro g hg
    rcases htail g hg with hc | hc <;> rw [hc] <;> rfl
  unfold Scan.announcedRadix?
  split
  · exact h.bind_head hchar hnone
  · rfl

theorem Extended.numeral {position position' : Nat} {c : Char} {l : Lexeme}
    (h : Extended R tail gs hs) (hl : numeral radix position c gs = .ok (l, rest)) :
    ∃ rest', numeral radix position' c hs = .ok (l, rest') ∧ Extended R tail rest rest' := by
  have hradix := h.announcedRadix? hchar htail c
  unfold Scan.numeral at hl ⊢
  rw [hradix]
  cases hr : Scan.announcedRadix? c gs with
  | none =>
      rw [hr] at hl
      exact h.bareNumeral hchar htail hl
  | some r =>
      rw [hr] at hl
      have hne : gs ≠ [] := by
        rintro rfl
        simp [Scan.announcedRadix?] at hr
      exact (h.tail_of_ne_nil hne).markedNumeral hchar htail hl

theorem Extended.startsNumeral (c : Char) (h : Extended R tail gs hs) :
    startsNumeral c hs = startsNumeral c gs := by
  have hfalse : ∀ g ∈ tail.head?, Radix.dec.isDigit g.char = false := by
    intro g hg
    rcases htail g hg with hc | hc <;> rw [hc] <;> decide
  unfold Scan.startsNumeral
  rw [h.any_head hchar hfalse]

theorem Extended.operator? (due : Bool) (c : Char) (h : Extended R tail gs hs) :
    (operator? due c gs = none → operator? due c hs = none) ∧
    ∀ op rest, operator? due c gs = some (op, rest) →
      ∃ rest', operator? due c hs = some (op, rest') ∧ Extended R tail rest rest' := by
  have hnone : ∀ g ∈ tail.head?, pairedOperator? c g.char = none := by
    intro g hg
    unfold pairedOperator?
    rcases htail g hg with hc | hc <;> rw [hc] <;> split <;> simp_all
  have hpair := h.bind_head hchar hnone
  unfold Scan.operator?
  rw [hpair]
  cases hp : gs.head?.bind fun g => pairedOperator? c g.char with
  | some op =>
      have hne : gs ≠ [] := by
        rintro rfl
        cases hp
      refine ⟨fun hfalse => (by cases hfalse), ?_⟩
      intro op' rest' hop
      cases hop
      exact ⟨_, rfl, h.tail_of_ne_nil hne⟩
  | none =>
      cases hs' : singleOperator? due c with
      | none =>
          refine ⟨fun _ => rfl, ?_⟩
          intro op' rest' hop
          cases hop
      | some op =>
          refine ⟨fun hfalse => (by cases hfalse), ?_⟩
          intro op' rest' hop
          cases hop
          exact ⟨_, rfl, h⟩

/-- A lexeme is found in both rows, provided that words end alike in both. -/
theorem Extended.lexeme {g g' : Glyph} {l : Lexeme} (hg : g.char = g'.char)
    (h : Extended R tail gs hs)
    (hword : isWordChar g.char = true → Radix.dec.isDigit g.char = false →
      word due g.char hs = word due g.char gs ∧ Extended R tail (afterWord gs) (afterWord hs))
    (hl : lexeme radix due g gs = .ok (l, rest)) :
    ∃ rest', lexeme radix due g' hs = .ok (l, rest') ∧ Extended R tail rest rest' := by
  obtain ⟨hopNone, hopSome⟩ := h.operator? hchar htail due g.char
  have hnum := h.startsNumeral hchar htail g.char
  unfold Scan.lexeme at hl ⊢
  rw [← hg]
  cases hd : delimiter? g.char with
  | some l' =>
      rw [hd] at hl
      cases hl
      exact ⟨hs, rfl, h⟩
  | none =>
      rw [hd] at hl
      cases hop : Scan.operator? due g.char gs with
      | some x =>
          obtain ⟨op, rest''⟩ := x
          rw [hop] at hl
          cases hl
          obtain ⟨rest', hrest', hext⟩ := hopSome _ _ hop
          rw [hrest']
          exact ⟨rest', rfl, hext⟩
      | none =>
          rw [hop] at hl
          rw [hopNone hop]
          dsimp only at hl ⊢
          by_cases hw : (isWordChar g.char && !Radix.dec.isDigit g.char) = true
          · rw [if_pos hw] at hl ⊢
            cases hl
            rw [Bool.and_eq_true, Bool.not_eq_true'] at hw
            obtain ⟨hword, hafter⟩ := hword hw.1 hw.2
            rw [hword]
            exact ⟨_, rfl, hafter⟩
          · rw [if_neg hw] at hl ⊢
            rw [hnum]
            by_cases hn : Scan.startsNumeral g.char gs = true
            · rw [if_pos hn] at hl ⊢
              exact h.numeral hchar htail hl
            · rw [if_neg hn] at hl
              cases hl

end

/-! ## Alike glyphs

Words do hear of the blanks before a glyph, and so these must be the same from the second glyph of a
row on. The first one is let off (`Reads.extended`): nobody looks for a blank before a glyph that
begins a lexeme, and a text in parentheses may have one there that it did not have on its own. -/

/-- Glyphs that a reader cannot tell apart, though they may have different places. -/
def Alike (g g' : Glyph) : Prop :=
  g.char = g'.char ∧ g.spaced = g'.spaced

theorem Alike.char {g g' : Glyph} (h : Alike g g') : g.char = g'.char := h.1

/-- Words end alike. -/
theorem Extended.word (htail : Closing tail) (c : Char) (h : Extended Alike tail gs hs) :
    word due c hs = word due c gs ∧ Extended Alike tail (afterWord gs) (afterWord hs) := by
  have hp : ∀ {g g'}, Alike g g' → continuesWord g = continuesWord g' := by
    intro g g' hg
    rw [continuesWord, continuesWord, hg.1, hg.2]
  have hfalse : ∀ g ∈ tail.head?, continuesWord g = false := by
    intro g hg
    rcases htail g hg with hc | hc <;> rw [continuesWord, hc] <;> rfl
  have hparen : ∀ g ∈ tail.head?, (g.char == '(') = false := by
    intro g hg
    rcases htail g hg with hc | hc <;> rw [hc] <;> rfl
  obtain ⟨htake, hafter⟩ := h.span Alike.char hp hfalse
  have hopens : opensParen (afterWord hs) = opensParen (afterWord gs) :=
    hafter.any_head Alike.char (q := (· == '(')) hparen
  have htext : wordText c hs = wordText c gs := by
    unfold wordText
    rw [htake]
  refine ⟨?_, hafter⟩
  unfold Scan.word
  rw [htext, hopens]

/-- Glyphs that are read to their end are read the same in front of a closing tail. The first one
may also differ in whether a blank stands before it. -/
theorem Reads.extended (htail : Closing tail) (h : Reads radix due gs ts due' []) :
    ∀ hs : List Glyph, (∃ g g' gs' hs', gs = g :: gs' ∧ hs = g' :: hs' ∧ g.char = g'.char ∧
        Extended Alike tail gs' hs') ∨ Extended Alike tail gs hs →
      ∃ us, us.map Token.lexeme = ts.map Token.lexeme ∧ Reads radix due hs us due' tail := by
  generalize hrest : ([] : List Glyph) = rest at h
  induction h with
  | done =>
      subst hrest
      rintro hs (⟨g, g', gs', hs', hnil, -⟩ | hext)
      · cases hnil
      · rw [hext.nil]
        exact ⟨[], rfl, .done⟩
  | @token due due' g gs mid rest l ts hl _ ih =>
      intro hs hext
      obtain ⟨g', hs', rfl, hg, hext⟩ : ∃ g' hs', hs = g' :: hs' ∧ g.char = g'.char ∧
          Extended Alike tail gs hs' := by
        rcases hext with ⟨g₀, g', gs', hs', hgs, rfl, hg, hext⟩ | hext
        · cases hgs
          exact ⟨g', hs', rfl, hg, hext⟩
        · obtain ⟨g', hs', rfl, hg, hext⟩ := hext.cons
          exact ⟨g', hs', rfl, hg.1, hext⟩
      obtain ⟨mid', hl', hmid⟩ :=
        hext.lexeme Alike.char htail hg (fun _ _ => hext.word htail g.char) hl
      obtain ⟨us, hus, hreads⟩ := ih hrest mid' (.inr hmid)
      exact ⟨_ :: us, by rw [List.map_cons, List.map_cons, hus], .token hl' hreads⟩

end Reckon.Scan
