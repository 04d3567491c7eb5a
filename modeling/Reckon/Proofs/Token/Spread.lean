import Reckon.Proofs.Token.Lexed
import Reckon.Proofs.Token.Place

/-!
# Blanks between the characters of a text

A text may be spread out by blanks: its tokens stay the same, and each moves with the character it
begins with. Blanks may come between any two characters, even those of a numeral, of a mark or of an
operator of two characters, but not between those of a word.

The glyphs of the spread text are those of the text, one by one, with other places
(`startingAt_spread`). No reader but that of words minds (`Extended.lexeme`), and this one asks only
for the glyphs that go on with a word, which stand side by side in the text. So a lexeme that is
found in one of the two rows is found in the other.
-/

namespace Reckon

variable {gap : Nat → List Char}

namespace Text

/-- The characters from the given place on, with `gap p` in front of the one at place `p`, and in
front of the end. -/
def spread (gap : Nat → List Char) (position : Nat) : List Char → List Char
  | [] => gap position
  | c :: cs => gap position ++ c :: Text.spread gap (position + 1) cs

/-- Where the character at the given place has moved. -/
def moved (gap : Nat → List Char) : Nat → Nat
  | 0 => 0
  | position + 1 => Text.moved gap position + (gap (position + 1)).length + 1

theorem moved_lt_succ (gap : Nat → List Char) (position : Nat) :
    moved gap position < moved gap (position + 1) := by
  rw [moved]
  omega

theorem moved_le (gap : Nat → List Char) {p q : Nat} (h : p ≤ q) : moved gap p ≤ moved gap q := by
  induction h with
  | refl => exact Nat.le_refl _
  | step _ ih => exact Nat.le_trans ih (Nat.le_of_lt (moved_lt_succ gap _))

theorem getElem?_spread {position i j : Nat} {cs : List Char}
    (h : moved gap (position + 1 + i) = moved gap position + j + 1) :
    (spread gap (position + 1) cs)[j]? = cs[i]? := by
  induction cs generalizing position i j with
  | nil =>
      have hle := moved_le gap (Nat.le_add_right (position + 1) i)
      rw [moved] at hle
      exact List.getElem?_eq_none (by rw [spread]; omega)
  | cons c cs ih =>
      have hle := moved_le gap (Nat.le_add_right (position + 1) i)
      rw [moved] at hle
      rw [spread, List.getElem?_append_right (by omega)]
      cases i with
      | zero =>
          rw [Nat.add_zero, moved] at h
          rw [show j - (gap (position + 1)).length = 0 by omega]
          rfl
      | succ i =>
          have hlt := moved_le gap (show position + 1 + 1 ≤ position + 1 + (i + 1) by omega)
          rw [moved, moved] at hlt
          obtain ⟨k, rfl⟩ : ∃ k, j = (gap (position + 1)).length + k + 1 :=
            ⟨j - (gap (position + 1)).length - 1, by omega⟩
          rw [show (gap (position + 1)).length + k + 1 - (gap (position + 1)).length = k + 1 by
            omega, List.getElem?_cons_succ, List.getElem?_cons_succ]
          refine ih ?_
          rw [show position + 1 + 1 + i = position + 1 + (i + 1) by omega, h, moved]
          omega

end Text

/-- The glyph where the text is spread. -/
def Glyph.spread (gap : Nat → List Char) (g : Glyph) : Glyph :=
  { g with
    position := Text.moved gap g.position
    spaced := g.spaced || !(gap g.position).isEmpty }

/-- The token where the text is spread. -/
def Token.spread (gap : Nat → List Char) (t : Token) : Token :=
  { t with position := Text.moved gap t.position }

namespace Glyph

theorem startingAt_blanks {bs : List Char} (h : ∀ c ∈ bs, Text.isBlank c = true) (position : Nat)
    (spaced : Bool) (cs : List Char) : startingAt position spaced (bs ++ cs) =
      startingAt (position + bs.length) (spaced || !bs.isEmpty) cs := by
  induction bs generalizing position spaced with
  | nil => simp
  | cons b bs ih =>
      obtain ⟨hb, hbs⟩ := List.forall_mem_cons.mp h
      rw [List.cons_append, startingAt_blank hb, ih hbs, List.length_cons]
      simp [Nat.add_assoc, Nat.add_comm 1]

theorem startingAt_spread (hblank : ∀ p, ∀ c ∈ gap p, Text.isBlank c = true) (position : Nat)
    (spaced : Bool) (cs : List Char) :
    startingAt (Text.moved gap position + 1) spaced (Text.spread gap (position + 1) cs) =
      (startingAt (position + 1) spaced cs).map (Glyph.spread gap) := by
  have hplace (p : Nat) :
      Text.moved gap p + 1 + (gap (p + 1)).length = Text.moved gap (p + 1) := by
    rw [Text.moved]
    omega
  induction cs generalizing position spaced with
  | nil =>
      have hgap := startingAt_blanks (hblank (position + 1)) (Text.moved gap position + 1) spaced []
      rw [List.append_nil] at hgap
      rw [Text.spread, hgap]
      rfl
  | cons c cs ih =>
      rw [Text.spread, startingAt_blanks (hblank _), hplace]
      cases hc : Text.isBlank c with
      | true => rw [startingAt_blank hc, startingAt_blank hc, ih]
      | false =>
          rw [startingAt_cons hc, startingAt_cons hc, ih]
          rfl

end Glyph

/-! ## Words and gaps

Characters alone do not tell where a gap does harm. A blank may come between the letters of `0xAB`,
and not between those of `xAB`. Hence `InsideWord` speaks of tokens that have been read, and of as
many as can be read: behind an error there are no words, and gaps are free. -/

namespace Scan

variable {radix : Radix} {due : Bool} {g : Glyph} {gs mid : List Glyph}

/-- The place is that of a character of a word which is not its first. -/
def InsideWord (radix : Radix) (due : Bool) (gs : List Glyph) (position : Nat) : Prop :=
  ∃ ts due' rest, Reads radix due gs ts due' rest ∧ ∃ t ∈ ts, t.lexeme.isWord = true ∧
    t.position < position ∧ position < t.position + t.lexeme.text.length

theorem InsideWord.token {l : Lexeme} (hl : lexeme radix due g gs = .ok (l, mid)) {position : Nat}
    (h : InsideWord radix l.expectsOperand mid position) :
    InsideWord radix due (g :: gs) position := by
  obtain ⟨ts, due', rest, hreads, t, ht, hinside⟩ := h
  exact ⟨_, due', rest, .token hl hreads, t, List.mem_cons_of_mem _ ht, hinside⟩

theorem isWord_word (due : Bool) (c : Char) (gs : List Glyph) :
    (word due c gs).isWord = true ∧ (word due c gs).text = wordText c gs := by
  unfold word
  dsimp only
  split
  · next hxor =>
      rw [Bool.and_eq_true, beq_iff_eq] at hxor
      exact ⟨rfl, hxor.1.symm⟩
  · split <;> exact ⟨rfl, rfl⟩

/-- The glyphs that go on with a word are inside of it. -/
theorem insideWord_of_mem {cs : List Char} {h : Glyph} (hg : isWordChar g.char = true)
    (hdigit : Radix.dec.isDigit g.char = false)
    (hmem : h ∈ (Glyph.startingAt (g.position + 1) false cs).takeWhile continuesWord) :
    InsideWord radix due (g :: Glyph.startingAt (g.position + 1) false cs) h.position := by
  obtain ⟨hword, htext⟩ := isWord_word due g.char (Glyph.startingAt (g.position + 1) false cs)
  refine ⟨_, _, _, .token (lexeme_word hg hdigit) .done, _, List.mem_singleton_self _, hword, ?_⟩
  rw [Glyph.takeWhile_startingAt] at hmem
  have hbounds := Glyph.bounds_of_mem hmem
  simp only [htext, wordText_startingAt, String.length_ofList, List.length_map, List.length_cons]
  omega

theorem span_congr {α : Type} {p q : α → Bool} {xs : List α}
    (hpq : ∀ x ∈ xs.takeWhile p, q x = true) (hqp : ∀ x, q x = true → p x = true) :
    xs.takeWhile q = xs.takeWhile p ∧ xs.dropWhile q = xs.dropWhile p := by
  induction xs with
  | nil => exact ⟨rfl, rfl⟩
  | cons x xs ih =>
      cases hx : p x with
      | true =>
          rw [List.takeWhile_cons_of_pos hx] at hpq ⊢
          obtain ⟨hqx, hpq⟩ := List.forall_mem_cons.mp hpq
          obtain ⟨htake, hdrop⟩ := ih hpq
          rw [List.takeWhile_cons_of_pos hqx, htake, List.dropWhile_cons_of_pos hqx, hdrop,
            List.dropWhile_cons_of_pos hx]
          exact ⟨rfl, rfl⟩
      | false =>
          have hqx : q x = false := by
            cases hqx : q x with
            | false => rfl
            | true => rw [← hx, hqp x hqx]
          simp [hx, hqx]

theorem word_spread (hgap : ∀ h ∈ gs.takeWhile continuesWord, gap h.position = []) (due : Bool)
    (c : Char) :
    word due c (gs.map (Glyph.spread gap)) = word due c gs ∧
      afterWord (gs.map (Glyph.spread gap)) = (afterWord gs).map (Glyph.spread gap) := by
  have hinside : ∀ h ∈ gs.takeWhile continuesWord, (continuesWord ∘ Glyph.spread gap) h = true := by
    intro h hh
    have hcontinues : continuesWord h = true := List.mem_takeWhile_imp hh
    simpa [continuesWord, Glyph.spread, hgap h hh] using hcontinues
  have honly : ∀ h, (continuesWord ∘ Glyph.spread gap) h = true → continuesWord h = true := by
    intro h hh
    simp only [Function.comp_apply, continuesWord, Glyph.spread, Bool.and_eq_true,
      Bool.not_eq_true', Bool.or_eq_false_iff] at hh ⊢
    exact ⟨hh.1, hh.2.1⟩
  obtain ⟨htake, hdrop⟩ := span_congr hinside honly
  have hafter : afterWord (gs.map (Glyph.spread gap)) = (afterWord gs).map (Glyph.spread gap) := by
    rw [afterWord, List.dropWhile_map, hdrop, afterWord]
  have htext : wordText c (gs.map (Glyph.spread gap)) = wordText c gs := by
    rw [wordText, List.takeWhile_map, htake, List.map_map]
    rfl
  have hopens (hs : List Glyph) : opensParen (hs.map (Glyph.spread gap)) = opensParen hs := by
    cases hs <;> rfl
  refine ⟨?_, hafter⟩
  unfold word
  rw [htext, hafter, hopens]

theorem extended_map (f : Glyph → Glyph) (gs : List Glyph) :
    Extended (fun g g' => g' = f g) [] gs (gs.map f) ∧
      Extended (fun g' g => g' = f g) [] (gs.map f) gs := by
  induction gs with
  | nil => exact ⟨⟨[], .nil, rfl⟩, ⟨[], .nil, rfl⟩⟩
  | cons g gs ih =>
      obtain ⟨⟨mid, hmid, hmap⟩, ⟨mid', hmid', hgs⟩⟩ := ih
      exact ⟨⟨_, .cons rfl hmid, by rw [List.map_cons, hmap]; rfl⟩,
        ⟨_, .cons rfl hmid', congrArg (g :: ·) hgs⟩⟩

theorem Extended.eq_map {f : Glyph → Glyph} {hs : List Glyph}
    (h : Extended (fun g g' => g' = f g) [] gs hs) : hs = gs.map f := by
  induction gs generalizing hs with
  | nil => exact h.nil
  | cons g gs ih =>
      obtain ⟨g', hs', rfl, rfl, hrest⟩ := h.cons
      rw [ih hrest, List.map_cons]

theorem lexeme_spread
    (hgap : isWordChar g.char = true → Radix.dec.isDigit g.char = false →
      ∀ h ∈ gs.takeWhile continuesWord, gap h.position = []) :
    (lexeme radix due (g.spread gap) (gs.map (Glyph.spread gap))).toOption =
      (lexeme radix due g gs).toOption.map fun x => (x.1, x.2.map (Glyph.spread gap)) := by
  have htail : Closing [] := fun _ h => by cases h
  have hword := fun hg hdigit => word_spread (hgap hg hdigit) due g.char
  have hchar : g.char = (g.spread gap).char := rfl
  cases hl : lexeme radix due g gs with
  | ok x =>
      obtain ⟨l, rest⟩ := x
      obtain ⟨rest', hl', hrest⟩ := (extended_map (Glyph.spread gap) gs).1.lexeme
        (fun h => by rw [h]; rfl) htail hchar
        (fun hg hdigit => by
          obtain ⟨hword, hafter⟩ := hword hg hdigit
          exact ⟨hword, hafter ▸ (extended_map _ _).1⟩) hl
      rw [hl', hrest.eq_map]
      rfl
  | error e =>
      cases hl' : lexeme radix due (g.spread gap) (gs.map (Glyph.spread gap)) with
      | error e' => rfl
      | ok x =>
          -- What is found where the text is spread would have been found before.
          obtain ⟨l, rest'⟩ := x
          obtain ⟨rest, hfound, -⟩ := (extended_map (Glyph.spread gap) gs).2.lexeme
            (fun h => by rw [h]; rfl) htail hchar.symm
            (fun hg hdigit => by
              obtain ⟨hword, hafter⟩ := hword hg hdigit
              exact ⟨hword.symm, hafter ▸ (extended_map _ _).2⟩) hl'
          rw [hfound] at hl
          cases hl

theorem tokens_spread {position : Nat} {spaced : Bool} {cs : List Char}
    (hgs : gs = Glyph.startingAt position spaced cs)
    (hgap : ∀ p, InsideWord radix due gs p → gap p = []) :
    (tokens radix due (gs.map (Glyph.spread gap))).toOption =
      (tokens radix due gs).toOption.map (List.map (Token.spread gap)) := by
  -- By induction on the length: what is left of a row are glyphs of the text again.
  induction hlength : gs.length using Nat.strongRecOn
    generalizing due gs position spaced cs with
  | ind n ih =>
      cases gs with
      | nil =>
          rw [List.map_nil, tokens_nil]
          rfl
      | cons g gs =>
          have hsplit : Glyph.startingAt position spaced cs = [] ++ g :: gs := hgs.symm
          obtain ⟨-, es, -, -, -, -, hrest⟩ := Glyph.startingAt_split hsplit
          have hword (hg : isWordChar g.char = true) (hdigit : Radix.dec.isDigit g.char = false) :
              ∀ h ∈ gs.takeWhile continuesWord, gap h.position = [] := by
            intro h hh
            refine hgap _ ?_
            rw [hrest] at hh ⊢
            exact insideWord_of_mem hg hdigit hh
          have hlexeme :
              (lexeme radix due (g.spread gap) (gs.map (Glyph.spread gap))).toOption = _ :=
            lexeme_spread hword
          rw [List.map_cons, tokens_cons, tokens_cons]
          cases hl : lexeme radix due g gs with
          | error e =>
              rw [hl] at hlexeme
              cases hl' : lexeme radix due (g.spread gap) (gs.map (Glyph.spread gap)) with
              | error e' => rfl
              | ok x =>
                  rw [hl'] at hlexeme
                  cases hlexeme
          | ok x =>
              obtain ⟨l, mid⟩ := x
              rw [hl] at hlexeme
              rw [eq_ok_of_toOption hlexeme]
              have hmid : mid <:+ g :: gs := (lexeme_suffix hl).trans (List.suffix_cons g gs)
              obtain ⟨position', spaced', ds, hds⟩ := Glyph.exists_startingAt (hgs ▸ hmid)
              have hlt : mid.length < n := by
                rw [← hlength, List.length_cons]
                exact Nat.lt_succ_of_le (lexeme_suffix hl).length_le
              have ih := ih _ hlt hds (fun p hp => hgap p (hp.token hl)) rfl
              show ((tokens radix l.expectsOperand (mid.map _)).map (_ :: ·)).toOption =
                ((tokens radix l.expectsOperand mid).map (_ :: ·)).toOption.map _
              rw [toOption_map, toOption_map, ih, Option.map_map, Option.map_map]
              rfl

end Scan

/-- The place in the text is that of a character of a word which is not its first. Only words that
are read count; there are none behind the place of an error. -/
def InsideWord (radix : Radix) (text : String) (position : Nat) : Prop :=
  Scan.InsideWord radix true (Glyph.ofText text.toList) position

/-- In a text that has tokens these are the places inside of its names, of its call heads and of its
operators `xor`. -/
theorem insideWord_iff {radix : Radix} {text : String} {tokens : List Token} {position : Nat}
    (h : tokenize radix text = .ok tokens) :
    InsideWord radix text position ↔ ∃ t ∈ tokens, t.lexeme.isWord = true ∧
      t.position < position ∧ position < t.position + t.lexeme.text.length := by
  obtain ⟨due, hreads⟩ := Scan.exists_reads h
  constructor
  · rintro ⟨ts, due', rest, hbegun, t, ht, hinside⟩
    exact ⟨t, (hbegun.initial hreads).subset ht, hinside⟩
  · exact fun hinside => ⟨tokens, due, [], hreads, hinside⟩

/-- Blanks that are inserted anywhere but inside of words change nothing but places: the text has
tokens if it had tokens before, and each is where the character has moved that it begins with. -/
theorem tokenize_spread {radix : Radix} {text : String}
    (hblank : ∀ p, ∀ c ∈ gap p, Text.isBlank c = true)
    (hgap : ∀ p, InsideWord radix text p → gap p = []) :
    (tokenize radix (String.ofList (Text.spread gap 1 text.toList))).toOption =
        (tokenize radix text).toOption.map (List.map (Token.spread gap)) ∧
      ∀ i, (Text.spread gap 1 text.toList)[Text.moved gap (i + 1) - 1]? = text.toList[i]? := by
  constructor
  · have hglyphs := Glyph.startingAt_spread hblank 0 false text.toList
    rw [tokenize, String.toList_ofList]
    show (Scan.tokens radix true (Glyph.startingAt (Text.moved gap 0 + 1) false _)).toOption = _
    rw [hglyphs]
    exact Scan.tokens_spread rfl hgap
  · intro i
    show (Text.spread gap (0 + 1) text.toList)[_]? = _
    refine Text.getElem?_spread ?_
    have hlt := Text.moved_lt_succ gap i
    rw [Nat.zero_add, Nat.add_comm 1 i, Text.moved]
    omega

/-- Ideographic spaces in a mark, in an operator, in a numeral, behind a word and at the end. -/
theorem tokenize_spread_ideographic :
    let gap : Nat → List Char := fun p => if p ∈ [2, 6, 9, 11, 13] then ['\u3000'] else []
    (∀ p, ∀ c ∈ gap p, Text.isBlank c = true) ∧
    (∀ p, InsideWord .dec "0x1F**ab(.5)" p → gap p = []) ∧
    (tokenize .dec "0\u3000x1F*\u3000*ab\u3000(.\u30005)\u3000").toOption =
      some [⟨.number { text := "1F", radix := .hex, marked := true }, 1⟩,
        ⟨.operator (.binary .doubleStar), 6⟩, ⟨.callHead "ab", 9⟩, ⟨.leftParen, 12⟩,
        ⟨.number { text := ".5", fractional := true }, 13⟩, ⟨.rightParen, 16⟩] := by
  intro gap
  have hblank : ∀ p, ∀ c ∈ gap p, Text.isBlank c = true := by
    intro p c hc
    have hc : c = '\u3000' := by
      simp only [gap] at hc
      split at hc <;> simp_all
    rw [hc]
    decide
  have htokens : tokenize .dec "0x1F**ab(.5)" = .ok _ := eq_ok_of_toOption
    (show _ = some [⟨.number { text := "1F", radix := .hex, marked := true }, 1⟩,
      ⟨.operator (.binary .doubleStar), 5⟩, ⟨.callHead "ab", 7⟩, ⟨.leftParen, 9⟩,
      ⟨.number { text := ".5", fractional := true }, 10⟩, ⟨.rightParen, 12⟩] by decide +kernel)
  have hgap : ∀ p, InsideWord .dec "0x1F**ab(.5)" p → gap p = [] := by
    intro p hp
    obtain ⟨t, ht, hword, hlt, hlt'⟩ := (insideWord_iff htokens).mp hp
    have ht : t = ⟨.callHead "ab", 7⟩ := by
      simp only [List.mem_cons, List.not_mem_nil, or_false] at ht
      rcases ht with rfl | rfl | rfl | rfl | rfl | rfl
      all_goals first | rfl | cases hword
    subst ht
    have hp : p = 8 := by
      change p < 7 + 2 at hlt'
      change 7 < p at hlt
      omega
    rw [hp]
    rfl
  have htext : String.ofList (Text.spread gap 1 "0x1F**ab(.5)".toList) =
      "0\u3000x1F*\u3000*ab\u3000(.\u30005)\u3000" := by
    decide +kernel
  have hspread := (tokenize_spread hblank hgap).1
  rw [htext, htokens] at hspread
  exact ⟨hblank, hgap, hspread⟩

end Reckon
