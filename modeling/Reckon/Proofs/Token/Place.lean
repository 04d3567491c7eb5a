import Reckon.Proofs.Token.Spelling
import Mathlib.Data.List.TakeWhile

/-!
# Where glyphs stand

Blanks are gone from a row of glyphs, so what stands side by side there may be far apart in the
text. Two facts lead back to it. The glyphs behind a glyph are those of the text behind its place
(`startingAt_split`), and a word is the one thing whose characters are next to each other in the
text as well (`takeWhile_startingAt`).
-/

namespace Reckon.Glyph

variable {position : Nat} {spaced : Bool} {g : Glyph} {gs used : List Glyph} {cs : List Char}

/-- The glyphs of a text are its characters that are no blanks. -/
theorem map_char_startingAt (position : Nat) (spaced : Bool) (cs : List Char) :
    (startingAt position spaced cs).map char = cs.filter fun c => !Text.isBlank c := by
  induction cs generalizing position spaced with
  | nil => rfl
  | cons c cs ih =>
      cases hc : Text.isBlank c with
      | true =>
          rw [startingAt_blank hc, List.filter_cons_of_neg (by simp [hc])]
          exact ih _ _
      | false =>
          rw [startingAt_cons hc, List.filter_cons_of_pos (by simp [hc]), List.map_cons, ih]

theorem startingAt_split (h : startingAt position spaced cs = used ++ g :: gs) :
    ∃ ds es, cs = ds ++ g.char :: es ∧ g.position = position + ds.length ∧
      Text.isBlank g.char = false ∧ (ds.filter fun c => !Text.isBlank c) = used.map char ∧
      gs = startingAt (g.position + 1) false es := by
  induction cs generalizing position spaced used with
  | nil => simp [startingAt] at h
  | cons c cs ih =>
      cases hc : Text.isBlank c with
      | true =>
          rw [startingAt_blank hc] at h
          obtain ⟨ds, es, rfl, hposition, hg, hds, hgs⟩ := ih h
          refine ⟨c :: ds, es, rfl, ?_, hg, ?_, hgs⟩
          · rw [hposition, List.length_cons]
            omega
          · rw [List.filter_cons_of_neg (by simp [hc]), hds]
      | false =>
          rw [startingAt_cons hc] at h
          cases used with
          | nil =>
              cases h
              exact ⟨[], cs, rfl, rfl, hc, rfl, rfl⟩
          | cons u used =>
              rw [List.cons_append, List.cons.injEq] at h
              obtain ⟨rfl, h⟩ := h
              obtain ⟨ds, es, rfl, hposition, hg, hds, hgs⟩ := ih h
              refine ⟨c :: ds, es, rfl, ?_, hg, ?_, hgs⟩
              · rw [hposition, List.length_cons]
                omega
              · rw [List.filter_cons_of_pos (by simp [hc]), hds, List.map_cons]

theorem exists_startingAt (h : gs <:+ startingAt position spaced cs) :
    ∃ position' spaced' ds, gs = startingAt position' spaced' ds := by
  obtain ⟨used, h⟩ := h
  cases gs with
  | nil => exact ⟨position, spaced, [], rfl⟩
  | cons g gs =>
      obtain ⟨-, es, -, -, hblank, -, hgs⟩ := startingAt_split h.symm
      exact ⟨g.position, g.spaced, g.char :: es, by rw [startingAt_cons hblank, hgs]⟩

/-- Places are those of the text. -/
theorem bounds_of_mem (h : g ∈ startingAt position spaced cs) :
    position ≤ g.position ∧ g.position < position + cs.length := by
  obtain ⟨used, gs, hsplit⟩ := List.append_of_mem h
  obtain ⟨ds, es, rfl, hposition, -⟩ := startingAt_split hsplit
  rw [List.length_append, List.length_cons]
  omega

theorem pairwise_startingAt (position : Nat) (spaced : Bool) (cs : List Char) :
    (startingAt position spaced cs).Pairwise (·.position < ·.position) := by
  induction cs generalizing position spaced with
  | nil => exact .nil
  | cons c cs ih =>
      cases hc : Text.isBlank c with
      | true =>
          rw [startingAt_blank hc]
          exact ih _ _
      | false =>
          rw [startingAt_cons hc]
          exact .cons (fun g hg => (bounds_of_mem hg).1) (ih _ _)

/-- The first glyph behind a blank knows of it. -/
theorem spaced_of_mem_head? (h : g ∈ (startingAt position true cs).head?) : g.spaced = true := by
  induction cs generalizing position with
  | nil => cases h
  | cons c cs ih =>
      cases hc : Text.isBlank c with
      | true =>
          rw [startingAt_blank hc] at h
          exact ih h
      | false =>
          rw [startingAt_cons hc] at h
          cases h
          rfl

theorem takeWhile_startingAt (position : Nat) (cs : List Char) :
    (startingAt position false cs).takeWhile Scan.continuesWord =
      startingAt position false (cs.takeWhile Scan.isWordChar) := by
  induction cs generalizing position with
  | nil => rfl
  | cons c cs ih =>
      cases hc : Scan.isWordChar c with
      | true =>
          have hblank : Text.isBlank c = false := Scan.isBlank_of_isWordChar hc
          have hcontinues : Scan.continuesWord ⟨c, position, false⟩ = true := by
            simp [Scan.continuesWord, hc]
          rw [startingAt_cons hblank, List.takeWhile_cons_of_pos hcontinues, ih,
            List.takeWhile_cons_of_pos hc, startingAt_cons hblank]
      | false =>
          rw [List.takeWhile_cons_of_neg (by simp [hc])]
          refine (Scan.span_of_head fun g hg => ?_).1
          -- A word ends at a blank, and at a character that belongs to no word.
          cases hblank : Text.isBlank c with
          | true =>
              rw [startingAt_blank hblank] at hg
              simp [Scan.continuesWord, spaced_of_mem_head? hg]
          | false =>
              rw [startingAt_cons hblank] at hg
              cases hg
              simp [Scan.continuesWord, hc]

end Reckon.Glyph

namespace Reckon.Scan

variable {radix : Radix} {due due' : Bool} {gs rest : List Glyph} {ts : List Token}

/-- A word is read off the text directly. -/
theorem wordText_startingAt (c : Char) (position : Nat) (cs : List Char) :
    wordText c (Glyph.startingAt position false cs) =
      String.ofList ((c :: cs.takeWhile isWordChar).map Char.toLower) := by
  have hword : ∀ d ∈ cs.takeWhile isWordChar, (!Text.isBlank d) = true := by
    intro d hd
    simp [isBlank_of_isWordChar (List.mem_takeWhile_imp hd)]
  rw [wordText, Glyph.takeWhile_startingAt, Glyph.map_char_startingAt,
    List.filter_eq_self.mpr hword]

/-- The places of tokens are those of the glyphs they begin with. -/
theorem Reads.sublist (h : Reads radix due gs ts due' rest) :
    (ts.map Token.position).Sublist (gs.map Glyph.position) := by
  induction h with
  | done => exact List.nil_sublist _
  | @token _ _ g gs mid _ l ts hl _ ih =>
      have hmid : (mid.map Glyph.position).Sublist (gs.map Glyph.position) :=
        (lexeme_suffix hl).sublist.map _
      exact (ih.trans hmid).cons_cons g.position

end Reckon.Scan
