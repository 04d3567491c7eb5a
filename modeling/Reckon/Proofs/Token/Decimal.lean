import Reckon.Proofs.Token.Lexed
import Reckon.Proofs.Token.Lossless

/-!
# Decimals that are written out

A text in the grammar of decimals that begins with a digit is read as one numeral, all of it. Since
a reader keeps all characters it takes (`takes_decimalBody`), only what it leaves has to be looked
at: each piece of the numeral ends where the next one begins, and the last one at the end.
-/

namespace Reckon

/-- A point with the digits after it, or nothing. -/
def IsFraction (cs : List Char) : Prop :=
  cs = [] ∨ ∃ es, cs = '.' :: es ∧ ∀ c ∈ es, Radix.dec.isDigit c = true

/-- The sign in front of `cs`, if there is one. -/
def IsSignBefore (s cs : List Char) : Prop :=
  (s = [] ∧ ∀ c ∈ cs.head?, c ≠ '+' ∧ c ≠ '-') ∨ s = ['+'] ∨ s = ['-']

/-- The characters are a decimal numeral that begins with a digit, and they denote the decimal. -/
def Decimal.Written (cs : List Char) (d : Decimal) : Prop :=
  ∃ whole fraction exponent, IsRun .dec whole ∧ IsFraction fraction ∧
    (exponent = [] ∨ IsExponent exponent) ∧ cs = whole ++ (fraction ++ exponent) ∧
    ofText? cs = some d

theorem head_of_exponent {cs : List Char} (h : cs = [] ∨ IsExponent cs) :
    ∀ c ∈ cs.head?, (Radix.dec.isDigit c || c == '_') = false ∧ c ≠ '.' := by
  rcases h with rfl | ⟨_, ds, ⟨e, s, he, -, rfl⟩, -, rfl⟩
  · intro c hc
    cases hc
  · intro c hc
    cases hc
    rcases he with rfl | rfl <;> decide

theorem head_of_fraction {cs ds : List Char} (h : IsFraction cs) (hds : ds = [] ∨ IsExponent ds) :
    ∀ c ∈ (cs ++ ds).head?, (Radix.dec.isDigit c || c == '_') = false := by
  rcases h with rfl | ⟨es, rfl, -⟩
  · exact fun c hc => (head_of_exponent hds c hc).1
  · intro c hc
    cases hc
    decide

theorem isDecimalChar_of_mem {whole fraction exponent : List Char} (hwhole : IsRun .dec whole)
    (hfraction : IsFraction fraction) (hexponent : exponent = [] ∨ IsExponent exponent) :
    ∀ c ∈ whole ++ (fraction ++ exponent), Scan.isDecimalChar c = true := by
  have hdigits {ds : List Char} (h : ∀ c ∈ ds, Radix.dec.isDigit c = true) :
      ∀ c ∈ ds, Scan.isDecimalChar c = true := fun c hc => Scan.isDecimalChar_of_isDigit (h c hc)
  refine List.forall_mem_append.mpr ⟨hdigits hwhole.2, List.forall_mem_append.mpr ⟨?_, ?_⟩⟩
  · rcases hfraction with rfl | ⟨es, rfl, hes⟩
    · simp
    · exact List.forall_mem_cons.mpr ⟨by decide, hdigits hes⟩
  · rcases hexponent with rfl | ⟨head, ds, hhead, hds, rfl⟩
    · simp
    · exact List.forall_mem_append.mpr
        ⟨Scan.isDecimalChar_of_mem_exponentHead hhead, hdigits hds.2⟩

/-- A numeral that is put together from its pieces. -/
theorem Decimal.written {whole fraction es exponent : List Char} {n : Nat} {k : Int}
    (hwhole : whole ≠ []) (hfraction : fraction = [] ∧ es = [] ∨ fraction = '.' :: es)
    (hexponent : exponent = [] ∨ IsExponent exponent)
    (hn : Radix.dec.value? (whole ++ es) = some n) (hk : exponent? exponent = some k) :
    Written (whole ++ (fraction ++ exponent)) ⟨n, k - es.length⟩ := by
  obtain ⟨hdigits, hes⟩ := List.forall_mem_append.mp (Radix.isDigit_of_value? hn)
  have hshape : IsFraction fraction := hfraction.imp And.left fun h => ⟨es, h, hes⟩
  refine ⟨whole, fraction, exponent, ⟨hwhole, hdigits⟩, hshape, hexponent, rfl, ?_⟩
  have hhead : ∀ c ∈ (fraction ++ exponent).head?, Radix.dec.isDigit c = false := fun c hc =>
    (Bool.or_eq_false_iff.mp (head_of_fraction hshape hexponent c hc)).1
  have hstop : ∀ c ∈ exponent.head?, Radix.dec.isDigit c = false := fun c hc =>
    (Bool.or_eq_false_iff.mp (head_of_exponent hexponent c hc).1).1
  have htake : (whole ++ (fraction ++ exponent)).takeWhile Radix.dec.isDigit = whole := by
    rw [List.takeWhile_append_of_pos hdigits, (Scan.span_of_head hhead).1, List.append_nil]
  have hdrop : (whole ++ (fraction ++ exponent)).dropWhile Radix.dec.isDigit =
      fraction ++ exponent := by
    rw [List.dropWhile_append_of_pos hdigits, (Scan.span_of_head hhead).2]
  have hsplit : splitFraction (fraction ++ exponent) = (es, exponent) := by
    rcases hfraction with ⟨rfl, rfl⟩ | rfl
    · rw [List.nil_append]
      unfold splitFraction
      split
      · next c cs =>  exact absurd rfl (head_of_exponent hexponent '.' rfl).2
      · rfl
    · rw [List.cons_append, splitFraction, List.takeWhile_append_of_pos hes,
        List.dropWhile_append_of_pos hes, (Scan.span_of_head hstop).1,
        (Scan.span_of_head hstop).2, List.append_nil]
  have hempty : (whole ++ es).isEmpty = false := by simp [hwhole]
  simp only [ofText?, htake, hdrop, hsplit, natural?, hempty, hn, hk]
  rfl

namespace Scan

variable {gs : List Glyph} {cs ds es : List Char}

/-- A run of digits and underscores that is followed by neither is taken as a whole. -/
theorem run_of_map_char {r : Radix} (hgs : gs.map Glyph.char = ds ++ cs)
    (hds : ∀ c ∈ ds, r.isDigit c = true ∨ c = '_')
    (hcs : ∀ c ∈ cs.head?, (r.isDigit c || c == '_') = false) :
    runDigits r gs = ds.filter (· != '_') ∧ (afterRun r gs).map Glyph.char = cs := by
  have hrun : inRun r = (fun c => r.isDigit c || c == '_') ∘ Glyph.char := rfl
  have hall : ∀ c ∈ ds, (r.isDigit c || c == '_') = true := by
    intro c hc
    simpa using hds c hc
  obtain ⟨htake, hdrop⟩ := span_of_head hcs
  constructor
  · rw [runDigits, hrun, ← List.takeWhile_map, hgs, List.takeWhile_append_of_pos hall, htake,
      List.append_nil]
  · rw [afterRun, hrun, ← List.dropWhile_map, hgs, List.dropWhile_append_of_pos hall, hdrop]

theorem map_char_afterRun {r : Radix} (hgs : gs.map Glyph.char = ds ++ cs)
    (hds : ∀ c ∈ ds, r.isDigit c = true)
    (hcs : ∀ c ∈ cs.head?, (r.isDigit c || c == '_') = false) :
    (afterRun r gs).map Glyph.char = cs :=
  (run_of_map_char hgs (fun c hc => .inl (hds c hc)) hcs).2

theorem sign_of_map_char (hgs : gs.map Glyph.char = ds ++ cs) (hds : IsSignBefore ds cs) :
    (sign gs).1 = ds ∧ (sign gs).2.map Glyph.char = cs := by
  rcases hds with ⟨rfl, hcs⟩ | rfl | rfl
  · cases gs with
    | nil => exact ⟨rfl, hgs⟩
    | cons g gs =>
        have hg : (g.char == '+' || g.char == '-') = false := by
          simpa using hcs g.char (by rw [← List.nil_append cs, ← hgs]; rfl)
        simp only [sign, hg]
        exact ⟨rfl, hgs⟩
  all_goals
    cases gs with
    | nil => cases hgs
    | cons g gs =>
        obtain ⟨hg, hgs⟩ := List.cons.inj hgs
        rw [sign, hg]
        exact ⟨by simp, hgs⟩

/-- Nothing is left behind an exponent at the end. -/
theorem exponent_snd (hgs : gs.map Glyph.char = cs) (hcs : cs = [] ∨ IsExponent cs) :
    (exponent gs).2 = [] := by
  cases gs with
  | nil => rfl
  | cons g gs =>
      rcases hcs with rfl | ⟨_, ds, ⟨e, s, he, hs, rfl⟩, ⟨-, hds⟩, rfl⟩
      · cases hgs
      · obtain ⟨hg, hgs⟩ := List.cons.inj hgs
        have hmark : (g.char == 'e' || g.char == 'E') = true := by
          rcases he with rfl | rfl <;> rw [hg] <;> decide
        have hbefore : IsSignBefore s ds := by
          refine hs.imp_left fun hnil => ⟨hnil, fun c hc => ?_⟩
          have hdigit := hds c (List.mem_of_mem_head? hc)
          constructor <;> (rintro rfl; exact absurd hdigit (by decide))
        have hsign := (sign_of_map_char hgs hbefore).2
        rw [← List.append_nil ds] at hsign
        rw [exponent, hmark]
        exact List.map_eq_nil_iff.mp
          (map_char_afterRun hsign hds (by intro c hc; cases hc))

theorem map_char_fraction (hgs : gs.map Glyph.char = ds ++ cs)
    (hds : IsFraction ds)
    (hcs : ∀ c ∈ cs.head?, (Radix.dec.isDigit c || c == '_') = false ∧ c ≠ '.') :
    (fraction gs).2.map Glyph.char = cs := by
  rcases hds with rfl | ⟨es, rfl, hes⟩
  · rw [fraction_eq_nil]
    · exact hgs
    · intro g hg
      refine (hcs g.char ?_).2
      rw [← List.nil_append cs, ← hgs, List.head?_map, hg]
      rfl
  · cases gs with
    | nil => cases hgs
    | cons g gs =>
        obtain ⟨hg, hgs⟩ := List.cons.inj hgs
        rw [fraction, hg]
        exact map_char_afterRun hgs hes fun c hc => (hcs c hc).1

theorem ofMarkLetter?_of_isDecimalChar {c : Char} (h : isDecimalChar c = true) :
    Radix.ofMarkLetter? c = none := by
  simp only [isDecimalChar, Bool.or_eq_true, beq_iff_eq] at h
  rcases h with ((((h | rfl) | rfl) | rfl) | rfl) | rfl
  · exact Radix.ofMarkLetter?_of_isDigit h
  all_goals decide +kernel

theorem decimalBody_written {c : Char} {whole fraction exponent : List Char}
    (hwhole : IsRun .dec (c :: whole)) (hfraction : IsFraction fraction)
    (hexponent : exponent = [] ∨ IsExponent exponent)
    (hgs : gs.map Glyph.char = whole ++ (fraction ++ exponent)) :
    decimalBody c gs = (c :: gs.map Glyph.char, []) := by
  obtain ⟨hc, hrun⟩ := List.forall_mem_cons.mp hwhole.2
  have hdot := ne_point_of_isDigit hc
  have hchars := (List.forall_mem_cons.mp (isDecimalChar_of_mem hwhole hfraction hexponent)).2
  have hafter := map_char_afterRun hgs hrun (head_of_fraction hfraction hexponent)
  have hrest := map_char_fraction hafter hfraction (head_of_exponent hexponent)
  have hnil : (decimalBody c gs).2 = [] := by
    simp only [decimalBody, hdot]
    exact exponent_snd hrest hexponent
  obtain ⟨cs, hbody, used, hused, hcs⟩ := takes_decimalBody c gs
  rw [hnil, List.append_nil] at hused
  subst hused
  have hplain : ∀ d ∈ gs.map Glyph.char, (d != '_') = true := by
    intro d hd
    rw [hgs] at hd
    have hd := hchars d hd
    rw [bne_iff_ne]
    rintro rfl
    exact absurd hd (by decide)
  rw [List.filter_eq_self.mpr hplain] at hcs
  exact Prod.ext (by rw [hbody, hcs]) hnil

/-- A written decimal is one numeral, which is read as a decimal. -/
theorem Spells.decimal {d : Decimal} (h : Decimal.Written cs d) :
    ∃ n : Numeral, n.text = String.ofList cs ∧ Arithmetic.readAsDecimal n = true ∧
      ∀ due, Spells .dec due cs [.number n] false [] := by
  obtain ⟨whole, fraction, exponent, hwhole, hfraction, hexponent, rfl, hd⟩ := h
  have hchars := isDecimalChar_of_mem hwhole hfraction hexponent
  cases whole with
  | nil => exact absurd rfl hwhole.1
  | cons c whole =>
      have hc : Radix.dec.isDigit c = true := hwhole.2 c (by simp)
      rw [List.cons_append] at hchars hd ⊢
      obtain ⟨-, hchars⟩ := List.forall_mem_cons.mp hchars
      have hblank : ∀ x ∈ whole ++ (fraction ++ exponent), (!Text.isBlank x) = true := by
        intro x hx
        have hplain := isPlain_of_isDecimalChar (hchars x hx)
        simp only [Text.isPlain, Bool.and_eq_true] at hplain
        exact hplain.2
      set cs := whole ++ (fraction ++ exponent) with hcs
      refine ⟨{ text := String.ofList (c :: cs), fractional := !(c :: cs).all Radix.dec.isDigit },
        rfl, by simp [Arithmetic.readAsDecimal], fun due => .lexeme (Radix.isBlank_of_isDigit hc)
        fun position spaced position' => ⟨0, false, ?_⟩⟩
      have hgs : (Glyph.startingAt position' false cs).map Glyph.char = cs := by
        rw [Glyph.map_char_startingAt, List.filter_eq_self.mpr hblank]
      have hannounced : announcedRadix? c (Glyph.startingAt position' false cs) = none := by
        refine announcedRadix?_eq_none fun _ g hg => ?_
        have hmem : g.char ∈ cs := by
          rw [← hgs]
          exact List.mem_map_of_mem (List.mem_of_mem_head? hg)
        exact ofMarkLetter?_of_isDecimalChar (hchars _ hmem)
      have hbody := decimalBody_written hwhole hfraction hexponent (hgs.trans hcs)
      rw [hgs] at hbody
      rw [lexeme_numeral hc, numeral, hannounced]
      simp only [bareNumeral, hbody, hd, ite_self]
      rfl

end Scan

end Reckon
