import Reckon.Proofs.Token.Decimal

/-!
# Numerals that are malformed

A numeral fails for digits that are missing. With a mark its reader sees that at once. Without one
it is gathered first, and an exponent without digits is found only when the arithmetic of decimals
is shown the whole; so it has to be known both what is gathered from which characters and that the
arithmetic has no other objection. Characters are split as the readers take them, underscores and
all: `Significand` is what may stand before an exponent, and each reader has one lemma for what it
has taken (`sign_split`) and one for what it will take (`sign_of_map_char`).
-/

namespace Reckon

/-- Whether a digit of the radix comes next, after any underscores. -/
def digitAhead (r : Radix) (cs : List Char) : Bool :=
  (cs.dropWhile (· == '_')).head?.any r.isDigit

/-- Digits and underscores. -/
def IsLooseRun (cs : List Char) : Prop :=
  ∀ c ∈ cs, Radix.dec.isDigit c = true ∨ c = '_'

/-- What stands before an exponent, with the underscores that are written in it. -/
inductive Significand : List Char → Prop
  | whole {c : Char} {ds : List Char} : Radix.dec.isDigit c = true → IsLooseRun ds →
      Significand (c :: ds)
  | mixed {c : Char} {ds es : List Char} : Radix.dec.isDigit c = true → IsLooseRun ds →
      IsLooseRun es → Significand (c :: ds ++ '.' :: es)
  | leading {c : Char} {es : List Char} : Radix.dec.isDigit c = true → IsLooseRun es →
      Significand ('.' :: c :: es)

/-- The characters begin with a decimal whose exponent has no digits. What there is of it, without
underscores, is `body`. -/
inductive Unfinished : List Char → List Char → Prop
  | exponent {ms s cs : List Char} {e : Char} :
      Significand ms → e = 'e' ∨ e = 'E' → IsSignBefore s cs → digitAhead .dec cs = false →
      Unfinished (ms.filter (· != '_') ++ e :: s) (ms ++ e :: (s ++ cs))

/-! ## What decimals accept

Which decimal it is does not matter here, only whether there is one. A mantissa has a digit, digits
have a value, and what stands behind a mantissa is taken for the exponent. So of all the ways in
which reading a decimal can fail only a bad exponent is left (`isSome_ofText?_mantissa`). -/

namespace Decimal

theorem isSome_natural? {cs : List Char} (hne : cs ≠ [])
    (h : ∀ c ∈ cs, Radix.dec.isDigit c = true) : (natural? cs).isSome = true := by
  obtain ⟨n, hn⟩ := Radix.exists_readOn h 0
  rw [natural?, if_neg (by simpa using hne), Radix.value?_eq_readOn, hn]
  rfl

theorem isDigit_of_mem_splitFraction {cs : List Char} :
    ∀ c ∈ (splitFraction cs).1, Radix.dec.isDigit c = true := by
  intro c hc
  unfold splitFraction at hc
  split at hc
  · exact List.mem_takeWhile_imp hc
  · cases hc

/-- The digits of a mantissa are found, whatever follows. -/
theorem digits_of_mantissa {p : Bool} {m : List Char} (hm : Mantissa p m) (cs : List Char) :
    (m ++ cs).takeWhile Radix.dec.isDigit ++
      (splitFraction ((m ++ cs).dropWhile Radix.dec.isDigit)).1 ≠ [] := by
  have hfront {c : Char} {ds : List Char} (hc : Radix.dec.isDigit c = true) :
      (c :: ds).takeWhile Radix.dec.isDigit ≠ [] := by
    rw [List.takeWhile_cons_of_pos hc]
    exact List.cons_ne_nil _ _
  have hrun {ds : List Char} (h : IsRun .dec ds) (es : List Char) :
      (ds ++ es).takeWhile Radix.dec.isDigit ≠ [] := by
    cases ds with
    | nil => exact absurd rfl h.1
    | cons d ds => exact hfront (h.2 d (by simp))
  cases hm with
  | whole hds => exact List.append_ne_nil_of_left_ne_nil (hrun hds cs) _
  | @mixed ds es hds _ =>
      rw [List.append_assoc]
      exact List.append_ne_nil_of_left_ne_nil (hrun hds _) _
  | @leading es hes =>
      have hdot : Radix.dec.isDigit '.' = false := by decide
      rw [List.cons_append, List.dropWhile_cons_of_neg (by simp [hdot])]
      exact List.append_ne_nil_of_right_ne_nil _ (hrun hes cs)

/-- A mantissa is part of a decimal exactly if an exponent follows, or nothing. -/
theorem isSome_ofText?_mantissa {p : Bool} {m cs : List Char} (hm : Mantissa p m)
    (hcs : ∀ c ∈ cs.head?, Radix.dec.isDigit c = false ∧ c ≠ '.') :
    (ofText? (m ++ cs)).isSome = (exponent? cs).isSome := by
  have hdigits : ∀ c ∈ (m ++ cs).takeWhile Radix.dec.isDigit ++
      (splitFraction ((m ++ cs).dropWhile Radix.dec.isDigit)).1, Radix.dec.isDigit c = true :=
    List.forall_mem_append.mpr
      ⟨fun c hc => List.mem_takeWhile_imp hc, isDigit_of_mem_splitFraction⟩
  obtain ⟨n, hn⟩ := Option.isSome_iff_exists.mp (isSome_natural? (digits_of_mantissa hm cs) hdigits)
  have hrest := splitFraction_mantissa hm hcs
  simp only [ofText?, hn, hrest]
  cases exponent? cs with
  | none => rfl
  | some k => rfl

theorem isSome_exponent?_of_digits {head ds : List Char} (hhead : IsExponentHead head)
    (hne : ds ≠ []) (hds : ∀ c ∈ ds, Radix.dec.isDigit c = true) :
    (exponent? (head ++ ds)).isSome = true := by
  obtain ⟨n, hn⟩ := Option.isSome_iff_exists.mp (isSome_natural? hne hds)
  obtain ⟨e, s, he, hs, rfl⟩ := hhead
  have hsigned : (signed? (s ++ ds)).isSome = true := by
    rcases hs with rfl | rfl | rfl
    · rw [List.nil_append]
      unfold signed?
      split
      · exact absurd (hds '-' (by simp)) (by decide)
      · exact absurd (hds '+' (by simp)) (by decide)
      · rw [hn]
        rfl
    · rw [List.singleton_append, signed?, hn]
      rfl
    · rw [List.singleton_append, signed?, hn]
      rfl
  rcases he with rfl | rfl
  · exact hsigned
  · exact hsigned

end Decimal

theorem IsSignBefore.isExponentHead {s cs : List Char} (h : IsSignBefore s cs) {e : Char}
    (he : e = 'e' ∨ e = 'E') : IsExponentHead (e :: s) :=
  ⟨e, s, he, h.imp_left And.left, rfl⟩

theorem IsLooseRun.isDigit {cs : List Char} (h : IsLooseRun cs) :
    ∀ c ∈ cs.filter (· != '_'), Radix.dec.isDigit c = true := by
  intro c hc
  obtain ⟨hmem, hne⟩ := List.mem_filter.mp hc
  rcases h c hmem with hdigit | hunderscore
  · exact hdigit
  · exact absurd hunderscore (by simpa using hne)

theorem IsLooseRun.isRun {c : Char} {cs : List Char} (hc : Radix.dec.isDigit c = true)
    (h : IsLooseRun cs) : IsRun .dec (c :: cs.filter (· != '_')) :=
  ⟨List.cons_ne_nil _ _, List.forall_mem_cons.mpr ⟨hc, h.isDigit⟩⟩

theorem filter_cons_of_isDigit {c : Char} (h : Radix.dec.isDigit c = true) (cs : List Char) :
    (c :: cs).filter (· != '_') = c :: cs.filter (· != '_') := by
  have hne : c ≠ '_' := by
    rintro rfl
    exact absurd h (by decide)
  exact List.filter_cons_of_pos (by simpa using hne)

/-- Without its underscores a significand is a mantissa. -/
theorem Significand.mantissa {ms : List Char} (h : Significand ms) :
    ∃ p, Mantissa p (ms.filter (· != '_')) := by
  cases h with
  | whole hc hds =>
      rw [filter_cons_of_isDigit hc]
      exact ⟨false, .whole (hds.isRun hc)⟩
  | mixed hc hds hes =>
      rw [List.filter_append, filter_cons_of_isDigit hc, List.filter_cons_of_pos (by decide)]
      exact ⟨true, .mixed (hds.isRun hc) hes.isDigit⟩
  | leading hc hes =>
      rw [List.filter_cons_of_pos (by decide), filter_cons_of_isDigit hc]
      exact ⟨true, .leading (hes.isRun hc)⟩

namespace Scan

variable {radix r : Radix} {position : Nat} {c e : Char} {gs : List Glyph}
  {ms ds cs s body : List Char} {error : LexError}

theorem runDigits_eq_nil_iff :
    runDigits r gs = [] ↔ digitAhead r (gs.map Glyph.char) = false := by
  have hunderscore : r.isDigit '_' = false := by cases r <;> decide
  induction gs with
  | nil => exact ⟨fun _ => rfl, fun _ => rfl⟩
  | cons g gs ih =>
      by_cases hg : g.char = '_'
      · rw [runDigits_cons (.inr hg), hg]
        simpa [digitAhead, hunderscore, hg] using ih
      · cases hdigit : r.isDigit g.char with
        | true =>
            rw [runDigits_cons (.inl hdigit)]
            simp [digitAhead, hg, hdigit]
        | false => simp [runDigits, inRun, digitAhead, hg, hdigit]

theorem run_split (gs : List Glyph) :
    ∃ ds, IsLooseRun ds ∧ gs.map Glyph.char = ds ++ (afterRun .dec gs).map Glyph.char ∧
      runDigits .dec gs = ds.filter (· != '_') := by
  refine ⟨(gs.takeWhile (inRun .dec)).map Glyph.char, ?_, ?_, rfl⟩
  · intro c hc
    obtain ⟨g, hg, rfl⟩ := List.mem_map.mp hc
    have hrun : inRun .dec g = true := List.mem_takeWhile_imp hg
    simpa [inRun] using hrun
  · rw [afterRun, ← List.map_append, List.takeWhile_append_dropWhile]

theorem sign_split (gs : List Glyph) :
    gs.map Glyph.char = (sign gs).1 ++ (sign gs).2.map Glyph.char ∧
      IsSignBefore (sign gs).1 ((sign gs).2.map Glyph.char) := by
  cases gs with
  | nil => exact ⟨rfl, .inl ⟨rfl, by simp [sign]⟩⟩
  | cons g gs =>
      cases hg : g.char == '+' || g.char == '-' with
      | true =>
          have hsign : g.char = '+' ∨ g.char = '-' := by simpa using hg
          simp only [sign, hg, if_true]
          exact ⟨rfl, .inr (by simpa using hsign)⟩
      | false =>
          have hsign : g.char ≠ '+' ∧ g.char ≠ '-' := by simpa using hg
          simp only [sign, hg, Bool.false_eq_true, if_false]
          exact ⟨rfl, .inl ⟨rfl, by simpa using hsign⟩⟩

/-- The head of an exponent, as far as it was written, and the digits that were found after it. -/
theorem exponent_split (gs : List Glyph) : (exponent gs).1 = [] ∨
    ∃ e s cs ds, (e = 'e' ∨ e = 'E') ∧ IsSignBefore s cs ∧ gs.map Glyph.char = e :: (s ++ cs) ∧
      (exponent gs).1 = e :: s ++ ds ∧ (∀ c ∈ ds, Radix.dec.isDigit c = true) ∧
      (ds = [] ↔ digitAhead .dec cs = false) := by
  cases gs with
  | nil => exact .inl rfl
  | cons g gs =>
      cases hg : g.char == 'e' || g.char == 'E' with
      | false => exact .inl (by simp [exponent, hg])
      | true =>
          obtain ⟨hgs, hsign⟩ := sign_split gs
          refine .inr ⟨g.char, (sign gs).1, (sign gs).2.map Glyph.char, runDigits .dec (sign gs).2,
            by simpa using hg, hsign, by rw [List.map_cons, hgs], ?_, ?_, runDigits_eq_nil_iff⟩
          · simp only [exponent, hg, if_true]
          · intro c hc
            exact isDigit_of_mem_runDigits hc

theorem exponent_of_map_char (hgs : gs.map Glyph.char = e :: (s ++ cs)) (he : e = 'e' ∨ e = 'E')
    (hs : IsSignBefore s cs) (hcs : digitAhead .dec cs = false) : (exponent gs).1 = e :: s := by
  cases gs with
  | nil => cases hgs
  | cons g gs =>
      obtain ⟨rfl, hafter⟩ := List.cons.inj hgs
      have hmark : (g.char == 'e' || g.char == 'E') = true := by simpa using he
      obtain ⟨hsign, hrest⟩ := sign_of_map_char hafter hs
      have hdigits : runDigits .dec (sign gs).2 = [] := by
        rw [runDigits_eq_nil_iff, hrest]
        exact hcs
      simp only [exponent, hmark, if_true, hsign, hdigits, List.append_nil]

/-! ## Significands

The reader has to be followed in both directions. From glyphs to a significand
(`decimalBody_split`) its own tests tell the three shapes apart. Back from a significand the shape
is given, and what has to be seen is that the reader stops where the exponent begins: its mark is no
decimal digit, no underscore and no point. -/

/-- What the reader of numerals gathers is a significand, and what it finds after that. -/
theorem decimalBody_split (hstarts : startsNumeral c gs = true) :
    ∃ ms rest, Significand ms ∧ c :: gs.map Glyph.char = ms ++ rest.map Glyph.char ∧
      (decimalBody c gs).1 = ms.filter (· != '_') ++ (exponent rest).1 := by
  obtain ⟨ds, hds, hgs, hdigits⟩ := run_split gs
  rw [startsNumeral, Bool.or_eq_true, Bool.and_eq_true] at hstarts
  rcases hstarts with hc | ⟨hc, hnext⟩
  · have hdot := ne_point_of_isDigit hc
    cases hafter : afterRun .dec gs with
    | nil =>
        refine ⟨c :: ds, [], .whole hc hds, by rw [hgs, hafter]; rfl, ?_⟩
        rw [filter_cons_of_isDigit hc]
        simp [decimalBody, hdot, hdigits, hafter, fraction]
    | cons g rest =>
        cases hg : g.char == '.' with
        | false =>
            refine ⟨c :: ds, g :: rest, .whole hc hds, by rw [hgs, hafter]; rfl, ?_⟩
            rw [filter_cons_of_isDigit hc]
            simp [decimalBody, hdot, hdigits, hafter, fraction, hg]
        | true =>
            obtain ⟨es, hes, hrest, hfraction⟩ := run_split rest
            refine ⟨c :: ds ++ '.' :: es, afterRun .dec rest, .mixed hc hds hes, ?_, ?_⟩
            · rw [hgs, hafter, List.map_cons, hrest, beq_iff_eq.mp hg]
              simp
            · rw [List.filter_append, filter_cons_of_isDigit hc,
                List.filter_cons_of_pos (by decide)]
              simp [decimalBody, hdot, hdigits, hafter, fraction, hg, hfraction]
  · obtain rfl := beq_iff_eq.mp hc
    cases gs with
    | nil => cases hnext
    | cons g gs =>
        have hg : Radix.dec.isDigit g.char = true := hnext
        obtain ⟨es, hes, hrest, hfraction⟩ := run_split gs
        have hrun : inRun .dec g = true := by rw [inRun, hg, Bool.true_or]
        refine ⟨'.' :: g.char :: es, afterRun .dec gs, .leading hg hes, ?_, ?_⟩
        · rw [List.map_cons, hrest]
          rfl
        · rw [List.filter_cons_of_pos (by decide), filter_cons_of_isDigit hg, ← hfraction]
          simp [decimalBody, runDigits_cons (.inl hg), hg, afterRun, hrun]

/-- A significand before the mark of an exponent is gathered as it stands. -/
theorem decimalBody_of_map_char (hms : Significand ms) (he : e = 'e' ∨ e = 'E')
    (hgs : c :: gs.map Glyph.char = ms ++ e :: cs) :
    ∃ rest, rest.map Glyph.char = e :: cs ∧
      (decimalBody c gs).1 = ms.filter (· != '_') ++ (exponent rest).1 := by
  have hstop : ∀ d ∈ (e :: cs).head?, (Radix.dec.isDigit d || d == '_') = false := by
    intro d hd
    cases hd
    rcases he with rfl | rfl <;> decide
  cases hms with
  | whole hc hds =>
      obtain ⟨rfl, hrow⟩ := List.cons.inj hgs
      have hdot := ne_point_of_isDigit hc
      obtain ⟨hdigits, hafter⟩ := run_of_map_char hrow hds hstop
      have hfraction : fraction (afterRun .dec gs) = ([], afterRun .dec gs) := by
        refine fraction_eq_nil fun g hg => ?_
        have hge : g.char = e := by
          have hhead := congrArg List.head? hafter
          rw [List.head?_map, hg] at hhead
          exact Option.some.inj hhead
        rcases he with rfl | rfl <;> (rw [hge]; decide)
      refine ⟨afterRun .dec gs, hafter, ?_⟩
      rw [filter_cons_of_isDigit hc]
      simp [decimalBody, hdot, hdigits, hfraction]
  | @mixed d ds es hc hds hes =>
      rw [List.append_assoc, List.cons_append] at hgs
      obtain ⟨rfl, hrow⟩ := List.cons.inj hgs
      have hdot := ne_point_of_isDigit hc
      have hpoint : ∀ d ∈ ('.' :: es ++ e :: cs).head?,
          (Radix.dec.isDigit d || d == '_') = false := by
        intro d hd
        cases hd
        decide
      obtain ⟨hdigits, hafter⟩ := run_of_map_char hrow hds hpoint
      obtain ⟨g, rest, hcons, hg, hrest⟩ := List.map_eq_cons_iff.mp hafter
      obtain ⟨hfraction, hafter'⟩ := run_of_map_char hrest hes hstop
      refine ⟨afterRun .dec rest, hafter', ?_⟩
      rw [List.filter_append, filter_cons_of_isDigit hc, List.filter_cons_of_pos (by decide)]
      simp [decimalBody, hdot, hdigits, hcons, fraction, hg, hfraction]
  | @leading d es hc hes =>
      obtain ⟨rfl, hrow⟩ := List.cons.inj hgs
      have hloose : IsLooseRun (d :: es) := List.forall_mem_cons.mpr ⟨.inl hc, hes⟩
      obtain ⟨hdigits, hafter⟩ := run_of_map_char hrow hloose hstop
      refine ⟨afterRun .dec gs, hafter, ?_⟩
      rw [List.filter_cons_of_pos (by decide), ← hdigits]
      rfl

theorem isDecimalChar_of_significand (hms : Significand ms) :
    ∀ d ∈ ms, isDecimalChar d = true ∨ d = '_' := by
  have hrun {ds : List Char} (hds : IsLooseRun ds) : ∀ d ∈ ds, isDecimalChar d = true ∨ d = '_' :=
    fun d hd => (hds d hd).imp_left isDecimalChar_of_isDigit
  have hdot : isDecimalChar '.' = true := by decide
  cases hms with
  | whole hc hds =>
      exact List.forall_mem_cons.mpr ⟨.inl (isDecimalChar_of_isDigit hc), hrun hds⟩
  | mixed hc hds hes =>
      exact List.forall_mem_append.mpr
        ⟨List.forall_mem_cons.mpr ⟨.inl (isDecimalChar_of_isDigit hc), hrun hds⟩,
          List.forall_mem_cons.mpr ⟨.inl hdot, hrun hes⟩⟩
  | leading hc hes =>
      exact List.forall_mem_cons.mpr ⟨.inl hdot,
        List.forall_mem_cons.mpr ⟨.inl (isDecimalChar_of_isDigit hc), hrun hes⟩⟩

/-- The arithmetic of decimals refuses a numeral for nothing but missing digits. -/
theorem isNone_ofText?_significand {tail : List Char} (hms : Significand ms)
    (he : e = 'e' ∨ e = 'E') (hs : IsSignBefore s tail)
    (hds : ∀ c ∈ ds, Radix.dec.isDigit c = true) :
    (Decimal.ofText? (ms.filter (· != '_') ++ (e :: s ++ ds))).isNone = true ↔ ds = [] := by
  obtain ⟨p, hm⟩ := hms.mantissa
  have hhead := hs.isExponentHead he
  rw [← Option.not_isSome, Decimal.isSome_ofText?_mantissa hm hhead.stops]
  constructor
  · intro hnone
    by_contra hne
    rw [Decimal.isSome_exponent?_of_digits hhead hne hds] at hnone
    cases hnone
  · rintro rfl
    rw [List.append_nil, Decimal.exponent?_head hhead]
    rfl

theorem startsNumeral_of_unfinished (h : Unfinished body (c :: gs.map Glyph.char)) :
    startsNumeral c gs = true := by
  generalize hrow : c :: gs.map Glyph.char = row at h
  cases h with
  | exponent hms _ _ _ =>
      cases hms with
      | whole hc _ | mixed hc _ _ =>
          obtain ⟨rfl, -⟩ := List.cons.inj hrow
          rw [startsNumeral, hc, Bool.true_or]
      | leading hc _ =>
          obtain ⟨rfl, hrest⟩ := List.cons.inj hrow
          obtain ⟨g, rest, rfl, rfl, -⟩ := List.map_eq_cons_iff.mp hrest
          exact hc

/-- Its second character is no letter of a mark. -/
theorem announcedRadix?_of_unfinished (h : Unfinished body (c :: gs.map Glyph.char)) :
    announcedRadix? c gs = none := by
  refine announcedRadix?_eq_none fun _ g hg => ?_
  obtain ⟨rest, rfl⟩ : ∃ rest, gs = g :: rest := List.head?_eq_some_iff.mp hg
  generalize hrow : c :: (g :: rest).map Glyph.char = row at h
  cases h with
  | @exponent ms s cs e hms he _ _ =>
      have hmark : isDecimalChar e = true := by
        rcases he with rfl | rfl <;> decide
      have hsecond : g.char = e ∨ g.char ∈ ms := by
        cases ms with
        | nil => cases hms
        | cons _ ms =>
            cases ms with
            | nil => exact .inl (List.cons.inj (List.cons.inj hrow).2).1
            | cons d _ =>
                have hd : g.char = d := (List.cons.inj (List.cons.inj hrow).2).1
                exact .inr (by simp [hd])
      rcases hsecond with hg | hg
      · rw [hg]
        exact ofMarkLetter?_of_isDecimalChar hmark
      · rcases isDecimalChar_of_significand hms _ hg with h | h
        · exact ofMarkLetter?_of_isDecimalChar h
        · rw [h]
          rfl

/-- A numeral without a mark is malformed exactly if it is unfinished. -/
theorem bareNumeral_eq_error_iff (hstarts : startsNumeral c gs = true) :
    bareNumeral radix position c gs = .error error ↔
      ∃ body, Unfinished body (c :: gs.map Glyph.char) ∧
        error = ⟨.malformedNumber (String.ofList body), position⟩ := by
  unfold bareNumeral
  dsimp only
  constructor
  · intro h
    obtain ⟨ms, rest, hms, hgs, hbody⟩ := decimalBody_split hstarts
    rw [hbody] at h
    split at h
    · next hnone =>
        cases h
        refine ⟨_, ?_, rfl⟩
        rcases exponent_split rest with hexponent |
          ⟨e, s, cs, ds, he, hs, hrest, hexponent, hds, hnil⟩
        · obtain ⟨p, hm⟩ := hms.mantissa
          have hend : ∀ c ∈ ([] : List Char).head?, Radix.dec.isDigit c = false ∧ c ≠ '.' := by simp
          rw [hexponent, ← Option.not_isSome, Decimal.isSome_ofText?_mantissa hm hend] at hnone
          cases hnone
        · rw [hexponent, isNone_ofText?_significand hms he hs hds] at hnone
          rw [hgs, hrest, hexponent, hnone, List.append_nil]
          exact .exponent hms he hs (hnil.mp hnone)
    · cases h
  · rintro ⟨body, hbody, rfl⟩
    generalize hrow : c :: gs.map Glyph.char = row at hbody
    cases hbody with
    | @exponent ms s cs e hms he hs hcs =>
        obtain ⟨rest, hrest, hbody⟩ := decimalBody_of_map_char hms he hrow
        rw [exponent_of_map_char hrest he hs hcs] at hbody
        have hnone : (Decimal.ofText? (ms.filter (· != '_') ++ (e :: s ++ []))).isNone = true :=
          (isNone_ofText?_significand hms he hs (by simp)).mpr rfl
        rw [List.append_nil] at hnone
        rw [hbody, if_pos hnone]

theorem markedNumeral_eq_error_iff : markedNumeral r position gs = .error error ↔
    digitAhead r (gs.map Glyph.char) = false ∧ error = ⟨.malformedDigits r, position⟩ := by
  unfold markedNumeral
  dsimp only
  rw [← runDigits_eq_nil_iff]
  split
  · next hempty => simp [List.isEmpty_iff.mp hempty, eq_comm]
  · next hempty => simp [mt List.isEmpty_iff.mpr hempty]

end Scan

end Reckon
