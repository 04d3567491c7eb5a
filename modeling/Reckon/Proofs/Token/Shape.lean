import Reckon.Proofs.Token.Numeral

/-!
# The shapes of numerals

What a numeral looks like is a matter of grammar, but the reader of numerals follows none. It
gathers digits, a point and an exponent as they come, and any of them may turn out short; what is no
number is found out only when the arithmetic of decimals has looked at the whole. So the shape is
had in two steps: what the readers gather is right but for the digits of an exponent
(`decimalBody_shape`), and these are there because the whole is a number (`Exponent.of_ofText?`).
-/

namespace Reckon

/-- Digits of the radix, one at least. -/
def IsRun (r : Radix) (cs : List Char) : Prop :=
  cs ≠ [] ∧ ∀ c ∈ cs, r.isDigit c = true

/-- What stands before an exponent. The truth value says whether it has a point. -/
inductive Mantissa : Bool → List Char → Prop
  | whole {ds : List Char} : IsRun .dec ds → Mantissa false ds
  | mixed {ds es : List Char} : IsRun .dec ds → (∀ c ∈ es, Radix.dec.isDigit c = true) →
      Mantissa true (ds ++ '.' :: es)
  | leading {es : List Char} : IsRun .dec es → Mantissa true ('.' :: es)

/-- The mark of an exponent and its sign, if it has one. -/
def IsExponentHead (cs : List Char) : Prop :=
  ∃ e s, (e = 'e' ∨ e = 'E') ∧ (s = [] ∨ s = ['+'] ∨ s = ['-']) ∧ cs = e :: s

/-- An exponent: its digits must not be missing. -/
def IsExponent (cs : List Char) : Prop :=
  ∃ head ds, IsExponentHead head ∧ IsRun .dec ds ∧ cs = head ++ ds

/-- The numerals there are. Without a mark, a point and an exponent they are in the given radix,
though their digits are decimal. -/
inductive Numeral.WellFormed (radix : Radix) : Numeral → Prop
  | marked {r : Radix} {ds : List Char} : r ≠ .dec → IsRun r ds →
      WellFormed radix { text := String.ofList ds, radix := r, marked := true }
  | whole {ds : List Char} : IsRun .dec ds → WellFormed radix { text := String.ofList ds, radix }
  | pointed {m : List Char} : Mantissa true m →
      WellFormed radix { text := String.ofList m, fractional := true }
  | scaled {p : Bool} {m e : List Char} : Mantissa p m → IsExponent e →
      WellFormed radix { text := String.ofList (m ++ e), fractional := true }

theorem Mantissa.all_isDigit {p : Bool} {m : List Char} (h : Mantissa p m) :
    m.all Radix.dec.isDigit = !p := by
  have hdot : Radix.dec.isDigit '.' = false := by decide
  cases h with
  | whole hds => exact List.all_eq_true.mpr hds.2
  | mixed _ _ => simp [hdot]
  | leading _ => simp [hdot]

theorem IsExponentHead.all_isDigit {cs ds : List Char} (h : IsExponentHead cs) :
    (cs ++ ds).all Radix.dec.isDigit = false := by
  obtain ⟨e, s, he, -, rfl⟩ := h
  have he : Radix.dec.isDigit e = false := by
    rcases he with rfl | rfl <;> decide
  simp [he]

namespace Decimal

theorem isSome_exponent? {cs : List Char} (h : (ofText? cs).isSome) :
    (exponent? (splitFraction (cs.dropWhile Radix.dec.isDigit)).2).isSome := by
  obtain ⟨d, hd⟩ := Option.isSome_iff_exists.mp h
  obtain ⟨n, -, hn⟩ := Option.bind_eq_some_iff.mp hd
  obtain ⟨e, he, -⟩ := Option.bind_eq_some_iff.mp hn
  exact Option.isSome_iff_exists.mpr ⟨e, he⟩

/-- Behind a mantissa a decimal reads what is no digit and no point as its exponent. -/
theorem splitFraction_mantissa {p : Bool} {m cs : List Char} (hm : Mantissa p m)
    (hcs : ∀ c ∈ cs.head?, Radix.dec.isDigit c = false ∧ c ≠ '.') :
    (splitFraction ((m ++ cs).dropWhile Radix.dec.isDigit)).2 = cs := by
  have hstop : cs.dropWhile Radix.dec.isDigit = cs :=
    (Scan.span_of_head fun c hc => (hcs c hc).1).2
  have hdot : Radix.dec.isDigit '.' = false := by decide
  cases hm with
  | whole hds =>
      rw [List.dropWhile_append_of_pos hds.2, hstop]
      cases cs with
      | nil => rfl
      | cons c cs =>
          unfold splitFraction
          split
          · next heq => exact absurd (List.cons.inj heq).1 (hcs c rfl).2
          · rfl
  | @mixed ds es hds hes =>
      rw [List.append_assoc, List.dropWhile_append_of_pos hds.2, List.cons_append,
        List.dropWhile_cons_of_neg (by simp [hdot])]
      show (es ++ cs).dropWhile Radix.dec.isDigit = cs
      rw [List.dropWhile_append_of_pos hes, hstop]
  | @leading es hes =>
      rw [List.cons_append, List.dropWhile_cons_of_neg (by simp [hdot])]
      show (es ++ cs).dropWhile Radix.dec.isDigit = cs
      rw [List.dropWhile_append_of_pos hes.2, hstop]

theorem exponent?_head {cs : List Char} (h : IsExponentHead cs) : exponent? cs = none := by
  obtain ⟨e, s, rfl | rfl, rfl | rfl | rfl, rfl⟩ := h <;> rfl

end Decimal

theorem IsExponentHead.stops {cs ds : List Char} (h : IsExponentHead cs) :
    ∀ c ∈ (cs ++ ds).head?, Radix.dec.isDigit c = false ∧ c ≠ '.' := by
  obtain ⟨e, s, he, -, rfl⟩ := h
  intro c hc
  cases hc
  rcases he with rfl | rfl <;> decide

/-- An exponent has its digits if the whole is a number. -/
theorem IsExponent.of_ofText? {p : Bool} {m head ds : List Char} (hm : Mantissa p m)
    (hhead : IsExponentHead head) (hds : ∀ c ∈ ds, Radix.dec.isDigit c = true)
    (h : (Decimal.ofText? (m ++ (head ++ ds))).isSome) : IsExponent (head ++ ds) := by
  refine ⟨head, ds, hhead, ⟨?_, hds⟩, rfl⟩
  rintro rfl
  have hexponent := Decimal.isSome_exponent? h
  rw [Decimal.splitFraction_mantissa hm hhead.stops, List.append_nil,
    Decimal.exponent?_head hhead] at hexponent
  cases hexponent

namespace Scan

variable {gs : List Glyph}

theorem isDigit_of_mem_runDigits {r : Radix} {c : Char} (h : c ∈ runDigits r gs) :
    r.isDigit c = true := by
  obtain ⟨hmem, hne⟩ := List.mem_filter.mp h
  obtain ⟨g, hg, rfl⟩ := List.mem_map.mp hmem
  have hrun : inRun r g = true := List.mem_takeWhile_imp hg
  rw [inRun, Bool.or_eq_true] at hrun
  rcases hrun with hrun | hrun
  · exact hrun
  · exact absurd (beq_iff_eq.mp hrun) (by simpa using hne)

theorem fraction_shape (gs : List Glyph) :
    (fraction gs).1 = [] ∨
      ∃ es, (fraction gs).1 = '.' :: es ∧ ∀ c ∈ es, Radix.dec.isDigit c = true := by
  unfold fraction
  split
  · split
    · exact .inr ⟨_, rfl, fun _ hc => isDigit_of_mem_runDigits hc⟩
    · exact .inl rfl
  · exact .inl rfl

theorem sign_shape (gs : List Glyph) :
    (sign gs).1 = [] ∨ (sign gs).1 = ['+'] ∨ (sign gs).1 = ['-'] := by
  unfold sign
  split
  · split
    · next hsign =>
        rw [Bool.or_eq_true, beq_iff_eq, beq_iff_eq] at hsign
        rcases hsign with hsign | hsign <;> simp [hsign]
    · simp
  · simp

theorem exponent_shape (gs : List Glyph) :
    (exponent gs).1 = [] ∨
      ∃ head ds, (exponent gs).1 = head ++ ds ∧ IsExponentHead head ∧
        ∀ c ∈ ds, Radix.dec.isDigit c = true := by
  unfold exponent
  split
  · next g gs =>
      split
      · next hmark =>
          rw [Bool.or_eq_true, beq_iff_eq, beq_iff_eq] at hmark
          refine .inr ⟨_, _, rfl, ⟨g.char, _, hmark, sign_shape gs, rfl⟩, ?_⟩
          exact fun _ hc => isDigit_of_mem_runDigits hc
      · exact .inl rfl
  · exact .inl rfl

theorem startsNumeral_eq_true {c : Char} (h : startsNumeral c gs = true) :
    Radix.dec.isDigit c = true ∨ (c = '.' ∧ runDigits .dec gs ≠ []) := by
  rw [startsNumeral, Bool.or_eq_true, Bool.and_eq_true] at h
  refine h.imp_right fun h => ⟨beq_iff_eq.mp h.1, ?_⟩
  cases gs with
  | nil => cases h.2
  | cons g gs =>
      have hg : Radix.dec.isDigit g.char = true := h.2
      simp [runDigits_cons (.inl hg), hg]

/-- A mantissa, with something like an exponent after it. -/
theorem decimalBody_shape {c : Char} (h : startsNumeral c gs = true) :
    ∃ p m rest, Mantissa p m ∧ (decimalBody c gs).1 = m ++ (exponent rest).1 := by
  rcases startsNumeral_eq_true h with hdigit | ⟨rfl, hdigits⟩
  · have hdot := ne_point_of_isDigit hdigit
    have hrun : IsRun .dec (c :: runDigits .dec gs) :=
      ⟨by simp, List.forall_mem_cons.mpr ⟨hdigit, fun _ hd => isDigit_of_mem_runDigits hd⟩⟩
    have hbody : (decimalBody c gs).1 = (c :: runDigits .dec gs) ++
        (fraction (afterRun .dec gs)).1 ++ (exponent (fraction (afterRun .dec gs)).2).1 := by
      simp [decimalBody, hdot]
    rcases fraction_shape (afterRun .dec gs) with hfraction | ⟨es, hfraction, hes⟩
    · rw [hfraction, List.append_nil] at hbody
      exact ⟨false, _, _, .whole hrun, hbody⟩
    · rw [hfraction] at hbody
      exact ⟨true, _, _, .mixed hrun hes, hbody⟩
  · have hrun : IsRun .dec (runDigits .dec gs) :=
      ⟨hdigits, fun _ hd => isDigit_of_mem_runDigits hd⟩
    exact ⟨true, _, afterRun .dec gs, .leading hrun, rfl⟩

/-- A numeral without a mark is well formed, as it is a number. -/
theorem wellFormed_body (radix : Radix) {c : Char} {body : List Char}
    (hstarts : startsNumeral c gs = true) (hbody : (decimalBody c gs).1 = body)
    (hdecimal : (Decimal.ofText? body).isSome) {fractional : Bool}
    (hfractional : fractional = !body.all Radix.dec.isDigit) :
    Numeral.WellFormed radix { text := String.ofList body,
                               radix := if fractional then .dec else radix, fractional } := by
  obtain ⟨p, m, rest, hm, hshape⟩ := decimalBody_shape hstarts
  rw [hshape] at hbody
  rcases exponent_shape rest with hexponent | ⟨head, ds, hexponent, hhead, hds⟩
  · rw [hexponent, List.append_nil] at hbody
    subst hbody
    rw [hm.all_isDigit, Bool.not_not] at hfractional
    subst hfractional
    cases hm with
    | whole hds => exact .whole hds
    | mixed hds hes => exact .pointed (.mixed hds hes)
    | leading hes => exact .pointed (.leading hes)
  · rw [hexponent] at hbody
    subst hbody
    rw [List.all_append, hhead.all_isDigit, Bool.and_false, Bool.not_false] at hfractional
    subst hfractional
    exact .scaled hm (.of_ofText? hm hhead hds hdecimal)

end Scan

end Reckon
