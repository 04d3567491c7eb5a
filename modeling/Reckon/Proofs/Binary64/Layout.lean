import Reckon.Binary64.Text
import Reckon.Proofs.Binary64.Decimals
import Reckon.Proofs.Token.Decimal

/-!
# Every layout of digits denotes the same number

The digits of a decimal are written without the zeros at their end, and then the point is put among
them, before or behind them with zeros in between, or is replaced by an exponent. Whichever layout
is taken, the text is a decimal numeral, and its value is that of the digits with the point in its
place (`arrange_writes`). As decimals are read by their value, nothing else of the layout matters
(`ofWritten?_of_writes`).
-/

namespace Reckon

namespace Radix

theorem readOn_zeros (n k : Nat) :
    Radix.dec.readOn n (List.replicate k '0') = some (n * 10 ^ k) := by
  induction k generalizing n with
  | zero => simp [readOn]
  | succ k ih =>
      rw [List.replicate_succ, readOn_cons]
      show Radix.dec.readOn (10 * n + 0) _ = _
      rw [ih, Nat.add_zero, Nat.pow_succ, Nat.mul_comm 10 n, Nat.mul_assoc, Nat.mul_comm 10]

theorem value?_zeros_append (k : Nat) (ds : List Char) :
    Radix.dec.value? (List.replicate k '0' ++ ds) = Radix.dec.value? ds := by
  rw [value?_eq_readOn, readOn_append, readOn_zeros, Nat.zero_mul]
  rfl

theorem value?_append_zeros {ds : List Char} {n : Nat} (h : Radix.dec.value? ds = some n)
    (k : Nat) : Radix.dec.value? (ds ++ List.replicate k '0') = some (n * 10 ^ k) := by
  rw [value?_eq_readOn, readOn_append, ← value?_eq_readOn, h, Option.bind_some, readOn_zeros]

end Radix

namespace Binary64

namespace Layout

/-- The characters are a written decimal of the given value. -/
def Writes (cs : List Char) (r : Rat) : Prop :=
  ∃ d, Decimal.Written cs d ∧ d.toRat = r

variable {ds : List Char} {n : Nat}

theorem toList_exponentText (e : Int) : (bare.exponentText e).toList =
    ['e', if e < 0 then '-' else '+'] ++ e.natAbs.repr.toList := by
  have hlength : 1 - (toString e.natAbs).length = 0 := by
    have hne : e.natAbs.repr.toList ≠ [] := by simp
    have hpos := List.length_pos_iff.mpr hne
    rw [String.length_toList] at hpos
    show 1 - e.natAbs.repr.length = 0
    omega
  have hzeros : zeros (bare.exponentWidth - (toString e.natAbs).length) = "" := by
    rw [show bare.exponentWidth = 1 from rfl, hlength]
    rfl
  unfold exponentText
  dsimp only
  rw [hzeros]
  split <;> simp [*]

theorem isExponent_exponentText (e : Int) : IsExponent (bare.exponentText e).toList ∧
    Decimal.exponent? (bare.exponentText e).toList = some e := by
  have hvalue := Radix.value?_repr e.natAbs
  have hne : e.natAbs.repr.toList ≠ [] := by simp
  have hempty : e.natAbs.repr.toList.isEmpty = false := by simp
  rw [toList_exponentText]
  constructor
  · refine ⟨_, _, ⟨'e', [if e < 0 then '-' else '+'], .inl rfl, ?_, rfl⟩,
      ⟨hne, Radix.isDigit_of_value? hvalue⟩, rfl⟩
    split <;> simp
  · show Decimal.signed? ((if e < 0 then '-' else '+') :: e.natAbs.repr.toList) = _
    split
    · next hneg =>
        rw [Decimal.signed?, Decimal.natural?, hempty, if_neg (by decide), hvalue]
        exact congrArg some (show -(e.natAbs : Int) = e by omega)
    · next hpos =>
        rw [Decimal.signed?, Decimal.natural?, hempty, if_neg (by decide), hvalue]
        exact congrArg some (show (e.natAbs : Int) = e by omega)

/-! ## The four layouts

A layout is a whole part, a fraction and an exponent, of which only the first is never missing. So
`writes_pieces` settles the value of all four at once: the digits on both sides of the point, read
as one integer, times the power of ten of the exponent less the places after the point. What is left
for each is the zeros it adds. In front of the digits they change nothing, behind them each is a
factor of ten. -/

theorem writes_pieces {whole : List Char} (fraction es exponent : List Char) {k : Int}
    (hwhole : whole ≠ []) (hfraction : fraction = [] ∧ es = [] ∨ fraction = '.' :: es)
    (hexponent : exponent = [] ∨ IsExponent exponent)
    (hn : Radix.dec.value? (whole ++ es) = some n) (hk : Decimal.exponent? exponent = some k)
    {e : Int} (he : k - es.length = e) :
    Writes (whole ++ (fraction ++ exponent)) (n * 10 ^ e) :=
  ⟨_, Decimal.written hwhole hfraction hexponent hn hk, he ▸ rfl⟩

theorem writes_exponent (hne : ds ≠ []) (hn : Radix.dec.value? ds = some n) (e : Int) :
    Writes (ds.take 1 ++ ((if ds.length ≤ 1 then [] else '.' :: ds.drop 1) ++
      (bare.exponentText e).toList)) (n * 10 ^ (e + 1 - ds.length)) := by
  obtain ⟨hexponent, hvalue⟩ := isExponent_exponentText e
  have hlength : 0 < ds.length := List.length_pos_iff.mpr hne
  refine writes_pieces _ (ds.drop 1) _ (by simpa using hne) ?_ (.inr hexponent)
    (by rwa [List.take_append_drop]) hvalue ?_
  · split
    · next hle => exact .inl ⟨rfl, List.drop_eq_nil_of_le hle⟩
    · exact .inr rfl
  · rw [List.length_drop]
    omega

theorem writes_leading (hn : Radix.dec.value? ds = some n) (k : Nat) :
    Writes ('0' :: '.' :: (List.replicate k '0' ++ ds)) (n * 10 ^ (-k - ds.length : Int)) := by
  have hvalue : Radix.dec.value? (['0'] ++ (List.replicate k '0' ++ ds)) = some n := by
    rw [← List.append_assoc, ← hn]
    exact Radix.value?_zeros_append (k + 1) ds
  have hwrites := writes_pieces _ _ _ (by simp) (.inr rfl) (.inl rfl) hvalue rfl rfl
  rw [List.append_nil] at hwrites
  rw [show (-k - ds.length : Int) = 0 - (List.replicate k '0' ++ ds).length by
    rw [List.length_append, List.length_replicate]; omega]
  exact hwrites

theorem writes_trailing (hne : ds ≠ []) (hn : Radix.dec.value? ds = some n) (k : Nat) :
    Writes (ds ++ List.replicate k '0') (n * 10 ^ (k : Int)) := by
  have hvalue := Radix.value?_append_zeros hn k
  have hwrites := writes_pieces [] [] [] (List.append_ne_nil_of_left_ne_nil hne _)
    (.inl ⟨rfl, rfl⟩) (.inl rfl) (by rwa [List.append_nil]) rfl (sub_zero 0)
  rw [List.append_nil, List.append_nil, zpow_zero, mul_one] at hwrites
  rw [zpow_natCast]
  exact_mod_cast hwrites

theorem writes_digits (hne : ds ≠ []) (hn : Radix.dec.value? ds = some n) : Writes ds n := by
  have hwrites := writes_trailing hne hn 0
  simpa using hwrites

theorem writes_inside (hn : Radix.dec.value? ds = some n) {p : Nat} (hp : 0 < p)
    (hlt : p < ds.length) :
    Writes (ds.take p ++ '.' :: ds.drop p) (n * 10 ^ (p - ds.length : Int)) := by
  have hne : ds.take p ≠ [] := List.ne_nil_of_length_pos (by rw [List.length_take]; omega)
  have hwrites := writes_pieces (e := (p - ds.length : Int)) _ _ _ hne (.inr rfl) (.inl rfl)
    (by rwa [List.take_append_drop]) rfl (by rw [List.length_drop]; omega)
  rwa [List.append_nil] at hwrites

theorem toList_zeros (k : Nat) : (zeros k).toList = List.replicate k '0' :=
  String.toList_ofList

/-- Whichever layout is taken, the digits are written with the point in its place. -/
theorem arrange_writes (hne : ds ≠ []) (hn : Radix.dec.value? ds = some n) (point : Int) :
    Writes (bare.arrange ds point).toList (n * 10 ^ (point - ds.length)) := by
  unfold arrange
  dsimp only
  split
  · have hwrites := writes_exponent hne hn (point - 1)
    rw [Int.sub_add_cancel] at hwrites
    convert hwrites using 1
    split <;> simp
  · split
    · next hpoint =>
        have hwrites := writes_leading hn (-point).toNat
        rw [show (-((-point).toNat : Int)) = point by omega] at hwrites
        simpa [toList_zeros] using hwrites
    · next hpoint =>
        split
        · next hle =>
            have hwrites := writes_trailing hne hn (point.toNat - ds.length)
            rw [show ((point.toNat - ds.length : Nat) : Int) = point - ds.length by omega]
              at hwrites
            simpa [toList_zeros, bare] using hwrites
        · next hlt =>
            have hwrites := writes_inside hn (p := point.toNat) (by omega) (by omega)
            rw [show (point.toNat : Int) = point by omega] at hwrites
            simpa using hwrites

/-- Digits are others and some zeros, and a value that is not zero does not end with its zeros. -/
theorem exists_stripped (hn : Radix.dec.value? ds = some n) (h : n ≠ 0) :
    ∃ m k : Nat, (ds.reverse.dropWhile (· == '0')).reverse ≠ [] ∧
      Radix.dec.value? (ds.reverse.dropWhile (· == '0')).reverse = some m ∧ n = m * 10 ^ k ∧
      ds.length = (ds.reverse.dropWhile (· == '0')).reverse.length + k := by
  set stripped := (ds.reverse.dropWhile (· == '0')).reverse with hstripped
  have hzeros : ds.reverse.takeWhile (· == '0') =
      List.replicate (ds.reverse.takeWhile (· == '0')).length '0' :=
    List.eq_replicate_of_mem fun c hc => by simpa using List.mem_takeWhile_imp hc
  set k := (ds.reverse.takeWhile (· == '0')).length
  have hds : stripped ++ List.replicate k '0' = ds := by
    rw [← List.reverse_replicate, ← hzeros, hstripped, ← List.reverse_append,
      List.takeWhile_append_dropWhile, List.reverse_reverse]
  rw [← hds, Radix.value?_eq_readOn, Radix.readOn_append, Option.bind_eq_some_iff] at hn
  obtain ⟨m, hm, hzeros⟩ := hn
  rw [Radix.readOn_zeros] at hzeros
  have hmn : n = m * 10 ^ k := (Option.some.inj hzeros).symm
  refine ⟨m, k, ?_, hm, hmn, by rw [← hds, List.length_append, List.length_replicate]⟩
  rintro hnil
  rw [hnil] at hm
  cases hm
  exact h (by rw [hmn, Nat.zero_mul])

theorem ofDecimal_writes {d : Decimal} (h : d.digits ≠ 0) :
    Writes (bare.ofDecimal d).toList d.toRat := by
  have hvalue : Radix.dec.value? (Nat.toDigits 10 d.digits) = some d.digits := by
    have hrepr := Radix.value?_repr d.digits
    rwa [Nat.repr, String.toList_ofList] at hrepr
  obtain ⟨m, k, hne, hm, hn, hlength⟩ := exists_stripped hvalue h
  have hwrites := arrange_writes hne hm ((Nat.toDigits 10 d.digits).length + d.exponent)
  set stripped := ((Nat.toDigits 10 d.digits).reverse.dropWhile (· == '0')).reverse
  have hplace : ((Nat.toDigits 10 d.digits).length + d.exponent : Int) - stripped.length =
      k + d.exponent := by omega
  have hvalue : (m : Rat) * 10 ^ (k + d.exponent : Int) = d.toRat := by
    rw [zpow_add₀ (by norm_num), ← mul_assoc, zpow_natCast, Decimal.toRat, hn, Nat.cast_mul,
      Nat.cast_pow, Nat.cast_ofNat]
  rw [hplace, hvalue] at hwrites
  exact hwrites

end Layout

/-- A written decimal is read as the nearest number to what it denotes. -/
theorem ofWritten?_of_writes {cs : List Char} {r : Rat} (h : Layout.Writes cs r) :
    ofWritten? cs = some (nearest r) := by
  obtain ⟨d, ⟨whole, fraction, exponent, hwhole, hfraction, hexponent, rfl, hd⟩, rfl⟩ := h
  have hchars := isDecimalChar_of_mem hwhole hfraction hexponent
  rw [ofWritten?_of_ofText? (fun c hc => Scan.isPlain_of_isDecimalChar (hchars c hc)) hd,
    ofDecimal_eq_nearest]
  intro c hc
  rw [List.head?_append_of_ne_nil _ hwhole.1] at hc
  have hdigit := hwhole.2 c (List.mem_of_mem_head? hc)
  constructor <;> (rintro rfl; exact absurd hdigit (by decide))

end Binary64

end Reckon
