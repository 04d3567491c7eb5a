import Reckon.Proofs.Literal
import Reckon.Proofs.Text.Groups

/-!
# Groups are a layout

The bits of a word are grouped from the left and the digits of a numeral from the right. Either way
the groups put in a row are the digits again, in full number and order: a pattern has exactly as
many bits as the word is wide, and they are worth the word by their places, and what is written of a
numeral can be cut up again in one way only.
-/

namespace Reckon

namespace Word

variable {width n : Nat} {c : Char}

theorem eq_zero_or_one_of_mem_bits (h : c ∈ bits width n) : c = '0' ∨ c = '1' := by
  obtain ⟨i, -, rfl⟩ := List.mem_map.mp h
  split
  · exact .inr rfl
  · exact .inl rfl

theorem space_notMem_bits : ' ' ∉ bits width n := by
  intro h
  rcases eq_zero_or_one_of_mem_bits h with h | h <;> cases h

theorem positional_bits (width n : Nat) : Radix.bin.positional (bits width n) = n % 2 ^ width := by
  have hdigits : ∀ c ∈ bits width n, Radix.ordinal c < Radix.bin.base := by
    intro c hc
    rcases eq_zero_or_one_of_mem_bits hc with rfl | rfl <;> decide
  exact Option.some.inj ((Radix.value?_eq_positional hdigits).symm.trans (value?_bits width n))

theorem bits_ne_nil (hwidth : 0 < width) : bits width n ≠ [] := by
  rw [← List.length_pos_iff, length_bits]
  exact hwidth

/-- The bits that a pattern shows. -/
abbrev shownBits (width : Nat) (value : Int) : List Char :=
  bits width (residue width value).toNat

theorem positional_shownBits (width : Nat) (value : Int) :
    (Radix.bin.positional (shownBits width value) : Int) = value % 2 ^ width := by
  have hnonneg := residue_nonneg width value
  have hlt := residue_lt width value
  rw [modulus_eq] at hlt
  rw [positional_bits, Int.natCast_mod, Int.toNat_of_nonneg hnonneg]
  push_cast
  rw [Int.emod_eq_of_lt hnonneg hlt, residue, modulus_eq]

theorem toList_pattern (width : Nat) (value : Int) :
    (pattern width value).toList = [' '].intercalate (Text.chunks 4 (shownBits width value)) :=
  Text.toList_joinGroups _ _

theorem filter_pattern (width : Nat) (value : Int) :
    (pattern width value).toList.filter (· ≠ ' ') = shownBits width value := by
  rw [toList_pattern, Text.filter_intercalate (by decide), Text.flatten_chunks]
  refine List.filter_eq_self.mpr fun c hc => decide_eq_true ?_
  rintro rfl
  exact space_notMem_bits hc

theorem pieces_pattern (hwidth : 0 < width) (value : Int) :
    Text.pieces [' '] (pattern width value).toList = Text.chunks 4 (shownBits width value) := by
  rw [toList_pattern]
  refine Text.pieces_intercalate (List.cons_ne_nil _ _) (Text.chunks_ne_nil (bits_ne_nil hwidth)) ?_
  rw [Text.flatten_chunks]
  exact Text.clear_of_head_notMem space_notMem_bits

end Word

/-- Grouping lays digits out and changes nothing about them. Without its spaces a pattern is a row
of as many bits as the word is wide, worth the residue by their places, and the spaces leave
clusters of four, of which the last may be shorter. The text of grouped digits can be read in
exactly one way as groups of the size, of which the first may be shorter, with separators between
them, and these groups make up the digits; and where the separator cannot be met before its place,
looking for it finds them. -/
theorem groups_keep_digits :
    (∀ (value : Int) (width : Nat), 0 < width →
      let text := (Word.pattern width value).toList
      let ds := text.filter (· ≠ ' ')
      ds.length = width ∧ (∀ c ∈ ds, c = '0' ∨ c = '1') ∧
        (Radix.bin.positional ds : Int) = value % 2 ^ width ∧
        (Text.pieces [' '] text).flatten = ds ∧ Text.LastShort 4 (Text.pieces [' '] text)) ∧
    ∀ (digits : List Char) (size : Nat) (separator : String), digits ≠ [] → 0 < size →
      let text := (Text.groupDigits digits size separator).toList
      ∃ groups, groups.flatten = digits ∧ Text.FirstShort size groups ∧
        (∀ gs, Text.FirstShort size gs →
          (separator.toList.intercalate gs = text ↔ gs = groups)) ∧
        (Text.Clear separator.toList digits → Text.pieces separator.toList text = groups) := by
  constructor
  · intro value width hwidth
    dsimp only
    rw [Word.filter_pattern, Word.pieces_pattern hwidth]
    exact ⟨Word.length_bits _ _, fun c => Word.eq_zero_or_one_of_mem_bits,
      Word.positional_shownBits width value, Text.flatten_chunks _ _,
      Text.lastShort_chunks (by decide) (Word.bits_ne_nil hwidth)⟩
  · intro digits size separator hdigits hsize text
    have htext : text = separator.toList.intercalate (Text.chunksFromRight size digits) :=
      Text.toList_joinGroups _ _
    have hshort := Text.firstShort_chunksFromRight hsize hdigits
    refine ⟨_, Text.flatten_chunksFromRight size digits, hshort, fun gs hgs => ?_, fun hclear => ?_⟩
    · rw [htext]
      exact ⟨Text.eq_of_intercalate_eq hgs hshort, fun h => by rw [h]⟩
    · rw [htext]
      refine Text.pieces_intercalate ?_ (List.cons_ne_nil _ _) ?_
      · intro hnil
        rw [hnil] at hclear
        exact hclear digits hdigits (List.infix_refl _) List.nil_prefix
      · rwa [Text.flatten_chunksFromRight]

/-- Six bits of a negative number, and seven digits in threes with a separator of two characters. -/
theorem groups_keep_digits_short :
    let text := (Word.pattern 6 (-3)).toList
    let grouped := (Text.groupDigits "1234567".toList 3 "::").toList
    text = "1111 01".toList ∧ Text.LastShort 4 (Text.pieces [' '] text) ∧
      (Radix.bin.positional (text.filter (· ≠ ' ')) : Int) = -3 % 2 ^ 6 ∧
      grouped = "1::234::567".toList ∧
      Text.pieces "::".toList grouped = ["1".toList, "234".toList, "567".toList] := by
  intro text grouped
  obtain ⟨hpattern, hgrouped⟩ := groups_keep_digits
  obtain ⟨-, -, hvalue, -, hclusters⟩ := hpattern (-3) 6 (by decide)
  obtain ⟨groups, -, -, hgroups, hpieces⟩ :=
    hgrouped "1234567".toList 3 "::" (by decide) (by decide)
  have htext : grouped = "1::234::567".toList := by decide +kernel
  have hthree : ["1".toList, "234".toList, "567".toList] = groups :=
    (hgroups ["1".toList, "234".toList, "567".toList] ⟨by decide, by decide⟩).mp (by decide +kernel)
  refine ⟨by decide +kernel, hclusters, hvalue, htext, ?_⟩
  rw [hthree]
  exact hpieces (Text.clear_of_head_notMem (by decide))

end Reckon
