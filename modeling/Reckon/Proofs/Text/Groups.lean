import Reckon.Proofs.Radix.Digits

/-!
# Groups by their sizes, and texts that are cut into groups

Groups of one size leave a short one where the counting ends: the last one if it starts at the left,
the first one if it starts at the right. Written with a separator between them, groups of which only
the first may be short can be read off by counting, whatever the separator is
(`eq_of_intercalate_eq`). To read them off by looking for the separator takes more: not only must it
not stand in a group, it must not be met too early either, where a group ends with a part of it.
`Clear` says that neither can be.
-/

namespace Reckon.Text

variable {α : Type} {size : Nat} {l : List α}

/-- All groups have the size, but the last may be shorter. None is empty. -/
def LastShort (size : Nat) : List (List α) → Prop
  | [] => False
  | [g] => 1 ≤ g.length ∧ g.length ≤ size
  | g :: gs => g.length = size ∧ LastShort size gs

/-- All groups have the size, but the first may be shorter. It is not empty. -/
def FirstShort (size : Nat) : List (List α) → Prop
  | [] => False
  | g :: gs => (1 ≤ g.length ∧ g.length ≤ size) ∧ ∀ h ∈ gs, h.length = size

theorem lastShort_cons {g : List α} {gs : List (List α)} (hgs : gs ≠ []) :
    LastShort size (g :: gs) ↔ g.length = size ∧ LastShort size gs := by
  cases gs with
  | nil => exact absurd rfl hgs
  | cons h gs => rfl

theorem chunks_ne_nil (hl : l ≠ []) : chunks size l ≠ [] := by
  cases l with
  | nil => exact absurd rfl hl
  | cons x xs => simp [chunks]

theorem lastShort_chunks (hsize : 0 < size) (hl : l ≠ []) : LastShort size (chunks size l) := by
  fun_induction chunks size l with
  | case1 => exact absurd rfl hl
  | case2 x xs ih =>
      have hlength : (x :: xs.take (size - 1)).length = min size (xs.length + 1) := by
        rw [List.length_cons, List.length_take]
        omega
      by_cases hrest : xs.drop (size - 1) = []
      · rw [hrest, chunks]
        show 1 ≤ List.length _ ∧ List.length _ ≤ size
        omega
      · have hlt : size - 1 < xs.length := by simpa using hrest
        exact (lastShort_cons (chunks_ne_nil hrest)).mpr ⟨by omega, ih hrest⟩

/-- Where nothing is left over, all groups have the size. -/
theorem length_of_mem_chunks (hsize : 0 < size) (hdvd : size ∣ l.length) :
    ∀ g ∈ chunks size l, g.length = size := by
  fun_induction chunks size l with
  | case1 =>
      intro g hg
      cases hg
  | case2 x xs ih =>
      have hle : size ≤ xs.length + 1 := Nat.le_of_dvd (Nat.succ_pos _) hdvd
      have hrest : (xs.drop (size - 1)).length = xs.length + 1 - size := by
        rw [List.length_drop]
        omega
      refine List.forall_mem_cons.mpr ⟨?_, ih (hrest ▸ Nat.dvd_sub hdvd (Nat.dvd_refl size))⟩
      rw [List.length_cons, List.length_take]
      omega

theorem firstShort_chunksFromRight (hsize : 0 < size) (hl : l ≠ []) :
    FirstShort size (chunksFromRight size l) := by
  have hpos : 0 < l.length := List.length_pos_iff.mpr hl
  have hlt := Nat.mod_lt l.length hsize
  have hmod := Nat.mod_add_div l.length size
  unfold chunksFromRight
  dsimp only
  split
  · next hzero =>
      have hdvd : size ∣ l.length := Nat.dvd_of_mod_eq_zero hzero
      have hle := Nat.le_of_dvd hpos hdvd
      refine ⟨?_, length_of_mem_chunks hsize ?_⟩
      · rw [List.length_take]
        omega
      · rw [List.length_drop]
        exact Nat.dvd_sub hdvd (Nat.dvd_refl size)
  · next hne =>
      have hle := Nat.mod_le l.length size
      refine ⟨?_, length_of_mem_chunks hsize ?_⟩
      · rw [List.length_take]
        omega
      · rw [List.length_drop]
        exact Nat.dvd_sub_mod l.length

variable {separator g : List α} {gs hs : List (List α)}

/-- The first group, and the others each with the separator before it. -/
theorem intercalate_cons_eq (g : List α) (gs : List (List α)) :
    separator.intercalate (g :: gs) = g ++ gs.flatMap (separator ++ ·) := by
  induction gs generalizing g with
  | nil => simp
  | cons h gs ih =>
      rw [List.intercalate_cons_cons, ih, List.flatMap_cons, List.append_assoc, List.append_assoc]

theorem length_flatMap_append (hgs : ∀ g ∈ gs, g.length = size) :
    (gs.flatMap (separator ++ ·)).length = gs.length * (separator.length + size) := by
  induction gs with
  | nil => simp
  | cons g gs ih =>
      obtain ⟨hg, hgs⟩ := List.forall_mem_cons.mp hgs
      rw [List.flatMap_cons, List.length_append, List.length_append, hg, ih hgs, List.length_cons]
      ring

theorem eq_of_flatMap_append_eq (hgs : ∀ g ∈ gs, g.length = size) (hhs : ∀ h ∈ hs, h.length = size)
    (hlength : gs.length = hs.length)
    (h : gs.flatMap (separator ++ ·) = hs.flatMap (separator ++ ·)) : gs = hs := by
  induction gs generalizing hs with
  | nil => exact (List.length_eq_zero_iff.mp hlength.symm).symm
  | cons g gs ih =>
      cases hs with
      | nil => cases hlength
      | cons g' hs =>
          obtain ⟨hg, hgs'⟩ := List.forall_mem_cons.mp hgs
          obtain ⟨hg', hhs'⟩ := List.forall_mem_cons.mp hhs
          rw [List.flatMap_cons, List.flatMap_cons, List.append_assoc, List.append_assoc] at h
          rw [List.length_cons, List.length_cons, Nat.add_right_cancel_iff] at hlength
          obtain ⟨rfl, hrest⟩ := List.append_inj (List.append_cancel_left h) (hg.trans hg'.symm)
          rw [ih hgs' hhs' hlength hrest]

/-- Such groups can be read off their text by counting. Its length gives away that of the first one,
which is at most the size, and how many follow. -/
theorem eq_of_intercalate_eq (hgs : FirstShort size gs) (hhs : FirstShort size hs)
    (h : separator.intercalate gs = separator.intercalate hs) : gs = hs := by
  match gs, hs with
  | [], _ => exact hgs.elim
  | _ :: _, [] => exact hhs.elim
  | g :: gs, g' :: hs =>
      obtain ⟨⟨hg0, hg⟩, hgs⟩ := hgs
      obtain ⟨⟨hg'0, hg'⟩, hhs⟩ := hhs
      rw [intercalate_cons_eq, intercalate_cons_eq] at h
      have hlengths := congrArg List.length h
      rw [List.length_append, List.length_append, length_flatMap_append hgs,
        length_flatMap_append hhs] at hlengths
      have hcount : gs.length = hs.length := by
        rcases Nat.lt_trichotomy gs.length hs.length with hlt | heq | hlt
        · have hmul := Nat.mul_le_mul_right (separator.length + size) (Nat.succ_le_of_lt hlt)
          rw [Nat.succ_mul] at hmul
          omega
        · exact heq
        · have hmul := Nat.mul_le_mul_right (separator.length + size) (Nat.succ_le_of_lt hlt)
          rw [Nat.succ_mul] at hmul
          omega
      rw [hcount] at hlengths
      obtain ⟨rfl, hrest⟩ := List.append_inj h (Nat.add_right_cancel hlengths)
      rw [eq_of_flatMap_append_eq hgs hhs hcount hrest]

/-- The pieces of a text between the places where the separator is found, from the left. -/
def pieces [BEq α] (separator : List α) : List α → List (List α)
  | [] => [[]]
  | c :: cs =>
    if separator.isPrefixOf (c :: cs) then [] :: pieces separator (cs.drop (separator.length - 1))
    else (pieces separator cs).modifyHead (c :: ·)
termination_by l => l.length

/-- Before a separator no part of the row makes it be found too early. -/
def Clear (separator l : List α) : Prop :=
  ∀ w, w ≠ [] → w <:+: l → ¬ separator <+: w ++ separator

theorem Clear.mono {l l' : List α} (h : Clear separator l) (hl : l' <:+: l) : Clear separator l' :=
  fun w hw hwl => h w hw (hwl.trans hl)

/-- That is so if the row does not have the first character of the separator. -/
theorem clear_of_head_notMem {c : α} {cs : List α} (hc : c ∉ l) : Clear (c :: cs) l := by
  intro w hw hwl hprefix
  cases w with
  | nil => exact hw rfl
  | cons d w =>
      obtain ⟨rfl, -⟩ := List.cons_prefix_cons.mp hprefix
      exact hc (hwl.subset List.mem_cons_self)

variable [BEq α] [LawfulBEq α]

theorem pieces_of_clear (hg : Clear separator g) : pieces separator g = [g] := by
  induction g with
  | nil => rw [pieces]
  | cons c g ih =>
      have hnot : ¬ separator.isPrefixOf (c :: g) = true := fun hprefix =>
        hg (c :: g) (List.cons_ne_nil _ _) (List.infix_refl _)
          ((List.isPrefixOf_iff_prefix.mp hprefix).trans (List.prefix_append _ _))
      rw [pieces, if_neg hnot, ih (hg.mono (List.suffix_cons c g).isInfix)]
      rfl

theorem pieces_append (hsep : separator ≠ []) (hg : Clear separator g) (rest : List α) :
    pieces separator (g ++ separator ++ rest) = g :: pieces separator rest := by
  induction g with
  | nil =>
      cases separator with
      | nil => exact absurd rfl hsep
      | cons c cs =>
          have hprefix : (c :: cs).isPrefixOf (c :: (cs ++ rest)) = true :=
            List.isPrefixOf_iff_prefix.mpr (List.prefix_append (c :: cs) rest)
          rw [List.nil_append, List.cons_append, pieces, if_pos hprefix, List.length_cons,
            Nat.add_sub_cancel, List.drop_left]
  | cons c g ih =>
      have hnot : ¬ separator.isPrefixOf (c :: (g ++ separator ++ rest)) = true := fun hprefix =>
        hg (c :: g) (List.cons_ne_nil _ _) (List.infix_refl _) <|
          List.prefix_of_prefix_length_le (List.isPrefixOf_iff_prefix.mp hprefix)
            (List.prefix_append (c :: g ++ separator) rest)
            (by rw [List.length_append]; exact Nat.le_add_left _ _)
      rw [List.cons_append, List.cons_append, pieces, if_neg hnot,
        ih (hg.mono (List.suffix_cons c g).isInfix)]
      rfl

/-- Looking for the separator finds the groups that were written. -/
theorem pieces_intercalate (hsep : separator ≠ []) (hgs : gs ≠ [])
    (hclear : Clear separator gs.flatten) : pieces separator (separator.intercalate gs) = gs := by
  induction gs with
  | nil => exact absurd rfl hgs
  | cons g gs ih =>
      rw [List.flatten_cons] at hclear
      have hg : Clear separator g := hclear.mono (List.prefix_append _ _).isInfix
      by_cases hnil : gs = []
      · rw [hnil, List.intercalate_singleton, pieces_of_clear hg]
      · rw [List.intercalate_cons_of_ne_nil hnil, pieces_append hsep hg,
          ih hnil (hclear.mono (List.suffix_append _ _).isInfix)]

end Reckon.Text
