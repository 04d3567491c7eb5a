import Mathlib.Data.List.Basic
import Mathlib.Data.List.Induction
import Reckon.Token.Basic

/-!
# Parentheses of a row of lexemes

Which parentheses are open at a point of a row, which closing one belongs to which opening one, and
what a call has between its parentheses: all of this is a matter of the parentheses alone, with no
operators and no program in it. A parenthesis is known by its place in the row, counted from zero,
and it is the parenthesis of a call if the lexeme in front of it is a call head.

The definitions look at a row from its beginning to a point, and the lemmas say what one more lexeme
at the end changes. What carries them is that the open parentheses are listed from the innermost
outwards, that is by falling places: the place of the next lexeme is new, and a parenthesis that has
been closed is never open again (`not_mem_openParens`).
-/

namespace Reckon

/-- The open parentheses after one more lexeme, which stands at the given place. -/
def nest (opened : List Nat) (l : Lexeme) (place : Nat) : List Nat :=
  match l with
  | .leftParen => place :: opened
  | .rightParen => opened.tail
  | _ => opened

/-- The places of the parentheses that are open after a row, the innermost first. -/
def openParens (ls : List Lexeme) : List Nat :=
  ls.zipIdx.foldl (fun opened x => nest opened x.1 x.2) []

/-- The function that is called by a parenthesis at a place, if there is a call head in front of it;
otherwise the parenthesis is that of a group. -/
def callAt? (ls : List Lexeme) : Nat → Option String
  | 0 => none
  | i + 1 =>
    match ls[i]? with
    | some (.callHead f) => some f
    | _ => none

/-- The number of commas whose innermost open parenthesis is the one at a place. -/
def commasIn (ls : List Lexeme) (i : Nat) : Nat :=
  (List.range ls.length).countP fun k =>
    ls[k]? == some .comma && (openParens (ls.take k)).head? == some i

/-- The parenthesis that a lexeme closes: the innermost open one. -/
def closedBy? : Lexeme → List Nat → Option Nat
  | .rightParen, i :: _ => some i
  | _, _ => none

/-- The pairs of parentheses, in the order of the closing ones. -/
def closures (ls : List Lexeme) : List (Nat × Nat) :=
  (List.range ls.length).filterMap fun j =>
    (ls[j]?.bind fun l => closedBy? l (openParens (ls.take j))).map fun i => (i, j)

/-- The number of arguments between the parentheses of a call: none if nothing at all is between
them, and else one more than there are commas of their own. -/
def argumentCount (ls : List Lexeme) (i j : Nat) : Nat :=
  if j = i + 1 then 0 else commasIn ls i + 1

/-- The calls of a row, each with its number of arguments, in the order of their closing
parentheses. -/
def calls (ls : List Lexeme) : List (String × Nat) :=
  (closures ls).filterMap fun c =>
    (callAt? ls c.1).map fun f => (f, argumentCount ls c.1 c.2)

/-- The call that a lexeme after a row ends, with the number of its arguments. -/
def endedCall? (ls : List Lexeme) (l : Lexeme) : Option (String × Nat) :=
  (closedBy? l (openParens ls)).bind fun i =>
    (callAt? ls i).map fun f => (f, argumentCount ls i ls.length)

variable {ls : List Lexeme} {l : Lexeme} {i j : Nat}

theorem openParens_append_singleton (ls : List Lexeme) (l : Lexeme) :
    openParens (ls ++ [l]) = nest (openParens ls) l ls.length := by
  simp [openParens, List.zipIdx_append]

theorem mem_nest {opened : List Nat} {place : Nat} (h : i ∈ nest opened l place) :
    i = place ∨ i ∈ opened := by
  cases l with
  | leftParen => exact List.mem_cons.mp h
  | rightParen => exact .inr (List.mem_of_mem_tail h)
  | number | name | callHead | operator | comma => exact .inr h

theorem lt_of_mem_openParens (h : i ∈ openParens ls) : i < ls.length := by
  induction ls using List.reverseRecOn with
  | nil => cases h
  | append_singleton ls l ih =>
      rw [openParens_append_singleton] at h
      rw [List.length_append, List.length_singleton]
      rcases mem_nest h with rfl | h
      · exact Nat.lt_succ_self _
      · exact Nat.lt_succ_of_lt (ih h)

theorem pairwise_openParens (ls : List Lexeme) : (openParens ls).Pairwise (· > ·) := by
  induction ls using List.reverseRecOn with
  | nil => exact .nil
  | append_singleton ls l ih =>
      rw [openParens_append_singleton]
      cases l with
      | leftParen => exact .cons (fun i hi => lt_of_mem_openParens hi) ih
      | rightParen => exact ih.tail
      | number | name | callHead | operator | comma => exact ih

/-- The innermost open parenthesis is open only once. -/
theorem not_mem_of_openParens_eq {is : List Nat} (h : openParens ls = i :: is) : i ∉ is := by
  have hpairwise := pairwise_openParens ls
  rw [h, List.pairwise_cons] at hpairwise
  exact fun hi => Nat.lt_irrefl i (hpairwise.1 i hi)

/-- What is in front of a parenthesis does not change as the row goes on. -/
theorem callAt?_append (h : i ≤ ls.length) (rs : List Lexeme) :
    callAt? (ls ++ rs) i = callAt? ls i := by
  cases i with
  | zero => rfl
  | succ i => rw [callAt?, callAt?, List.getElem?_append_left h]

theorem callAt?_length_append_singleton (ls : List Lexeme) (l : Lexeme) :
    callAt? (ls ++ [l]) (ls.length + 1) =
      match l with
      | .callHead f => some f
      | _ => none := by
  rw [callAt?, List.getElem?_concat_length]
  cases l <;> rfl

theorem commasIn_append_singleton (ls : List Lexeme) (l : Lexeme) (i : Nat) :
    commasIn (ls ++ [l]) i =
      commasIn ls i + if l = .comma ∧ (openParens ls).head? = some i then 1 else 0 := by
  have hold : ∀ k ∈ List.range ls.length,
      ((ls ++ [l])[k]? == some .comma &&
        (openParens ((ls ++ [l]).take k)).head? == some i) =
      (ls[k]? == some .comma && (openParens (ls.take k)).head? == some i) := by
    intro k hk
    have hlt : k < ls.length := List.mem_range.mp hk
    rw [List.getElem?_append_left hlt, List.take_append_of_le_length (Nat.le_of_lt hlt)]
  rw [commasIn, List.length_append, List.length_singleton, List.range_succ, List.countP_append,
    List.countP_congr fun k hk => by rw [hold k hk]]
  simp [commasIn, List.countP_singleton]

/-- A lexeme that is no comma of the parenthesis leaves its commas as they are. -/
theorem commasIn_append_singleton_of_not (h : ¬ (l = .comma ∧ (openParens ls).head? = some i)) :
    commasIn (ls ++ [l]) i = commasIn ls i := by
  rw [commasIn_append_singleton, if_neg h, Nat.add_zero]

/-- A parenthesis that is yet to come has no commas. -/
theorem commasIn_eq_zero (h : ls.length ≤ i) : commasIn ls i = 0 := by
  rw [commasIn, List.countP_eq_zero]
  intro k hk hcomma
  have hhead : (openParens (ls.take k)).head? = some i := by
    simpa using (Bool.and_eq_true_iff.mp hcomma).2
  have hlt := lt_of_mem_openParens (List.mem_of_mem_head? hhead)
  rw [List.length_take] at hlt
  omega

/-! ## Pairs of parentheses

A pair comes with its closing parenthesis and then stays. All laws of pairs go by induction from the
end of the row: a pair is an old one, or the last lexeme has closed the innermost open parenthesis
(`mem_closures_append_singleton`). That the two cases exclude each other is where the falling places
are needed, as the opening parenthesis of an old pair is open no more. -/

theorem closedBy?_eq_some {opened : List Nat} (h : closedBy? l opened = some i) :
    l = .rightParen ∧ ∃ is, opened = i :: is := by
  cases l with
  | rightParen =>
      cases opened with
      | nil => cases h
      | cons i' is =>
          cases h
          exact ⟨rfl, is, rfl⟩
  | number | name | callHead | operator | leftParen | comma => cases h

theorem closures_append_singleton (ls : List Lexeme) (l : Lexeme) :
    closures (ls ++ [l]) =
      closures ls ++ ((closedBy? l (openParens ls)).map fun i => (i, ls.length)).toList := by
  have hold : ∀ j ∈ List.range ls.length,
      (((ls ++ [l])[j]?.bind fun x => closedBy? x (openParens ((ls ++ [l]).take j))).map
        fun i => (i, j)) =
      ((ls[j]?.bind fun x => closedBy? x (openParens (ls.take j))).map fun i => (i, j)) := by
    intro j hj
    have hlt : j < ls.length := List.mem_range.mp hj
    rw [List.getElem?_append_left hlt, List.take_append_of_le_length (Nat.le_of_lt hlt)]
  rw [closures, List.length_append, List.length_singleton, List.range_succ, List.filterMap_append,
    List.filterMap_congr hold]
  cases h : closedBy? l (openParens ls) <;> simp [closures, h]

/-- A pair is an old one, or the last lexeme closes the innermost open parenthesis. -/
theorem mem_closures_append_singleton (h : (i, j) ∈ closures (ls ++ [l])) :
    (i, j) ∈ closures ls ∨
      l = .rightParen ∧ j = ls.length ∧ ∃ is, openParens ls = i :: is := by
  rw [closures_append_singleton, List.mem_append] at h
  rcases h with h | h
  · exact .inl h
  · cases hclosed : closedBy? l (openParens ls) with
    | none =>
        rw [hclosed] at h
        cases h
    | some i' =>
        rw [hclosed] at h
        obtain ⟨rfl, rfl⟩ := Prod.mk.inj (List.mem_singleton.mp h)
        obtain ⟨hl, his⟩ := closedBy?_eq_some hclosed
        exact .inr ⟨hl, rfl, his⟩

theorem lt_of_mem_closures (h : (i, j) ∈ closures ls) : i < j ∧ j < ls.length := by
  induction ls using List.reverseRecOn with
  | nil => cases h
  | append_singleton ls l ih =>
      rw [List.length_append, List.length_singleton]
      rcases mem_closures_append_singleton h with h | ⟨-, rfl, is, his⟩
      · exact ⟨(ih h).1, Nat.lt_succ_of_lt (ih h).2⟩
      · exact ⟨lt_of_mem_openParens (by rw [his]; simp), Nat.lt_succ_self _⟩

/-- A parenthesis that has been closed is not open again. -/
theorem not_mem_openParens (h : (i, j) ∈ closures ls) : i ∉ openParens ls := by
  induction ls using List.reverseRecOn with
  | nil => cases h
  | append_singleton ls l ih =>
      rw [openParens_append_singleton]
      intro hi
      rcases mem_closures_append_singleton h with h | ⟨rfl, rfl, is, his⟩
      · rcases mem_nest hi with rfl | hi
        · have hlt := lt_of_mem_closures h
          omega
        · exact ih h hi
      · rw [his] at hi
        exact not_mem_of_openParens_eq his hi

/-- A parenthesis is closed only once. -/
theorem eq_of_mem_closures {j' : Nat} (h : (i, j) ∈ closures ls) (h' : (i, j') ∈ closures ls) :
    j = j' := by
  induction ls using List.reverseRecOn with
  | nil => cases h
  | append_singleton ls l ih =>
      rcases mem_closures_append_singleton h with h | ⟨-, rfl, is, his⟩ <;>
        rcases mem_closures_append_singleton h' with h' | ⟨-, rfl, is', his'⟩
      · exact ih h h'
      · exact absurd (by rw [his']; simp) (not_mem_openParens h)
      · exact absurd (by rw [his]; simp) (not_mem_openParens h')
      · rfl

/-- A parenthesis is open still or has been closed. -/
theorem open_or_closed (h : ls[i]? = some .leftParen) :
    i ∈ openParens ls ∨ ∃ j, (i, j) ∈ closures ls := by
  induction ls using List.reverseRecOn with
  | nil => cases h
  | append_singleton ls l ih =>
      rw [openParens_append_singleton, closures_append_singleton]
      rcases Nat.lt_or_ge i ls.length with hlt | hge
      · rw [List.getElem?_append_left hlt] at h
        rcases ih h with hopen | ⟨j, hj⟩
        · cases l with
          | rightParen =>
              -- The innermost one is closed now, and the others stay open.
              match hopened : openParens ls with
              | [] =>
                  rw [hopened] at hopen
                  cases hopen
              | i' :: is =>
                  rw [hopened] at hopen
                  rcases List.mem_cons.mp hopen with rfl | hi
                  · exact .inr ⟨ls.length, by simp [closedBy?]⟩
                  · exact .inl hi
          | leftParen => exact .inl (List.mem_cons_of_mem _ hopen)
          | number | name | callHead | operator | comma => exact .inl hopen
        · exact .inr ⟨j, List.mem_append_left _ hj⟩
      · have hlast : i = ls.length := by
          have hlength := (List.getElem?_eq_some_iff.mp h).1
          rw [List.length_append, List.length_singleton] at hlength
          omega
        subst hlast
        rw [List.getElem?_concat_length] at h
        cases h
        exact .inl (List.mem_cons_self ..)

/-- A pair of parentheses keeps its call and the number of its arguments as the row goes on. -/
theorem argumentCount_append_singleton (h : (i, j) ∈ closures ls) (l : Lexeme) :
    argumentCount (ls ++ [l]) i j = argumentCount ls i j := by
  have hcommas : commasIn (ls ++ [l]) i = commasIn ls i :=
    commasIn_append_singleton_of_not fun hcomma =>
      not_mem_openParens h (List.mem_of_mem_head? hcomma.2)
  rw [argumentCount, argumentCount, hcommas]

theorem calls_append_singleton (ls : List Lexeme) (l : Lexeme) :
    calls (ls ++ [l]) = calls ls ++ (endedCall? ls l).toList := by
  have hold : ∀ c ∈ closures ls,
      ((callAt? (ls ++ [l]) c.1).map fun f => (f, argumentCount (ls ++ [l]) c.1 c.2)) =
        (callAt? ls c.1).map fun f => (f, argumentCount ls c.1 c.2) := by
    rintro ⟨i, j⟩ hc
    have hlt := lt_of_mem_closures hc
    rw [callAt?_append (by omega), argumentCount_append_singleton hc]
  rw [calls, closures_append_singleton, List.filterMap_append, List.filterMap_congr hold]
  refine congrArg (calls ls ++ ·) ?_
  rw [endedCall?]
  cases hclosed : closedBy? l (openParens ls) with
  | none => rfl
  | some i =>
      obtain ⟨rfl, is, his⟩ := closedBy?_eq_some hclosed
      have hlt : i < ls.length := lt_of_mem_openParens (by rw [his]; simp)
      have hcommas : commasIn (ls ++ [.rightParen]) i = commasIn ls i :=
        commasIn_append_singleton_of_not (by simp)
      have hcount : argumentCount (ls ++ [.rightParen]) i ls.length =
          argumentCount ls i ls.length := by
        rw [argumentCount, argumentCount, hcommas]
      cases hcall : callAt? ls i <;>
        simp [callAt?_append (Nat.le_of_lt hlt), hcall, hcount]

end Reckon
