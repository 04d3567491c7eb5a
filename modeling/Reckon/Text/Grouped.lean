/-!
# Groups of digits

Long rows of digits are divided into groups of one size. Counted from the left, the last group may
be shorter; counted from the right, as numerals are, the first.
-/

namespace Reckon.Text

variable {α : Type}

/-- Groups of `size` from the left. -/
def chunks (size : Nat) : List α → List (List α)
  | [] => []
  | x :: xs => (x :: xs.take (size - 1)) :: chunks size (xs.drop (size - 1))
termination_by l => l.length

theorem flatten_chunks (size : Nat) (l : List α) : (chunks size l).flatten = l := by
  fun_induction chunks size l with
  | case1 => rfl
  | case2 x xs ih => simp [ih]

/-- Groups of `size` from the right. There is always a first group, if only an empty one. -/
def chunksFromRight (size : Nat) (l : List α) : List (List α) :=
  let head := if l.length % size = 0 then size else l.length % size
  l.take head :: chunks size (l.drop head)

theorem flatten_chunksFromRight (size : Nat) (l : List α) :
    (chunksFromRight size l).flatten = l := by
  simp [chunksFromRight, flatten_chunks]

/-- Writes groups one after the other. -/
def joinGroups (separator : String) (groups : List (List Char)) : String :=
  separator.intercalate (groups.map String.ofList)

/-- Divides the digits of a numeral. -/
def groupDigits (digits : List Char) (size : Nat) (separator : String) : String :=
  joinGroups separator (chunksFromRight size digits)

end Reckon.Text
