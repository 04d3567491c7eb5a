import Reckon.Proofs.Precedence

/-!
# Lexemes in their places

Whether each lexeme of a text stands where one of its kind may stand can be told from left to right,
with no stack: what may come next depends only on whether an operand is due or has just ended, and
on whether a call has just begun. A row of lexemes that ends after an operand, with nothing on the
way out of its place, is `WellPlaced`. The places know nothing of nesting. `1)` and `(1` are well
placed, and so is a comma anywhere after an operand.

Every phrase of the grammar is well placed. The other way round the places alone are not enough, but
they are together with what the yard checks: see `exists_phrase` in `Reckon.Proofs.Derivation`.
-/

namespace Reckon

/-- What is known at a point of a text. -/
inductive Place where
  /-- An operand is due. -/
  | operand
  /-- An operand has ended. -/
  | operator
  /-- A call head waits for its parenthesis. -/
  | head
  /-- The parenthesis of a call has been opened. -/
  | arguments
deriving DecidableEq, Repr

namespace Place

/-- Where a lexeme leads that stands where an operand is due. -/
def begin : Lexeme → Option Place
  | .number _ | .name _ => some operator
  | .callHead _ => some head
  | .operator (.unary _) | .leftParen => some operand
  | _ => none

/-- The place after a lexeme, if the lexeme fits where it stands. -/
def after : Place → Lexeme → Option Place
  | operand, l => begin l
  | arguments, .rightParen => some operator
  | arguments, l => begin l
  | operator, .operator (.binary _) | operator, .comma => some operand
  | operator, .rightParen => some operator
  | head, .leftParen => some arguments
  | _, _ => none

def afterAll (p : Place) (ls : List Lexeme) : Option Place :=
  ls.foldlM after p

theorem afterAll_cons (p : Place) (l : Lexeme) (ls : List Lexeme) :
    p.afterAll (l :: ls) = p.after l >>= fun p => p.afterAll ls := rfl

theorem afterAll_append_of_some {p q : Place} {ls : List Lexeme} (h : p.afterAll ls = some q)
    (rs : List Lexeme) : p.afterAll (ls ++ rs) = q.afterAll rs := by
  rw [afterAll, List.foldlM_append, show ls.foldlM after p = some q from h]
  rfl

/-- Right after the parenthesis of a call everything may come that an operand begins with. -/
theorem after_arguments {l : Lexeme} {p : Place} (h : operand.after l = some p) :
    arguments.after l = some p := by
  cases l with
  | rightParen => cases h
  | _ => exact h

theorem afterAll_arguments {ls : List Lexeme} (h : operand.afterAll ls = some operator) :
    arguments.afterAll ls = some operator := by
  cases ls with
  | nil => cases h
  | cons l ls =>
      obtain ⟨p, hl, hls⟩ := Option.bind_eq_some_iff.mp h
      rw [afterAll_cons, after_arguments hl]
      exact hls

end Place

/-- Lexemes that stand in places of their kinds, from where an operand is due to where one has
ended. -/
def WellPlaced (ls : List Lexeme) : Prop :=
  Place.operand.afterAll ls = some .operator

instance (ls : List Lexeme) : Decidable (WellPlaced ls) :=
  inferInstanceAs (Decidable (_ = _))

namespace WellPlaced

theorem operator {ls rs : List Lexeme} (hl : WellPlaced ls) (hr : WellPlaced rs) (op : BinaryOp) :
    WellPlaced (ls ++ .operator (.binary op) :: rs) := by
  rw [WellPlaced, Place.afterAll_append_of_some hl]
  exact hr

theorem separated {lss : List (List Lexeme)} (hne : lss ≠ []) (h : ∀ ls ∈ lss, WellPlaced ls) :
    WellPlaced (commaSeparated lss) := by
  induction lss with
  | nil => exact absurd rfl hne
  | cons ls lss ih =>
      have hls : WellPlaced ls := h ls (by simp)
      cases lss with
      | nil => exact hls
      | cons rs lss =>
          show Place.operand.afterAll (ls ++ .comma :: commaSeparated (rs :: lss)) = _
          rw [Place.afterAll_append_of_some hls]
          exact ih (by simp) fun ts hts => h ts (by simp [hts])

end WellPlaced

/-- Phrases are well placed. -/
theorem Phrase.wellPlaced {s : Stratum} {ls : List Lexeme} {e : Expr} (h : Phrase s ls e) :
    WellPlaced ls := by
  induction h with
  | lift _ _ ih => exact ih
  | leftBinary _ _ _ _ _ ihl ihr => exact ihl.operator ihr _
  | rightBinary _ _ _ ihl ihr => exact ihl.operator ihr _
  | unary _ ih => exact ih
  | number | name => rfl
  | group _ ih =>
      show Place.operand.afterAll (_ ++ [Lexeme.rightParen]) = _
      rw [Place.afterAll_append_of_some ih]
      rfl
  | @call f args _ ih =>
      show Place.arguments.afterAll (_ ++ [Lexeme.rightParen]) = _
      by_cases hne : args = []
      · subst hne
        rfl
      · have hargs : WellPlaced (commaSeparated (args.map Prod.fst)) := by
          refine WellPlaced.separated (by simpa using hne) ?_
          intro ls hls
          obtain ⟨a, ha, rfl⟩ := List.mem_map.mp hls
          exact ih a ha
        rw [Place.afterAll_append_of_some (Place.afterAll_arguments hargs)]
        rfl

end Reckon
