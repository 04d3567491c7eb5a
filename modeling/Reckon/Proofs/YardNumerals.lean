import Reckon.Program.OfLexemes
import Reckon.Proofs.Outcome
import Mathlib.Data.List.Forall2

/-!
# The yard does not look at numerals

A numeral goes straight to the program, and nothing that the yard decides depends on which one it
is. So two rows of lexemes that differ in their numerals alone are refused for the same reason, or
have programs that differ in the same numerals. What may differ between two numerals is a parameter:
`R` says which of them are taken for each other.
-/

namespace Reckon

variable {R : Numeral → Numeral → Prop}

/-- The same lexemes, or numerals in the relation. -/
def Lexeme.Related (R : Numeral → Numeral → Prop) : Lexeme → Lexeme → Prop
  | number n, number m => R n m
  | l, l' => l = l'

/-- The same instructions, or numerals in the relation. -/
def Instruction.Related (R : Numeral → Numeral → Prop) : Instruction → Instruction → Prop
  | number n, number m => R n m
  | i, i' => i = i'

namespace Yard

/-- States that differ in the numerals of the program so far. -/
def State.Related (R : Numeral → Numeral → Prop) (s t : State) : Prop :=
  ∃ output, t = { s with output } ∧ List.Forall₂ (Instruction.Related R) s.output output

/-- What leaves the stack is no numeral. -/
theorem related_release (w : Waiting) :
    List.Forall₂ (Instruction.Related R) w.release w.release := by
  cases w with
  | operator op => exact .cons rfl .nil
  | callHead name => exact .cons rfl .nil
  | paren => exact .nil

theorem related_emit (ws : List Waiting) {output output' : List Instruction}
    (h : List.Forall₂ (Instruction.Related R) output output') :
    List.Forall₂ (Instruction.Related R) (emit ws output) (emit ws output') := by
  refine List.rel_append (List.rel_reverse ?_) h
  induction ws with
  | nil => exact .nil
  | cons w ws ih => exact List.rel_append (related_release w) ih

theorem State.Related.unwind {s t : State} (h : s.Related R t) :
    (unwind s).Related R (unwind t) := by
  obtain ⟨output, rfl, h⟩ := h
  exact ⟨_, rfl, related_emit _ h⟩

theorem comma_related {s t : State} (h : s.Related R t) :
    Agree (State.Related R) (comma s) (comma t) := by
  obtain ⟨output, hunwind, hout⟩ := h.unwind
  unfold comma
  rw [hunwind]
  dsimp only
  split
  · exact .error _
  · exact .ok ⟨output, rfl, hout⟩
  · exact .error _

theorem close_related {s t : State} (h : s.Related R t) :
    Agree (State.Related R) (close s) (close t) := by
  obtain ⟨output, hunwind, hout⟩ := h.unwind
  obtain ⟨_, rfl, -⟩ := h
  unfold close
  rw [hunwind]
  dsimp only
  split
  · exact .error _
  · exact .ok ⟨_, rfl, .cons rfl hout⟩
  · split
    · exact .error _
    · exact .ok ⟨output, rfl, hout⟩

theorem step_related {s t : State} (h : s.Related R t) {l l' : Lexeme} (hl : l.Related R l') :
    Agree (State.Related R) (step s l) (step t l') := by
  cases l with
  | number n =>
      obtain ⟨output, rfl, hout⟩ := h
      cases l' with
      | number m => exact .ok ⟨_, rfl, .cons hl hout⟩
      | name _ | callHead _ | operator _ | leftParen | rightParen | comma => cases hl
  | name name =>
      obtain ⟨output, rfl, hout⟩ := h
      obtain rfl : .name name = l' := hl
      exact .ok ⟨_, rfl, .cons rfl hout⟩
  | callHead name =>
      obtain ⟨output, rfl, hout⟩ := h
      obtain rfl : .callHead name = l' := hl
      exact .ok ⟨output, rfl, hout⟩
  | operator op =>
      obtain ⟨output, rfl, hout⟩ := h
      obtain rfl : .operator op = l' := hl
      exact .ok ⟨_, rfl, related_emit _ hout⟩
  | leftParen =>
      obtain ⟨output, rfl, hout⟩ := h
      obtain rfl : .leftParen = l' := hl
      exact .ok ⟨output, rfl, hout⟩
  | rightParen =>
      obtain rfl : .rightParen = l' := hl
      exact close_related h
  | comma =>
      obtain rfl : .comma = l' := hl
      exact comma_related h

theorem foldlM_step_related {ls ls' : List Lexeme} (hls : List.Forall₂ (Lexeme.Related R) ls ls') :
    ∀ {s t : State}, s.Related R t →
      Agree (State.Related R) (ls.foldlM step s) (ls'.foldlM step t) := by
  induction hls with
  | nil => exact fun h => .ok h
  | cons hl _ ih => exact fun h => (step_related h hl).bind fun _ _ h => ih h

/-- A program from the stack alone has no numerals. -/
theorem drain_related (ws : List Waiting) :
    Agree (List.Forall₂ (Instruction.Related R)) (drain ws) (drain ws) := by
  induction ws with
  | nil => exact .ok .nil
  | cons w ws ih =>
      cases w with
      | operator op => exact ih.bind fun _ _ h => .ok (.cons rfl h)
      | callHead name => exact .error _
      | paren => exact .error _

end Yard

/-- Rows of lexemes that differ in their numerals alone have programs that do so too, or are refused
alike. -/
theorem Program.ofLexemes_related {ls ls' : List Lexeme}
    (h : List.Forall₂ (Lexeme.Related R) ls ls') :
    Agree (List.Forall₂ (Instruction.Related R)) (ofLexemes ls) (ofLexemes ls') := by
  refine (Yard.foldlM_step_related h ⟨[], rfl, .nil⟩).bind ?_
  rintro s - ⟨output, rfl, hout⟩
  exact (Yard.drain_related s.stack).bind fun _ _ hp =>
    .ok (List.rel_append (List.rel_reverse hout) hp)

end Reckon
