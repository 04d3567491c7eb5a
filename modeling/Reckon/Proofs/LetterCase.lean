import Reckon.Proofs.Balance
import Reckon.Proofs.Enclosed
import Reckon.Proofs.Token.LetterCase
import Reckon.Proofs.YardNumerals

/-!
# Letter case does not matter

Texts that differ in capitals alone have the same value, or faults that differ in capitals alone.
What a scan finds in the small letters of a text is known already, and the yard only moves numerals
about. Some letters therefore come as far as the arithmetics: the digits above nine, the mark of an
exponent, and what an error quotes. The digits and the mark are read in both forms, so what is left
are the quotations. `Fault.lower` makes them small, and this is what all stages have in common.
-/

namespace Reckon

def Instruction.lower : Instruction → Instruction
  | number n => number n.lower
  | i => i

def EvalError.lower : EvalError → EvalError
  | invalidDigits n => invalidDigits n.lower
  | fractionalNumeral n => fractionalNumeral n.lower
  | tooLarge n => tooLarge n.lower
  | breach (.unreadableNumeral text) => breach (.unreadableNumeral text.toLower)
  | e => e

def Fault.lower : Fault → Fault
  | lexical e => lexical e.lower
  | evaluation e => evaluation e.lower
  | f => f

/-- The kinds of faults. Those that are not answered make up one kind. -/
inductive Fault.Kind where
  | lexical | syntactic | stack | semantic | unknownIdentifier | unknownFunction | arity | mode
  | divisionByZero | nonFinite | invalidInput | outOfRange | unanswered
deriving DecidableEq, Repr

def EvalError.kind : EvalError → Fault.Kind
  | missingOperands .. | unbalanced _ => .stack
  | unknownIdentifier _ => .unknownIdentifier
  | unknownFunction _ => .unknownFunction
  | arity .. => .arity
  | integerOnlyFunction _ | integerOnlyOperator _ | notOnWords _ | floatOnlyConstant _ => .mode
  | invalidDigits _ | fractionalNumeral _ | tooLarge _ | negativeExponent => .semantic
  | divisionByZero _ => .divisionByZero
  | nonFinite _ => .nonFinite
  | breach _ => .unanswered

def OptionError.kind : OptionError → Fault.Kind
  | unknownChoice .. | notInteger _ => .invalidInput
  | outOfRange .. => .outOfRange
  | unreadableDigits _ => .unanswered

def Fault.kind : Fault → Fault.Kind
  | lexical _ => .lexical
  | grouping _ => .syntactic
  | evaluation e => e.kind
  | option e => e.kind

/-- The place of a fault in the text. Only the scan knows it. -/
def Fault.position? : Fault → Option Nat
  | lexical e => some e.position
  | _ => none

theorem EvalError.kind_lower (e : EvalError) : e.lower.kind = e.kind := by
  unfold lower
  split <;> rfl

theorem Fault.kind_lower (f : Fault) : f.lower.kind = f.kind := by
  cases f with
  | evaluation e => exact e.kind_lower
  | _ => rfl

theorem Fault.position?_lower (f : Fault) : f.lower.position? = f.position? := by
  cases f <;> rfl

theorem Lexeme.related_lower (l : Lexeme) : l.Related (fun n m => n.lower = m) l.lower := by
  cases l <;> rfl

theorem Instruction.Related.lower_eq {i j : Instruction}
    (h : i.Related (fun n m => n.lower = m) j) : i.lower = j := by
  cases i with
  | number n =>
      cases j with
      | number m => exact congrArg number h
      | constant _ | call _ _ | operator _ | stray _ => cases h
  | constant _ | call _ _ | operator _ | stray _ => exact h

theorem Program.ofLexemes_lower (ls : List Lexeme) :
    ofLexemes (ls.map Lexeme.lower) = (ofLexemes ls).map (List.map Instruction.lower) := by
  have hlexemes : List.Forall₂ (Lexeme.Related fun n m => n.lower = m) ls (ls.map Lexeme.lower) :=
    List.forall₂_map_right_iff.mpr (List.forall₂_same.mpr fun l _ => l.related_lower)
  have hprograms := (ofLexemes_related hlexemes).map_eq (f := List.map Instruction.lower) (g := id)
    fun p q h => by
      have hmap := List.forall₂_map_left_iff.mpr (h.imp fun _ _ => Instruction.Related.lower_eq)
      exact List.forall₂_eq_eq_eq ▸ hmap
  rw [hprograms]
  cases ofLexemes (ls.map Lexeme.lower) <;> rfl

namespace Text

theorem asciiDigit_toLower (c : Char) : asciiDigit c.toLower = (asciiDigit c).toLower := by
  by_cases hc : c.toNat < 0x80
  · rw [asciiDigit_of_lt hc, asciiDigit_of_lt (toNat_toLower_lt.mpr hc)]
  · have hdigit : ∀ d < 10, d.digitChar.toLower = d.digitChar := by decide +kernel
    have hlower : c.toLower = c := toLower_of_le (by omega)
    rw [hlower, asciiDigit]
    split
    · next d hd =>
        refine (hdigit d ?_).symm
        obtain ⟨z, hz, rfl⟩ := Option.map_eq_some_iff.mp hd
        have hz := List.find?_some hz
        simp only [Bool.and_eq_true, decide_eq_true_eq] at hz
        omega
    · exact hlower.symm

theorem isDecimalDigit_toLower (c : Char) : isDecimalDigit c.toLower = isDecimalDigit c :=
  apply_toLower (by decide +kernel) c

theorem isOuterBlank_comp_toLower : isOuterBlank ∘ Char.toLower = isOuterBlank :=
  funext (apply_toLower (by decide +kernel))

theorem undivided?_toLower (afterDigit : Bool) (cs : List Char) :
    undivided? afterDigit (cs.map Char.toLower) =
      (undivided? afterDigit cs).map (List.map Char.toLower) := by
  induction cs generalizing afterDigit with
  | nil => rfl
  | cons c cs ih =>
      have hhead :
          (cs.map Char.toLower).head?.any isDecimalDigit = cs.head?.any isDecimalDigit := by
        cases cs with
        | nil => rfl
        | cons d ds => exact isDecimalDigit_toLower d
      rw [List.map_cons, undivided?, toLower_beq (by decide), hhead, isDecimalDigit_toLower, ih, ih,
        asciiDigit_toLower, undivided?]
      split
      · split <;> rfl
      · simp [Option.map_map, Function.comp_def]

theorem plain?_toLower (cs : List Char) :
    plain? (cs.map Char.toLower) = (plain? cs).map (List.map Char.toLower) := by
  simp only [plain?, List.dropWhile_map, ← List.map_reverse, isOuterBlank_comp_toLower,
    undivided?_toLower]

end Text

namespace Binary64

theorem unsigned?_toLower (cs : List Char) : unsigned? (cs.map Char.toLower) = unsigned? cs := by
  rw [unsigned?, unsigned?, ofText?, ofText?, named?, named?, Decimal.ofText?_toLower,
    List.map_map, Text.toLower_comp_toLower]

theorem signed?_toLower (cs : List Char) : signed? (cs.map Char.toLower) = signed? cs := by
  cases cs with
  | nil => rfl
  | cons c cs =>
      have hminus : c.toLower = '-' ↔ c = '-' := Text.toLower_eq_iff (by decide)
      have hplus : c.toLower = '+' ↔ c = '+' := Text.toLower_eq_iff (by decide)
      have hall := unsigned?_toLower (c :: cs)
      rw [List.map_cons] at hall ⊢
      by_cases hc : c = '-'
      · simp [signed?, hc, unsigned?_toLower]
      · by_cases hd : c = '+'
        · simp [signed?, hd, unsigned?_toLower]
        · simp [signed?, hc, hd, hminus, hplus, hall]

theorem ofWritten?_toLower (cs : List Char) :
    ofWritten? (cs.map Char.toLower) = ofWritten? cs := by
  rw [ofWritten?, Text.plain?_toLower, Option.bind_map, ofWritten?]
  exact congrArg _ (funext signed?_toLower)

end Binary64

theorem Numeral.integer_lower (n : Numeral) :
    n.lower.integer.mapError EvalError.lower = n.integer.mapError EvalError.lower := by
  have hvalue : n.lower.radix.value? n.lower.text.toList = n.radix.value? n.text.toList := by
    rw [lower, Text.toList_toLower, Radix.value?_toLower]
  have hempty : n.lower.text.isEmpty = n.text.isEmpty := by
    rw [Bool.eq_iff_iff, String.isEmpty_iff, String.isEmpty_iff, ← String.toList_eq_nil_iff,
      ← String.toList_eq_nil_iff, lower, Text.toList_toLower, List.map_eq_nil_iff]
  unfold integer
  rw [hvalue, hempty]
  split
  · exact congrArg (Except.error ∘ EvalError.invalidDigits) n.lower_lower
  · split
    · exact congrArg (Except.error ∘ EvalError.breach ∘ Breach.unreadableNumeral)
        (congrArg Numeral.text n.lower_lower)
    · rfl

/-! ## Machines

The two runs need no relation between their stacks. In whatever letters a numeral is written, its
value is the same, so one and the same state is before each instruction, and small letters are
wanted for the errors alone. Two computations that are equal up to these go on so, if what follows
them is equal up to these on every value (`mapError_bind_congr`). -/

/-- Whether letters are capitals in a numeral does not matter, but for the quotation in an error. -/
def Arithmetic.CaseBlind {α : Type} (A : Arithmetic α) : Prop :=
  ∀ n, (A.number n.lower).mapError EvalError.lower = (A.number n).mapError EvalError.lower

theorem Arithmetic.words_caseBlind (f : Word.Format) : (words f).CaseBlind := by
  intro n
  have hfractional : n.lower.fractional = n.fractional := rfl
  simp only [words, hfractional]
  split
  · exact congrArg (Except.error ∘ EvalError.fractionalNumeral) n.lower_lower
  · exact mapError_bind_congr n.integer_lower fun _ => rfl

theorem Arithmetic.floats_caseBlind : floats.CaseBlind := by
  intro n
  have hdecimal : readAsDecimal n.lower = readAsDecimal n := rfl
  have hwritten : Binary64.ofWritten? n.lower.text.toList = Binary64.ofWritten? n.text.toList := by
    rw [Numeral.lower, Text.toList_toLower, Binary64.ofWritten?_toLower]
  show (floatNumber n.lower).mapError _ = (floatNumber n).mapError _
  unfold floatNumber
  rw [hdecimal, hwritten]
  split
  · split
    · rfl
    · exact congrArg (Except.error ∘ EvalError.breach ∘ Breach.unreadableNumeral)
        (congrArg Numeral.text n.lower_lower)
  · refine mapError_bind_congr n.integer_lower fun exact => ?_
    split
    · rfl
    · exact congrArg (Except.error ∘ EvalError.tooLarge) n.lower_lower

namespace Machine

variable {α : Type} {A : Arithmetic α}

theorem step_lower (hA : A.CaseBlind) (s : State α) (i : Instruction) :
    (step A s i.lower).mapError EvalError.lower = (step A s i).mapError EvalError.lower := by
  cases i with
  | number n => exact mapError_bind_congr (hA n) fun _ => rfl
  | _ => rfl

theorem run_lower (hA : A.CaseBlind) (s : State α) (p : Program) :
    (run A s (p.map Instruction.lower)).mapError EvalError.lower =
      (run A s p).mapError EvalError.lower := by
  induction p generalizing s with
  | nil => rfl
  | cons i p ih =>
      rw [List.map_cons, run_cons, run_cons]
      exact mapError_bind_congr (step_lower hA s i) ih

theorem evaluate_lower (hA : A.CaseBlind) (p : Program) :
    (evaluate A (p.map Instruction.lower)).mapError EvalError.lower =
      (evaluate A p).mapError EvalError.lower :=
  mapError_bind_congr (run_lower hA {} p) fun _ => rfl

end Machine

theorem Program.evaluate_lower (o : Options) (p : Program) :
    (Program.evaluate o (p.map Instruction.lower)).mapError EvalError.lower =
      (p.evaluate o).mapError EvalError.lower := by
  unfold Program.evaluate
  cases o.mode with
  | float =>
      exact mapError_bind_congr (Machine.evaluate_lower Arithmetic.floats_caseBlind p) fun _ => rfl
  | integer =>
      exact mapError_bind_congr (Machine.evaluate_lower (Arithmetic.words_caseBlind _) p)
        fun _ => rfl

theorem isBlankText_toLower (text : String) : isBlankText text.toLower = isBlankText text := by
  have hblank : Text.isBlank ∘ Char.toLower = Text.isBlank := funext Text.isBlank_toLower
  rw [isBlankText, Text.toList_toLower, List.all_map, hblank, isBlankText]

theorem scan_toLower (o : Options) (text : String) :
    scan o text.toLower = ((scan o text).map (List.map Token.lower)).mapError Fault.lower := by
  rw [scan, tokenize_toLower, scan]
  cases tokenize o.inputBase.radix text <;> rfl

theorem group_lower (tokens : List Token) :
    group (tokens.map Token.lower) = (group tokens).map (List.map Instruction.lower) := by
  have hlexemes : (tokens.map Token.lower).map Token.lexeme =
      (tokens.map Token.lexeme).map Lexeme.lower := by
    rw [List.map_map, List.map_map]
    rfl
  rw [group, hlexemes, Program.ofLexemes_lower, group]
  cases Program.ofLexemes (tokens.map Token.lexeme) <;> rfl

theorem mapError_evaluation_lower {α : Type} (x : Except EvalError α) :
    (x.mapError Fault.evaluation).mapError Fault.lower =
      (x.mapError EvalError.lower).mapError Fault.evaluation := by
  cases x <;> rfl

theorem evaluate_toLower (o : Options) (text : String) :
    (evaluate o text.toLower).mapError Fault.lower = (evaluate o text).mapError Fault.lower := by
  cases hblank : isBlankText text with
  | true =>
      have hlower : isBlankText text.toLower = true := by rw [isBlankText_toLower, hblank]
      rw [evaluate, hlower, evaluate, hblank]
      rfl
  | false =>
      rw [evaluate_of_not_blank hblank, evaluate_of_not_blank (by rw [isBlankText_toLower, hblank]),
        scan_toLower]
      cases hscan : scan o text with
      | error f =>
          obtain ⟨e, -, rfl⟩ := mapError_eq_error hscan
          exact congrArg (Except.error ∘ Fault.lexical) e.lower_lower
      | ok tokens =>
          show (group (tokens.map Token.lower) >>= _).mapError _ = (group tokens >>= _).mapError _
          rw [group_lower]
          cases group tokens with
          | error f => rfl
          | ok p =>
              show ((Program.evaluate o (p.map Instruction.lower)).mapError _).mapError _ =
                ((p.evaluate o).mapError _).mapError _
              rw [mapError_evaluation_lower, mapError_evaluation_lower, p.evaluate_lower]

/-- Texts that differ in the capitals of ASCII alone have the same result, with its remark, or have
faults of the same kind, at the same place if they are lexical. The faults differ at most in the
capitals of what they quote. -/
theorem evaluate_ignores_case {text text' : String} (h : text'.toLower = text.toLower)
    (o : Options) :
    (∃ r, evaluate o text = .ok r ∧ evaluate o text' = .ok r) ∨
      ∃ f f', evaluate o text = .error f ∧ evaluate o text' = .error f' ∧
        f'.kind = f.kind ∧ f'.position? = f.position? ∧ f'.lower = f.lower := by
  have hoo : (evaluate o text').mapError Fault.lower = (evaluate o text).mapError Fault.lower := by
    rw [← evaluate_toLower, h, evaluate_toLower]
  cases hr : evaluate o text with
  | ok r =>
      rw [hr] at hoo
      exact .inl ⟨r, rfl, mapError_eq_ok hoo⟩
  | error f =>
      rw [hr] at hoo
      obtain ⟨f', hf', hlower⟩ := mapError_eq_error hoo
      refine .inr ⟨f, f', rfl, hf', ?_, ?_, hlower⟩
      · rw [← f'.kind_lower, hlower, f.kind_lower]
      · rw [← f'.position?_lower, hlower, f.position?_lower]

/-- Marks and digits in all forms, and an exponent, which integers do not have. -/
theorem evaluate_ignores_case_marked :
    "xor(0xFf, 0B1)".toLower = "XOR(0XfF, 0b1)".toLower ∧ "1 + 1E5".toLower = "1 + 1e5".toLower ∧
    evaluate { mode := .integer } "xor(0xFf, 0B1)" = .ok (.word 254 { mode := .integer }) ∧
    ∃ f, evaluate { mode := .integer } "1 + 1E5" = .error f ∧ f.kind = .semantic := by
  have hword : "xor(0xFf, 0B1)".toLower = "XOR(0XfF, 0b1)".toLower := by
    rw [← String.toList_inj, Text.toList_toLower, Text.toList_toLower]
    decide +kernel
  have hdecimal : "1 + 1E5".toLower = "1 + 1e5".toLower := by
    rw [← String.toList_inj, Text.toList_toLower, Text.toList_toLower]
    decide +kernel
  have hresult : evaluate { mode := .integer } "XOR(0XfF, 0b1)" =
      .ok (.word 254 { mode := .integer }) :=
    eq_ok_of_toOption (by decide +kernel)
  have hfault : evaluate { mode := .integer } "1 + 1e5" = .error (.evaluation
      (.fractionalNumeral { text := "1e5", fractional := true })) := by
    decide +kernel
  refine ⟨hword, hdecimal, ?_, ?_⟩
  · rcases evaluate_ignores_case hword { mode := .integer } with ⟨r, hr, hr'⟩ | ⟨f, -, hf, -⟩
    · rw [hresult] at hr
      cases hr
      exact hr'
    · rw [hresult] at hf
      cases hf
  · rcases evaluate_ignores_case hdecimal { mode := .integer } with ⟨r, hr, -⟩ |
      ⟨f, f', hf, hf', hkind, -⟩
    · rw [hfault] at hr
      cases hr
    · rw [hfault] at hf
      cases hf
      exact ⟨f', hf', hkind⟩

end Reckon
