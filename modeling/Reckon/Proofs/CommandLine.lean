import Reckon.CommandLine.Run
import Reckon.Proofs.Faults
import Reckon.Proofs.Refusals

/-!
# How commands end

A command line that can be read is answered: with the view of a result and exit code 0, or with
a fault, exit code 1 and nothing on the output. The fault is one of the text or the refusal of an
option value. The one error of the options that is no refusal, about digits that nobody can read,
is kept out by the arguments: their readers let only the texts of keys through to the options with
choices. This is the invariant of the loop over the arguments (`Changes.Legible`).
-/

namespace Reckon

/-- The faults that a command can have: those of its text, and refusals of its option values. -/
inductive Fault.OfCommand : Fault → Prop
  | text {f : Fault} : f.OfText → OfCommand f
  | refusal {e : OptionError} : e.isRefusal = true → OfCommand (.option e)

namespace CommandLine

/-- What has been read so far has legible changes, or the arguments make no sense. -/
abbrev Legible (x : Except Usage Progress) : Prop :=
  Settles (fun _ => True) (fun p => p.invocation.changes.Legible) x

theorem Progress.changes_operands (p : Progress) (ws : List String) :
    (p.operands ws).invocation.changes = p.invocation.changes := by
  unfold operands
  split <;> rfl

theorem Progress.changes_interrupt (p : Progress) :
    p.interrupt.invocation.changes = p.invocation.changes := by
  unfold interrupt
  split <;> rfl

theorem changes_readOperands (p : Progress) (ws : List String) :
    (readOperands p ws).invocation.changes = p.invocation.changes := by
  unfold readOperands
  split
  · split <;> rfl
  · exact p.changes_operands ws

theorem settles_rawValue {α : Type} (choices : List (Key × α))
    (h : ∀ c ∈ choices, (Raw.text c.1.text).isLegible = true) (v : String) :
    Settles (fun _ => True) (fun raw => raw.isLegible = true)
      (rawValue (choiceValue choices) v) := by
  unfold rawValue choiceValue
  split
  · rfl
  · split
    · next hany =>
        obtain ⟨c, hc, hv⟩ := List.any_eq_true.mp hany
        rw [← eq_of_beq hv]
        exact h c hc
    · trivial

theorem legible_setValue {p : Progress} (hp : p.invocation.changes.Legible) (s : Switch)
    (v : String) : Legible (setValue p s v) := by
  cases s with
  | mode =>
      refine (settles_rawValue Mode.choices (by decide) v).bind fun raw hraw => ?_
      exact { hp with mode := by rintro _ ⟨⟩; exact hraw }
  | inputBase =>
      refine (settles_rawValue InputBase.choices (by decide) v).bind fun raw hraw => ?_
      exact { hp with inputBase := by rintro _ ⟨⟩; exact hraw }
  | displayBase =>
      refine (settles_rawValue DisplayBase.choices (by decide) v).bind fun raw hraw => ?_
      exact { hp with displayBase := by rintro _ ⟨⟩; exact hraw }
  | width =>
      show Legible (rawValue integerValue v >>= _)
      cases rawValue integerValue v with
      | error _ => trivial
      | ok raw => exact { hp with }
  | help | unsigned | verbose => trivial

theorem legible_setFlag {p : Progress} (hp : p.invocation.changes.Legible) (s : Switch) :
    Legible (setFlag p s) := by
  cases s with
  | unsigned => exact { hp with }
  | verbose => exact hp
  | help | mode | inputBase | displayBase | width => trivial

theorem legible_setFlags (ss : List Switch) {p : Progress}
    (hp : p.invocation.changes.Legible) : Legible (ss.foldlM setFlag p) := by
  induction ss generalizing p with
  | nil => exact hp
  | cons s ss ih =>
      rw [List.foldlM_cons]
      exact (legible_setFlag hp s).bind fun p' hp' => ih hp'

/-- The loop over the arguments keeps to legible changes, by the recursion of `readArguments`. -/
theorem legible_readArguments (as : List Argument) {p : Progress}
    (hp : p.invocation.changes.Legible) : Legible (readArguments p as) := by
  have hinterrupt {p : Progress} (hp : p.invocation.changes.Legible) :
      p.interrupt.invocation.changes.Legible := by
    rw [p.changes_interrupt]
    exact hp
  fun_induction readArguments p as with
  | case1 p => exact hp
  -- An operand is a word of the expression.
  | case2 p w as ih =>
      refine ih ?_
      rw [p.changes_operands]
      exact hp
  | case3 p as ih => exact ih (hinterrupt hp)
  | case4 p as => trivial
  | case5 p ss as ih =>
      exact (legible_setFlags ss (hinterrupt hp)).bind fun p' hp' => ih p' hp'
  -- The value of a switch is joined to it, or the next argument.
  | case6 p s v as ih | case7 p s htakes v as ih =>
      exact (legible_setValue (hinterrupt hp) s v).bind fun p' hp' => ih p' hp'
  | case8 p s as htakes hno => trivial
  | case9 p s as htakes ih =>
      exact (legible_setFlag (hinterrupt hp) s).bind fun p' hp' => ih p' hp'

theorem Invocation.legible_of_ofArguments {args : List String} {i : Invocation}
    (h : ofArguments args = .ok i) : i.changes.Legible := by
  obtain ⟨as, -, h⟩ := bind_eq_ok h
  obtain ⟨p, hp, h⟩ := bind_eq_ok h
  have hlegible : Legible (readArguments {} as) :=
    legible_readArguments as
      { inputBase := by rintro _ ⟨⟩, displayBase := by rintro _ ⟨⟩, mode := by rintro _ ⟨⟩ }
  rw [hp] at hlegible
  -- What comes after the double hyphen, if there is one, changes no option.
  have hend {p' : Progress} (hp' : p'.invocation.changes.Legible)
      (h : (do
        if p'.stray || p'.stage = .before then throw .wrong
        return p'.invocation : Except Usage Invocation) = .ok i) : i.changes.Legible := by
    split at h
    · cases h
    · cases h
      exact hp'
  dsimp only at h
  split at h
  · exact hend hlegible h
  · refine hend ?_ h
    rw [changes_readOperands]
    exact hlegible

/-- What a command answers, before it is printed. -/
def Invocation.answer (i : Invocation) : Except Fault View := do
  let k ← Calculator.ofChanges i.changes
  k.solve (" ".intercalate i.words)

theorem Invocation.settles_answer {i : Invocation} (h : i.changes.Legible) :
    Settles Fault.OfCommand (fun _ => True) i.answer := by
  have hcalculator : Settles Fault.OfCommand (fun _ => True) (Calculator.ofChanges i.changes) :=
    ((Options.refusing_change {} h).mapError fun _ he => .refusal he).map fun _ _ => trivial
  refine hcalculator.bind fun k _ => ?_
  exact ((evaluate_settles k.options _).mono (fun _ hf => .text hf) fun _ h => h).bind
    fun _ _ => trivial

/-- What a command prints is its answer, with the log in front on the error output. -/
theorem Invocation.run_eq (i : Invocation) :
    (∃ v log, i.answer = .ok v ∧ i.run = .done 0 (viewLines v) log) ∨
      ∃ f log, i.answer = .error f ∧ i.run = .done 1 [] (log ++ ["error: " ++ f.message]) := by
  unfold Invocation.answer Invocation.run
  cases Calculator.ofChanges i.changes with
  | error f => exact .inr ⟨f, [], rfl, rfl⟩
  | ok k =>
      show (∃ v log, k.solve _ = .ok v ∧ _) ∨ ∃ f log, k.solve _ = .error f ∧ _
      dsimp only
      cases k.solve (" ".intercalate i.words) with
      | error f => exact .inr ⟨f, _, rfl, rfl⟩
      | ok v => exact .inl ⟨v, _, rfl, rfl⟩

end CommandLine

/-- A text has a result of the mode or a fault of its own, a result has a view whatever the
display, and a command that can be read prints its answer, or nothing but the fault. Nor is the yard
asked for a count that it does not have, or a function for a value that it does not have. -/
theorem no_breach_escapes :
    (∀ (o : Options) (text : String),
      Settles Fault.OfText (Result.OfMode o) (evaluate o text)) ∧
    (∀ (o : Options) (d : Display) (text : String),
      Settles Fault.OfText (fun v => ∃ r, Result.OfMode o r ∧ v = r.view d)
        ((evaluate o text).map fun r => r.view d)) ∧
    (∀ (args : List String) (i : CommandLine.Invocation),
      CommandLine.Invocation.ofArguments args = .ok i →
        (∃ v log, i.answer = .ok v ∧
          CommandLine.run args = .done 0 (CommandLine.viewLines v) log) ∨
        ∃ f log, i.answer = .error f ∧ f.OfCommand ∧
          CommandLine.run args = .done 1 [] (log ++ ["error: " ++ f.message])) ∧
    (∀ (ls : List Lexeme) (s : Yard.State) (ws st : List Yard.Waiting) (name : String),
      Yard.run {} ls = .ok s → s.stack = ws ++ .paren :: .callHead name :: st → s.counts ≠ []) ∧
    (∀ (f : Word.Format) (name : String) (argc : Nat) (g : List Int → Except EvalError Int)
      (stack args rest : List Int), (Arithmetic.words f).function name argc = .ok g →
        Machine.take name argc stack = .ok (args, rest) → ∃ a, g args = .ok a) ∧
    ∀ (name : String) (argc : Nat) (g : List Binary64 → Except EvalError Binary64)
      (stack args rest : List Binary64), Arithmetic.floats.function name argc = .ok g →
        Machine.take name argc stack = .ok (args, rest) →
          Settles (fun err => ∃ operation, err = .nonFinite operation) (fun _ => True)
            (g args) := by
  refine ⟨evaluate_settles, fun o d text => ?_, fun args i hi => ?_, ?_, ?_, ?_⟩
  · exact (evaluate_settles o text).map fun r hr => ⟨r, hr, rfl⟩
  · have hrun : CommandLine.run args = i.run := by rw [CommandLine.run, hi]
    rw [hrun]
    rcases i.run_eq with hdone | ⟨f, log, hf, hdone⟩
    · exact .inl hdone
    · have hsettles := CommandLine.Invocation.settles_answer
        (CommandLine.Invocation.legible_of_ofArguments hi)
      rw [hf] at hsettles
      exact .inr ⟨f, log, hf, hsettles, hdone⟩
  · exact fun ls s ws st name hrun hs => Yard.counts_ne_nil hrun hs
  · exact fun f name argc g stack args rest hg htake =>
      Arithmetic.words_function_defined hg (Machine.take_eq_ok htake).1
  · exact fun name argc g stack args rest hg htake =>
      Arithmetic.floats_function_settles hg (Machine.take_eq_ok htake).1

/-- A command whose expression lacks an operand. -/
theorem no_breach_escapes_missing_operand : ∃ f log, Fault.OfCommand f ∧
    CommandLine.run ["--mode=int", "1 +"] = .done 1 [] (log ++ ["error: " ++ f.message]) := by
  let i : CommandLine.Invocation :=
    { changes := { mode := some (.text "int") }, words := ["1 +"] }
  have hread : CommandLine.Invocation.ofArguments ["--mode=int", "1 +"] = .ok i := by decide
  have hanswer : i.answer = .error (.evaluation (.missingOperands "+" 1)) := by decide +kernel
  rcases no_breach_escapes.2.2.1 _ _ hread with ⟨v, log, hv, -⟩ | ⟨f, log, -, hf, hrun⟩
  · rw [hanswer] at hv
    cases hv
  · exact ⟨f, log, hf, hrun⟩

end Reckon
