import Reckon.Proofs.Balance
import Reckon.Proofs.Enclosed
import Reckon.Proofs.Token.Spelling

/-!
# Texts made of texts

Any text that has a value can stand between parentheses as an operand of a larger text, also one
that is no phrase of the grammar. Three things are needed for it, one of each stage. Its characters
spell the same lexemes in front of a closing parenthesis or a comma (`Spells.text`); these lexemes,
which list a tree on their own, list it inside parentheses (`readsInside_of_ofLexemes`); and the
value of the larger tree is made of the values of its parts, by the definition of `Expr.evaluate`.

`Composes` collects what follows for each way of putting texts together. What the arithmetic does
to values that carry remarks is spelled out first, as the tree does it.
-/

namespace Reckon

open Scan (Spells)

section

variable {α : Type}

namespace Arithmetic

def applyUnary (A : Arithmetic α) (op : UnaryOp) (x : α × Option String) :
    Except EvalError (α × Option String) := do
  let apply ← A.unary op
  return (← apply x.1, x.2)

def applyBinary (A : Arithmetic α) (op : BinaryOp) (x y : α × Option String) :
    Except EvalError (α × Option String) := do
  let apply ← A.binary op
  return (← apply x.1 y.1, y.2 <|> x.2)

/-- The remark of the last value that has one. -/
def lastNote (xs : List (α × Option String)) : Option String :=
  xs.reverse.findSome? Prod.snd

def applyCall (A : Arithmetic α) (name : String) (xs : List (α × Option String)) :
    Except EvalError (α × Option String) := do
  let apply ← A.function name xs.length
  return (← apply (xs.map Prod.fst), lastNote xs)

end Arithmetic

namespace Expr

variable {A : Arithmetic α} {e l r : Expr} {x y : α × Option String}

theorem evaluate_unary (op : UnaryOp) (h : e.evaluate A = .ok x) :
    (unary op e).evaluate A = A.applyUnary op x := by
  rw [evaluate, h]
  rfl

theorem evaluate_binary (op : BinaryOp) (hl : l.evaluate A = .ok x) (hr : r.evaluate A = .ok y) :
    (binary op l r).evaluate A = A.applyBinary op x y := by
  rw [evaluate, hl]
  show (r.evaluate A >>= _) = _
  rw [hr]
  rfl

theorem evaluateAll_of_forall₂ {es : List Expr} {xs : List (α × Option String)}
    (h : List.Forall₂ (fun e x => evaluate A e = .ok x) es xs) :
    evaluateAll A es = .ok (xs.map Prod.fst, Arithmetic.lastNote xs) := by
  induction h with
  | nil => rfl
  | @cons e x es xs he _ ih =>
      rw [evaluateAll, he]
      show (evaluateAll A es >>= _) = _
      rw [ih]
      show Except.ok (_, (Arithmetic.lastNote xs <|> x.2)) = _
      simp [Arithmetic.lastNote, List.findSome?_append]

theorem evaluate_call (f : String) {es : List Expr} {xs : List (α × Option String)}
    (h : List.Forall₂ (fun e x => evaluate A e = .ok x) es xs) :
    (call f es).evaluate A = A.applyCall f xs := by
  rw [evaluate, evaluateAll_of_forall₂ h, h.length_eq]
  rfl

end Expr

end

/-- The characters spell an operand, whatever comes after them. -/
structure Operand (radix : Radix) (cs : List Char) (ls : List Lexeme) (e : Expr) : Prop where
  spells : ∀ rest, Spells radix true (cs ++ rest) ls false rest
  reads : Yard.Reads .primary ls e

theorem Operand.spells_self {radix : Radix} {cs : List Char} {ls : List Lexeme} {e : Expr}
    (h : Operand radix cs ls e) : Spells radix true cs ls false [] := by
  simpa using h.spells []

/-- The text can be put between parentheses. -/
structure Enclosable (radix : Radix) (text : String) (ls : List Lexeme) (e : Expr) : Prop where
  spells : ∀ {c rest}, c = ')' ∨ c = ',' →
    ∃ due, Spells radix true (text.toList ++ c :: rest) ls due (c :: rest)
  reads : Yard.ReadsInside ls e

variable {o : Options} {radix : Radix} {text : String} {cs ds : List Char}
  {ls rs : List Lexeme} {e l r : Expr}

theorem exists_enclosable {res : Result} (h : evaluate o text = .ok res) :
    ∃ ls e, Enclosable o.inputBase.radix text ls e ∧ e.result o = .ok res := by
  obtain ⟨tokens, e, hscan, hgroup, hresult⟩ := (evaluate_eq_ok_iff_result o text res).mp h
  refine ⟨tokens.map Token.lexeme, e, ⟨?_, ?_⟩, hresult⟩
  · exact Spells.text (mapError_eq_ok hscan)
  · exact Yard.readsInside_of_ofLexemes (mapError_eq_ok hgroup)

theorem Enclosable.group (h : Enclosable radix text ls e) :
    Operand radix ('(' :: (text.toList ++ [')'])) (.leftParen :: (ls ++ [.rightParen])) e := by
  refine ⟨fun rest => ?_, .group h.reads⟩
  obtain ⟨due, hspells⟩ := @h.spells ')' rest (.inl rfl)
  have hopen : Spells radix true ('(' :: (text.toList ++ ')' :: rest)) [.leftParen] true _ :=
    .leftParen
  have hgroup := hopen.trans (hspells.trans .rightParen)
  simpa using hgroup

/-- Arguments are spelled with a comma and a blank between each and the next. -/
theorem spells_arguments {texts : List String} {args : List (List Lexeme × Expr)}
    (h : List.Forall₂ (fun text a => Enclosable radix text a.1 a.2) texts args)
    (hne : texts ≠ []) (rest : List Char) :
    Spells radix true ([',', ' '].intercalate (texts.map String.toList) ++ ')' :: rest)
      (commaSeparated (args.map Prod.fst) ++ [.rightParen]) false rest := by
  induction h with
  | nil => exact absurd rfl hne
  | @cons text a texts args ha hargs ih =>
      cases hargs with
      | nil =>
          obtain ⟨due, hspells⟩ := @ha.spells ')' rest (.inl rfl)
          have hlast := hspells.trans .rightParen
          simpa [commaSeparated] using hlast
      | @cons text' b texts args hb hargs =>
          have hrest := Spells.blank (c := ' ') (by decide) (ih (by simp))
          obtain ⟨due, hspells⟩ := @ha.spells ',' (' ' :: _) (.inr rfl)
          have hall := hspells.trans (Spells.comma.trans hrest)
          simpa [commaSeparated] using hall

theorem operand_call {f : String} (hf : Scan.isName f.toList = true) {texts : List String}
    {args : List (List Lexeme × Expr)}
    (h : List.Forall₂ (fun text a => Enclosable radix text a.1 a.2) texts args)
    (hne : texts ≠ []) :
    Operand radix
      (f.toList ++ '(' :: ([',', ' '].intercalate (texts.map String.toList) ++ [')']))
      (.callHead f.toLower :: .leftParen :: (commaSeparated (args.map Prod.fst) ++ [.rightParen]))
      (.call f.toLower (args.map Prod.snd)) := by
  refine ⟨fun rest => ?_, .call fun a ha => ?_⟩
  · have hspells := (Spells.callHead hf).trans
      (Spells.leftParen.trans (spells_arguments h hne rest))
    simpa using hspells
  · have hreads : List.Forall₂ (fun a _ => Yard.ReadsInside a.1 a.2 ∧ True) args texts :=
      h.flip.imp fun _ _ ha => ⟨ha.reads, trivial⟩
    exact ((List.forall₂_and_left _ _).mp hreads).1 a ha

namespace Yard

/-- Two operands with any operator between them. -/
theorem Reads.between (op : BinaryOp) (hl : Reads .primary ls l) (hr : Reads .primary rs r) :
    Reads .or (ls ++ .operator (.binary op) :: rs) (.binary op l r) := by
  have hpower (h : op ∈ Stratum.power.operators) :=
    (Reads.rightBinary h (hl.widen (by decide)) (hr.widen (by decide))).widen
      (s := .or) (by decide)
  have hchain {s t : Stratum} (hs : s ≠ .power) (h : op ∈ s.operators) (ht : s.tighter? = some t) :=
    (Reads.leftBinary hs h ht (hl.widen (by cases s <;> decide))
      (hr.widen (by cases t <;> decide))).widen (s := .or) (by cases s <;> decide)
  cases op with
  | caret | doubleStar => exact hpower (by decide)
  | bitOr => exact hchain (s := .or) (by decide) (by decide) rfl
  | bitXor => exact hchain (s := .xor) (by decide) (by decide) rfl
  | bitAnd => exact hchain (s := .and) (by decide) (by decide) rfl
  | shiftLeft | shiftRight => exact hchain (s := .shift) (by decide) (by decide) rfl
  | add | sub => exact hchain (s := .sum) (by decide) (by decide) rfl
  | mul | div | mod => exact hchain (s := .product) (by decide) (by decide) rfl

end Yard

/-- A text that spells the lexemes of a tree has the outcome of the tree. -/
theorem evaluate_of_spells {due : Bool}
    (hspells : Spells o.inputBase.radix true text.toList ls due []) (hreads : Yard.Reads .or ls e) :
    evaluate o text = (e.result o).mapError Fault.evaluation := by
  obtain ⟨tokens, htokens, rfl⟩ := hspells.tokenize
  have hscan : scan o text = .ok tokens := by
    rw [scan, htokens]
    rfl
  have hgroup : group tokens = .ok e.program := by
    rw [group, hreads.ofLexemes]
    rfl
  exact evaluate_of_group hscan hgroup

theorem Operand.evaluate (h : Operand o.inputBase.radix cs ls e) (htext : text.toList = cs) :
    Reckon.evaluate o text = (e.result o).mapError Fault.evaluation := by
  have hspells := h.spells_self
  rw [← htext] at hspells
  exact evaluate_of_spells hspells (h.reads.widen (by decide))

theorem Operand.evaluate_binary (op : BinaryOp) (hl : Operand o.inputBase.radix cs ls l)
    (hr : Operand o.inputBase.radix ('(' :: ds) rs r)
    (htext : text.toList = cs ++ ' ' :: (op.symbol.toList ++ ' ' :: '(' :: ds)) :
    Reckon.evaluate o text = ((Expr.binary op l r).result o).mapError Fault.evaluation := by
  have hpaired : ∀ c, Scan.pairedOperator? c '(' = none := by
    intro c
    unfold Scan.pairedOperator?
    split <;> simp_all
  have hspells :=
    (hl.spells _).trans ((Spells.binary op (by decide) hpaired).trans hr.spells_self)
  rw [← htext] at hspells
  exact evaluate_of_spells hspells (.between op hl.reads hr.reads)

theorem Operand.evaluate_unary (op : UnaryOp) (h : Operand o.inputBase.radix ('(' :: cs) ls e)
    (htext : text.toList = op.spelling :: '(' :: cs) :
    Reckon.evaluate o text = ((Expr.unary op e).result o).mapError Fault.evaluation := by
  have hspells := (Spells.unary op).trans h.spells_self
  rw [← htext] at hspells
  have hreads := Yard.Reads.unary op (h.reads.widen (by decide))
  exact evaluate_of_spells hspells (hreads.widen (by decide))

/-! ## Values of compound texts

A result may tell less than the value it was made of: that of a word leaves out the remark. So the
values of the parts are not known from their results, only that some values with these results stand
behind the texts (`exists_tree`). `Faithful` says that this is enough, since an operation on values
with equal results has equal results. For numbers the result tells everything, and there is nothing
to show; for words it has to be seen that no operation looks at a remark. -/

/-- What the values of texts made of texts are under the given options: `A` is the arithmetic, and
`result` makes a result of one of its values. -/
structure Composes {α : Type} (o : Options) (A : Arithmetic α)
    (result : α × Option String → Result) : Prop where
  value : ∀ {text : String} {res : Result}, evaluate o text = .ok res → ∃ x, res = result x
  group : ∀ {text : String} {res : Result}, evaluate o text = .ok res →
    evaluate o ("(" ++ text ++ ")") = .ok res
  binary : ∀ (op : BinaryOp) {left right : String} {x y : α × Option String},
    evaluate o left = .ok (result x) → evaluate o right = .ok (result y) →
    evaluate o ("(" ++ left ++ ") " ++ op.symbol ++ " (" ++ right ++ ")") =
      ((A.applyBinary op x y).map result).mapError Fault.evaluation
  unary : ∀ (op : UnaryOp) {text : String} {x : α × Option String},
    evaluate o text = .ok (result x) →
    evaluate o (String.singleton op.spelling ++ "(" ++ text ++ ")") =
      ((A.applyUnary op x).map result).mapError Fault.evaluation
  call : ∀ {f : String} {texts : List String} {xs : List (α × Option String)},
    Scan.isName f.toList = true → texts ≠ [] →
    List.Forall₂ (fun text x => evaluate o text = .ok (result x)) texts xs →
    evaluate o (f ++ "(" ++ ", ".intercalate texts ++ ")") =
      ((A.applyCall f.toLower xs).map result).mapError Fault.evaluation

/-- Results tell all of the values that operations depend on. -/
structure Faithful {α : Type} (A : Arithmetic α) (result : α × Option String → Result) : Prop where
  binary : ∀ (op : BinaryOp) {x x' y y' : α × Option String}, result x = result x' →
    result y = result y' → (A.applyBinary op x y).map result = (A.applyBinary op x' y').map result
  unary : ∀ (op : UnaryOp) {x x' : α × Option String}, result x = result x' →
    (A.applyUnary op x).map result = (A.applyUnary op x').map result
  call : ∀ (f : String) {xs xs' : List (α × Option String)}, xs.map result = xs'.map result →
    (A.applyCall f xs).map result = (A.applyCall f xs').map result

section

variable {α : Type} {A : Arithmetic α} {result : α × Option String → Result}

/-- Behind an accepted text there is a tree, and its value is known up to what the result tells. -/
theorem exists_tree (hresult : ∀ e : Expr, e.result o = (e.evaluate A).map result) {res : Result}
    (h : evaluate o text = .ok res) :
    ∃ ls e x, Enclosable o.inputBase.radix text ls e ∧ e.evaluate A = .ok x ∧ result x = res := by
  obtain ⟨ls, e, henclosable, he⟩ := exists_enclosable h
  rw [hresult] at he
  obtain ⟨x, hx, hres⟩ := map_eq_ok he
  exact ⟨ls, e, x, henclosable, hx, hres⟩

theorem exists_trees (hresult : ∀ e : Expr, e.result o = (e.evaluate A).map result)
    {texts : List String} {xs : List (α × Option String)}
    (h : List.Forall₂ (fun text x => evaluate o text = .ok (result x)) texts xs) :
    ∃ (args : List (List Lexeme × Expr)) (xs' : List (α × Option String)),
      List.Forall₂ (fun text a => Enclosable o.inputBase.radix text a.1 a.2) texts args ∧
      List.Forall₂ (fun e x => e.evaluate A = .ok x) (args.map Prod.snd) xs' ∧
      xs'.map result = xs.map result := by
  induction h with
  | nil => exact ⟨[], [], .nil, .nil, rfl⟩
  | cons hx _ ih =>
      obtain ⟨args, xs', hargs, hxs', hresults⟩ := ih
      obtain ⟨ls, e, x', henclosable, hx', hxx'⟩ := exists_tree hresult hx
      refine ⟨(ls, e) :: args, x' :: xs', .cons henclosable hargs, .cons hx' hxs', ?_⟩
      rw [List.map_cons, List.map_cons, hxx', hresults]

theorem composes_of_faithful (hresult : ∀ e : Expr, e.result o = (e.evaluate A).map result)
    (hA : Faithful A result) : Composes o A result := by
  refine ⟨?value, ?group, ?binary, ?unary, ?call⟩
  case value =>
    intro text res h
    obtain ⟨ls, e, x, -, -, hx⟩ := exists_tree hresult h
    exact ⟨x, hx.symm⟩
  case group =>
    intro text res h
    obtain ⟨ls, e, henclosable, he⟩ := exists_enclosable h
    rw [henclosable.group.evaluate (by simp), he]
    rfl
  case binary =>
    intro op left right x y hleft hright
    obtain ⟨ls, l, x', hl, hx', hxx'⟩ := exists_tree hresult hleft
    obtain ⟨rs, r, y', hr, hy', hyy'⟩ := exists_tree hresult hright
    rw [hl.group.evaluate_binary op hr.group (by simp), hresult, Expr.evaluate_binary op hx' hy',
      hA.binary op hxx' hyy']
  case unary =>
    intro op text x h
    obtain ⟨ls, e, x', henclosable, hx', hxx'⟩ := exists_tree hresult h
    rw [henclosable.group.evaluate_unary op (by simp), hresult, Expr.evaluate_unary op hx',
      hA.unary op hxx']
  case call =>
    intro f texts xs hf hne h
    obtain ⟨args, xs', hargs, hxs', hresults⟩ := exists_trees hresult h
    rw [(operand_call hf hargs hne).evaluate (by simp), hresult, Expr.evaluate_call _ hxs',
      hA.call _ hresults]

end

theorem faithful_floats : Faithful Arithmetic.floats fun x => .float x.1 x.2 := by
  have hinjective :
      Function.Injective fun x : Binary64 × Option String => Result.float x.1 x.2 := by
    rintro ⟨a, m⟩ ⟨b, n⟩ h
    cases h
    rfl
  refine ⟨?_, ?_, ?_⟩
  · intro op x x' y y' hx hy
    rw [hinjective hx, hinjective hy]
  · intro op x x' hx
    rw [hinjective hx]
  · intro f xs xs' h
    rw [List.map_injective_iff.mpr hinjective h]

/-- The result of a word does not show the remark. -/
theorem word_of_bind {γ : Type} (o : Options) (x : Except EvalError γ)
    (f : γ → Except EvalError Int) (m n : Option String) :
    ((do return (← f (← x), m) : Except EvalError (Int × Option String)).map
      fun y => Result.word y.1 o) =
    (do return (← f (← x), n) : Except EvalError (Int × Option String)).map
      fun y => Result.word y.1 o := by
  cases x with
  | error err => rfl
  | ok g =>
      show (f g >>= fun a => pure (a, m)).map _ = (f g >>= fun a => pure (a, n)).map _
      cases f g <;> rfl

theorem faithful_words (o : Options) :
    Faithful (Arithmetic.words o.wordFormat) fun x => .word x.1 o := by
  have hword : Function.Injective fun a => Result.word a o := fun _ _ h => (Result.word.inj h).1
  refine ⟨?_, ?_, ?_⟩
  · intro op x x' y y' hx hy
    rw [Arithmetic.applyBinary, Arithmetic.applyBinary, hword hx, hword hy]
    exact word_of_bind o _ _ _ _
  · intro op x x' hx
    rw [Arithmetic.applyUnary, Arithmetic.applyUnary, hword hx]
    exact word_of_bind o _ _ _ _
  · intro f xs xs' h
    have hvalues : xs.map Prod.fst = xs'.map Prod.fst := by
      refine List.map_injective_iff.mpr hword ?_
      rw [List.map_map, List.map_map]
      exact h
    have hlength : xs.length = xs'.length := by simpa using congrArg List.length h
    rw [Arithmetic.applyCall, Arithmetic.applyCall, hvalues, hlength]
    exact word_of_bind o _ _ _ _

/-- What texts made of texts evaluate to depends on the values of their parts alone. -/
theorem evaluate_compositional (o : Options) :
    match o.mode with
    | .float => Composes o Arithmetic.floats fun x => .float x.1 x.2
    | .integer => Composes o (Arithmetic.words o.wordFormat) fun x => .word x.1 o := by
  cases ho : o.mode with
  | float =>
      refine composes_of_faithful (fun e => ?_) faithful_floats
      rw [Expr.result, ho]
  | integer =>
      refine composes_of_faithful (fun e => ?_) (faithful_words o)
      rw [Expr.result, ho]

/-- A text that is no phrase of the grammar is an operand like any other. -/
theorem evaluate_compositional_ungrammatical :
    evaluate { mode := .integer } "(2 ~) << (3)" =
      .ok (.word 18446744073709551592 { mode := .integer }) ∧
    evaluate { mode := .integer } "Foo(2 ~, 3)" =
      .error (.evaluation (.unknownFunction "foo")) := by
  have hcomposes := evaluate_compositional { mode := .integer }
  have hleft : evaluate { mode := .integer } "2 ~" =
      .ok (.word 18446744073709551613 { mode := .integer }) :=
    eq_ok_of_toOption (by decide +kernel)
  have hright : evaluate { mode := .integer } "3" = .ok (.word 3 { mode := .integer }) :=
    eq_ok_of_toOption (by decide +kernel)
  constructor
  · have hshift := hcomposes.binary .shiftLeft (x := (18446744073709551613, none))
      (y := (3, none)) hleft hright
    exact hshift
  · have hcall := @hcomposes.call "Foo" ["2 ~", "3"] [(18446744073709551613, none), (3, none)]
      (by decide) (by simp) (.cons hleft (.cons hright .nil))
    have hname : "Foo".toLower = "foo" := by decide +kernel
    rw [hname] at hcall
    exact hcall

end Reckon
