import Reckon.Proofs.Keeping
import Reckon.Proofs.Token.Reading
import Reckon.Proofs.Token.Shape

/-!
# What is known of a token

`Lexed` lists all that a single reading can find, and on what conditions. Two things follow that the
later stages rely on without a check of their own: the text of every numeral is one that the
arithmetics can read (`Numeral.Readable`), and a parenthesis comes directly after every call head
(`Called`).
-/

namespace Reckon

/-- Whether the lexeme is spelled with letters: a name, a call head or the operator `xor`. -/
def Lexeme.isWord : Lexeme → Bool
  | name _ | callHead _ | operator (.binary .bitXor) => true
  | _ => false

/-- A parenthesis comes directly after every call head. -/
def Called : List Lexeme → Prop
  | [] => True
  | .callHead _ :: ls => ls.head? = some .leftParen ∧ Called ls
  | _ :: ls => Called ls

theorem Called.tail {l : Lexeme} {ls : List Lexeme} (h : Called (l :: ls)) : Called ls := by
  cases l with
  | callHead f => exact h.2
  | _ => exact h

theorem Called.of_append {ls rs : List Lexeme} (h : Called (ls ++ rs)) : Called rs := by
  induction ls with
  | nil => exact h
  | cons l ls ih => exact ih h.tail

namespace Scan

variable {radix : Radix} {due due' : Bool} {g : Glyph} {gs rest : List Glyph} {l : Lexeme}

/-- From `g` and the glyphs after it the lexeme is read, and the last glyphs are left. -/
inductive Lexed (radix : Radix) (due : Bool) (g : Glyph) (gs : List Glyph) :
    Lexeme → List Glyph → Prop
  | leftParen : g.char = '(' → Lexed radix due g gs .leftParen gs
  | rightParen : g.char = ')' → Lexed radix due g gs .rightParen gs
  | comma : g.char = ',' → Lexed radix due g gs .comma gs
  | symbol {op : Operator} {rest : List Glyph} :
      operator? due g.char gs = some (op, rest) → Lexed radix due g gs (.operator op) rest
  | xor : isWordChar g.char = true → Radix.dec.isDigit g.char = false →
      wordText g.char gs = "xor" → ¬ (opensParen (afterWord gs) = true ∧ due = true) →
      Lexed radix due g gs (.operator (.binary .bitXor)) (afterWord gs)
  | callHead : isWordChar g.char = true → Radix.dec.isDigit g.char = false →
      opensParen (afterWord gs) = true → (wordText g.char gs = "xor" → due = true) →
      Lexed radix due g gs (.callHead (wordText g.char gs)) (afterWord gs)
  | name : isWordChar g.char = true → Radix.dec.isDigit g.char = false →
      opensParen (afterWord gs) = false → wordText g.char gs ≠ "xor" →
      Lexed radix due g gs (.name (wordText g.char gs)) (afterWord gs)
  | marked {r : Radix} :
      announcedRadix? g.char gs = some r → runDigits r gs.tail ≠ [] →
      Lexed radix due g gs
        (.number { text := String.ofList (runDigits r gs.tail), radix := r, marked := true })
        (afterRun r gs.tail)
  | bare {body : List Char} {rest : List Glyph} {fractional : Bool} :
      announcedRadix? g.char gs = none → startsNumeral g.char gs = true →
      decimalBody g.char gs = (body, rest) → (Decimal.ofText? body).isSome →
      fractional = (!body.all Radix.dec.isDigit) →
      Lexed radix due g gs
        (.number { text := String.ofList body, radix := if fractional then .dec else radix,
                   fractional }) rest

theorem lexed_of_delimiter? (h : delimiter? g.char = some l) : Lexed radix due g gs l gs := by
  unfold delimiter? at h
  split at h
  · next hc =>
      cases h
      exact .leftParen hc
  · next hc =>
      cases h
      exact .rightParen hc
  · next hc =>
      cases h
      exact .comma hc
  · cases h

theorem lexed_word (hword : isWordChar g.char = true) (hdigit : Radix.dec.isDigit g.char = false) :
    Lexed radix due g gs (word due g.char gs) (afterWord gs) := by
  unfold word
  dsimp only
  split
  · next hxor =>
      rw [Bool.and_eq_true, beq_iff_eq, Bool.not_eq_true', Bool.and_eq_false_iff] at hxor
      refine .xor hword hdigit hxor.1 fun hcalled => ?_
      simp [hcalled] at hxor
  · next hxor =>
      rw [Bool.and_eq_true, beq_iff_eq, Bool.not_eq_true', not_and, Bool.not_eq_false,
        Bool.and_eq_true] at hxor
      split
      · next hopens => exact .callHead hword hdigit hopens fun htext => (hxor htext).2
      · next hopens =>
          have hopens : opensParen (afterWord gs) = false := by simpa using hopens
          refine .name hword hdigit hopens fun htext => ?_
          rw [(hxor htext).1] at hopens
          cases hopens

theorem lexed_numeral (hstarts : startsNumeral g.char gs = true)
    (h : numeral radix g.position g.char gs = .ok (l, rest)) : Lexed radix due g gs l rest := by
  unfold numeral at h
  split at h
  · next hannounced =>
      unfold markedNumeral at h
      dsimp only at h
      split at h
      · cases h
      · next hne =>
          cases h
          exact .marked hannounced (by simpa using hne)
  · next hannounced =>
      unfold bareNumeral at h
      dsimp only at h
      split at h
      · cases h
      · next hsome =>
          cases h
          refine .bare hannounced hstarts rfl ?_ rfl
          rw [← Option.not_isNone, Bool.eq_false_iff.mpr hsome]
          rfl

theorem lexed_of_lexeme (h : lexeme radix due g gs = .ok (l, rest)) :
    Lexed radix due g gs l rest := by
  unfold lexeme at h
  split at h
  · next hdelimiter =>
      cases h
      exact lexed_of_delimiter? hdelimiter
  · next hoperator =>
      cases h
      exact .symbol hoperator
  · split at h
    · next hword =>
        cases h
        rw [Bool.and_eq_true, Bool.not_eq_true'] at hword
        exact lexed_word hword.1 hword.2
    · split at h
      · next hstarts => exact lexed_numeral hstarts h
      · cases h

theorem operator?_ne_xor {c : Char} {op : Operator} (h : operator? due c gs = some (op, rest)) :
    op ≠ .binary .bitXor := by
  rintro rfl
  unfold operator? at h
  split at h
  · next pair hpair =>
      cases h
      cases gs with
      | nil => cases hpair
      | cons g gs =>
          have hpair : pairedOperator? c g.char = some .bitXor := hpair
          unfold pairedOperator? at hpair
          split at hpair <;> cases hpair
  · rw [Option.map_eq_some_iff] at h
    obtain ⟨op, hop, h⟩ := h
    cases h
    unfold singleOperator? at hop
    cases due <;> (split at hop <;> cases hop)

theorem Lexed.of_isWord (h : Lexed radix due g gs l rest) (hword : l.isWord = true) :
    isWordChar g.char = true ∧ l.text = wordText g.char gs ∧ rest = afterWord gs := by
  cases h with
  | @symbol op _ hop =>
      rcases op with op | op
      · cases op with
        | bitXor => exact absurd rfl (operator?_ne_xor hop)
        | _ => cases hword
      · cases hword
  | xor hg _ htext _ => exact ⟨hg, htext.symm, rfl⟩
  | callHead hg _ _ _ => exact ⟨hg, rfl, rfl⟩
  | name hg _ _ _ => exact ⟨hg, rfl, rfl⟩
  | _ => cases hword

/-! ## Numerals

The scanner has shown the body of a numeral to the arithmetic of decimals, and yet this is not how
its value is found in the end. There the text is read once more, as something that a person may have
written, with blanks around it, underscores and a sign. Both readings agree since there is nothing
of the kind in a body: all its characters are plain ones, and the first is a digit or a point. -/

/-- The characters of a decimal numeral. -/
def isDecimalChar (c : Char) : Bool :=
  Radix.dec.isDigit c || c == '.' || c == 'e' || c == 'E' || c == '+' || c == '-'

theorem isPlain_of_isDecimalChar {c : Char} (h : isDecimalChar c = true) :
    Text.isPlain c = true := by
  simp only [isDecimalChar, Bool.or_eq_true, beq_iff_eq] at h
  rcases h with ((((h | rfl) | rfl) | rfl) | rfl) | rfl
  · have hne : c ≠ '_' := by
      rintro rfl
      exact absurd h (by decide)
    have hlt := toNat_lt_of_isWordChar (Radix.isWordChar_of_isDigit h)
    simp [Text.isPlain, hlt, hne, Radix.isBlank_of_isDigit h]
  all_goals decide

theorem isDecimalChar_of_isDigit {c : Char} (h : Radix.dec.isDigit c = true) :
    isDecimalChar c = true := by
  simp [isDecimalChar, h]

theorem isDecimalChar_of_mem_mantissa {p : Bool} {m : List Char} (h : Mantissa p m) :
    ∀ c ∈ m, isDecimalChar c = true := by
  have hdot : isDecimalChar '.' = true := by decide
  cases h with
  | whole hds => exact fun c hc => isDecimalChar_of_isDigit (hds.2 c hc)
  | mixed hds hes =>
      refine List.forall_mem_append.mpr
        ⟨fun c hc => ?_, List.forall_mem_cons.mpr ⟨hdot, fun c hc => ?_⟩⟩
      · exact isDecimalChar_of_isDigit (hds.2 c hc)
      · exact isDecimalChar_of_isDigit (hes c hc)
  | leading hes =>
      exact List.forall_mem_cons.mpr ⟨hdot, fun c hc => isDecimalChar_of_isDigit (hes.2 c hc)⟩

theorem isDecimalChar_of_mem_exponentHead {cs : List Char} (h : IsExponentHead cs) :
    ∀ c ∈ cs, isDecimalChar c = true := by
  refine List.all_eq_true.mp ?_
  obtain ⟨e, s, rfl | rfl, rfl | rfl | rfl, rfl⟩ := h <;> decide

/-- The characters of a numeral without a mark. -/
theorem isDecimalChar_of_mem_body {body : List Char} (hstarts : startsNumeral g.char gs = true)
    (hbody : decimalBody g.char gs = (body, rest)) : ∀ c ∈ body, isDecimalChar c = true := by
  obtain ⟨p, m, mid, hm, hshape⟩ := decimalBody_shape hstarts
  rw [hbody] at hshape
  subst hshape
  refine List.forall_mem_append.mpr ⟨isDecimalChar_of_mem_mantissa hm, ?_⟩
  rcases exponent_shape mid with hexponent | ⟨head, ds, hexponent, hhead, hds⟩
  · simp [hexponent]
  · rw [hexponent]
    exact List.forall_mem_append.mpr
      ⟨isDecimalChar_of_mem_exponentHead hhead, fun c hc => isDecimalChar_of_isDigit (hds c hc)⟩

end Scan

/-- What a person has written is read as a decimal if it is a plain one already. -/
theorem Binary64.ofWritten?_of_ofText? {cs : List Char} {d : Decimal}
    (hplain : ∀ c ∈ cs, Text.isPlain c = true) (hdecimal : Decimal.ofText? cs = some d)
    (hsign : ∀ c ∈ cs.head?, c ≠ '-' ∧ c ≠ '+') : ofWritten? cs = some (ofDecimal d) := by
  have hunsigned : unsigned? cs = some (ofDecimal d) := by simp [unsigned?, ofText?, hdecimal]
  rw [ofWritten?, Text.plain?_eq_self hplain, Option.bind_some]
  match cs with
  | [] => exact hunsigned
  | c :: cs =>
      obtain ⟨hminus, hplus⟩ := hsign c rfl
      unfold signed?
      split
      · next heq => exact absurd (List.cons.inj heq).1 hminus
      · next heq => exact absurd (List.cons.inj heq).1 hplus
      · exact hunsigned

namespace Scan

variable {radix : Radix} {due due' : Bool} {g : Glyph} {gs rest : List Glyph} {l : Lexeme}

theorem Lexed.readable {n : Numeral} (h : Lexed radix due g gs (.number n) rest) : n.Readable := by
  cases h with
  | @marked r _ hne =>
      refine ⟨by simpa using hne, fun hdecimal => ?_⟩
      exact absurd hdecimal (by simp [Arithmetic.readAsDecimal])
  | @bare body rest fractional _ hstarts hbody hdecimal _ =>
      have hhead : body.head? = some g.char := by
        rw [show body = (decimalBody g.char gs).1 from (congrArg Prod.fst hbody).symm]
        rfl
      have hfirst := startsNumeral_eq_true hstarts
      refine ⟨?_, fun _ => ?_⟩
      · cases body with
        | nil => cases hhead
        | cons c cs => simp
      · obtain ⟨d, hd⟩ := Option.isSome_iff_exists.mp hdecimal
        have hwritten : Binary64.ofWritten? body = some _ :=
          Binary64.ofWritten?_of_ofText? (fun c hc => ?_) hd (fun c hc => ?_)
        · rw [String.toList_ofList, hwritten]
          rfl
        · exact isPlain_of_isDecimalChar (isDecimalChar_of_mem_body hstarts hbody c hc)
        · rw [hhead] at hc
          cases hc
          rcases hfirst with h | ⟨h, -⟩
          · constructor <;> (intro heq; rw [heq] at h; exact absurd h (by decide))
          · rw [h]
            decide

theorem Reads.readable {ts : List Token} (h : Reads radix due gs ts due' rest) :
    ∀ n, .number n ∈ ts.map Token.lexeme → n.Readable := by
  induction h with
  | done =>
      intro n hn
      cases hn
  | token hl _ ih =>
      intro n hn
      rcases List.mem_cons.mp hn with hn | hn
      · subst hn
        exact (lexed_of_lexeme hl).readable
      · exact ih n hn

/-- A parenthesis is seen ahead exactly if it is read next. -/
theorem Reads.opensParen_eq {ts : List Token} (h : Reads radix due gs ts due' []) :
    opensParen gs = ts.head?.any (·.lexeme == .leftParen) := by
  cases h with
  | done => rfl
  | @token _ _ g gs _ _ l _ hl _ =>
      show (g.char == '(') = (l == .leftParen)
      rw [Bool.eq_iff_iff, beq_iff_eq, beq_iff_eq]
      constructor
      · intro hg
        have hparen : lexeme radix due g gs = .ok (.leftParen, gs) := by
          rw [lexeme, hg]
          rfl
        rw [hparen] at hl
        cases hl
        rfl
      · rintro rfl
        cases lexed_of_lexeme hl with
        | leftParen hg => exact hg

theorem Reads.called {ts : List Token} (h : Reads radix due gs ts due' []) :
    Called (ts.map Token.lexeme) := by
  generalize hrest : ([] : List Glyph) = rest at h
  induction h with
  | done => trivial
  | @token due due' g gs mid rest l ts hl hreads ih =>
      subst hrest
      cases l with
      | callHead f =>
          cases lexed_of_lexeme hl with
          | callHead _ _ hopens _ =>
              rw [hreads.opensParen_eq, Option.any_eq_true] at hopens
              obtain ⟨t, ht, hparen⟩ := hopens
              exact ⟨by rw [List.head?_map, ht, Option.map_some, beq_iff_eq.mp hparen], ih rfl⟩
      | _ => exact ih rfl

end Scan

/-- What the later stages rely on of the tokens of a text. -/
theorem readable_and_called {radix : Radix} {text : String} {tokens : List Token}
    (h : tokenize radix text = .ok tokens) :
    (∀ n, .number n ∈ tokens.map Token.lexeme → n.Readable) ∧
      Called (tokens.map Token.lexeme) := by
  obtain ⟨due, hreads⟩ := Scan.exists_reads h
  exact ⟨hreads.readable, hreads.called⟩

end Reckon
