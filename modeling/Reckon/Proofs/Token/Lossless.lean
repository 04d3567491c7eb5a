import Reckon.Proofs.Token.Lexed
import Reckon.Proofs.Token.Place

/-!
# Nothing is lost in scanning

A reader takes glyphs from the front of a row and leaves the others as they are, so what a scan says
of a text can be held against the text itself. The tokens of a text, written one after the other,
are the text: save for its blanks, for underscores, which are dropped from numerals but kept in
names, and for capitals, which are made small in names and marks but kept in digits.

The numeral is the only lexeme whose characters are gathered piecemeal, and `Takes` is what its
pieces have in common. For the rest the glyphs that a single reading takes can be named outright
(`Lexed.taken`), and the run over all tokens puts them together again (`Reads.taken`).
-/

namespace Reckon

/-- What an operator is written as: its symbol, for a sign without the letter that marks it. -/
def Operator.written : Operator → List Char
  | binary op => op.symbol.toList
  | unary op => [op.spelling]

/-- What a lexeme is written as, but for capitals and underscores. -/
def Lexeme.written : Lexeme → List Char
  | operator op => op.written
  | l => l.label.toList

theorem Lexeme.written_marked (r : Radix) (ds : List Char) :
    (number { text := String.ofList ds, radix := r, marked := true }).written =
      r.mark.toList ++ ds := by
  show (r.mark ++ String.ofList ds).toList = _
  rw [String.toList_append, String.toList_ofList]

theorem Lexeme.written_bare (r : Radix) (fractional : Bool) (cs : List Char) :
    (number { text := String.ofList cs, radix := r, fractional }).written = cs :=
  String.toList_ofList

namespace Scan

variable {radix : Radix} {due due' : Bool} {g : Glyph} {gs mid rest : List Glyph} {l : Lexeme}

/-- The glyphs before `rest` are the characters `cs`, with underscores between them. -/
def Takes (gs : List Glyph) (cs : List Char) (rest : List Glyph) : Prop :=
  ∃ used, gs = used ++ rest ∧ (used.map Glyph.char).filter (· != '_') = cs

theorem Takes.refl (gs : List Glyph) : Takes gs [] gs :=
  ⟨[], rfl, rfl⟩

theorem Takes.trans {cs ds : List Char} (h : Takes gs cs mid) (h' : Takes mid ds rest) :
    Takes gs (cs ++ ds) rest := by
  obtain ⟨used, rfl, rfl⟩ := h
  obtain ⟨used', rfl, rfl⟩ := h'
  exact ⟨used ++ used', by simp, by simp⟩

theorem Takes.single {c : Char} (hc : g.char = c) (hne : c ≠ '_') : Takes (g :: gs) [c] gs :=
  ⟨[g], rfl, by simp [hc, hne]⟩

theorem takes_run (r : Radix) (gs : List Glyph) : Takes gs (runDigits r gs) (afterRun r gs) :=
  ⟨gs.takeWhile (inRun r), List.takeWhile_append_dropWhile.symm, rfl⟩

theorem takes_fraction (gs : List Glyph) : Takes gs (fraction gs).1 (fraction gs).2 := by
  unfold fraction
  split
  · split
    · next hdot => exact (Takes.single (beq_iff_eq.mp hdot) (by decide)).trans (takes_run _ _)
    · exact .refl _
  · exact .refl _

theorem takes_sign (gs : List Glyph) : Takes gs (sign gs).1 (sign gs).2 := by
  unfold sign
  split
  · split
    · next hsign =>
        refine .single rfl ?_
        rintro hunderscore
        rw [hunderscore] at hsign
        exact absurd hsign (by decide)
    · exact .refl _
  · exact .refl _

theorem takes_exponent (gs : List Glyph) : Takes gs (exponent gs).1 (exponent gs).2 := by
  unfold exponent
  split
  · next g gs =>
      split
      · next hmark =>
          have hne : g.char ≠ '_' := by
            intro hunderscore
            rw [hunderscore] at hmark
            exact absurd hmark (by decide)
          exact ((Takes.single rfl hne).trans (takes_sign gs)).trans (takes_run _ _)
      · exact .refl _
  · exact .refl _

/-- The body of a decimal numeral is its first character, and what is taken after it. -/
theorem takes_decimalBody (c : Char) (gs : List Glyph) :
    ∃ cs, (decimalBody c gs).1 = c :: cs ∧ Takes gs cs (decimalBody c gs).2 := by
  unfold decimalBody
  dsimp only
  split
  · exact ⟨_, rfl, (takes_run _ _).trans (takes_exponent _)⟩
  · refine ⟨_, ?_, ((takes_run _ _).trans (takes_fraction _)).trans (takes_exponent _)⟩
    simp

theorem pairedOperator?_symbol {c d : Char} {op : BinaryOp} (h : pairedOperator? c d = some op) :
    op.symbol.toList = [c, d] := by
  unfold pairedOperator? at h
  split at h <;> cases h <;> decide

theorem singleOperator?_written {c : Char} {op : Operator}
    (h : singleOperator? due c = some op) : op.written = [c] := by
  unfold singleOperator? at h
  cases due <;> (split at h <;> cases h <;> decide)

theorem operator?_written {c : Char} {op : Operator}
    (h : operator? due c gs = some (op, rest)) :
    ∃ used, gs = used ++ rest ∧ op.written = c :: used.map Glyph.char := by
  unfold operator? at h
  split at h
  · next pair hpair =>
      cases h
      cases gs with
      | nil => cases hpair
      | cons g gs => exact ⟨[g], rfl, pairedOperator?_symbol hpair⟩
  · rw [Option.map_eq_some_iff] at h
    obtain ⟨op, hop, h⟩ := h
    cases h
    exact ⟨[], rfl, singleOperator?_written hop⟩

/-- A mark is a zero and the letter that was read. -/
theorem mark_of_ofMarkLetter? {c : Char} {r : Radix} (h : Radix.ofMarkLetter? c = some r) :
    r.mark.toList = ['0', c.toLower] := by
  unfold Radix.ofMarkLetter? at h
  split at h
  all_goals cases h
  all_goals
    next hc => rw [hc]; decide

theorem ofMarkLetter?_of_mark {c : Char} {r : Radix} (h : r.mark.toList = ['0', c.toLower]) :
    Radix.ofMarkLetter? c = some r := by
  unfold Radix.ofMarkLetter?
  cases r with
  | dec => cases h
  | bin =>
      have hc : 'b' = c.toLower := (List.cons.inj (List.cons.inj h).2).1
      rw [← hc]
      rfl
  | oct =>
      have hc : 'o' = c.toLower := (List.cons.inj (List.cons.inj h).2).1
      rw [← hc]
      rfl
  | hex =>
      have hc : 'x' = c.toLower := (List.cons.inj (List.cons.inj h).2).1
      rw [← hc]
      rfl

theorem announcedRadix?_eq_some {c : Char} {r : Radix} (h : announcedRadix? c gs = some r) :
    c = '0' ∧ ∃ m gs', gs = m :: gs' ∧ Radix.ofMarkLetter? m.char = some r := by
  unfold announcedRadix? at h
  split at h
  · next hzero =>
      cases gs with
      | nil => cases h
      | cons m gs => exact ⟨beq_iff_eq.mp hzero, m, gs, rfl, h⟩
  · cases h

/-- The glyphs that a reading takes are what the lexeme is written as. -/
theorem Lexed.taken (h : Lexed radix due g gs l rest) :
    ∃ used, gs = used ++ rest ∧ Text.plain ((g :: used).map Glyph.char) = Text.plain l.written := by
  have hword : Text.plain ((g :: gs.takeWhile continuesWord).map Glyph.char) =
      Text.plain (wordText g.char gs).toList := by
    rw [wordText, String.toList_ofList, Text.plain_map_toLower]
    rfl
  cases h with
  | leftParen hc | rightParen hc | comma hc =>
      refine ⟨[], rfl, ?_⟩
      rw [List.map_singleton, hc]
      rfl
  | symbol hop =>
      obtain ⟨used, hused, hwritten⟩ := operator?_written hop
      exact ⟨used, hused, by rw [Lexeme.written, hwritten]; rfl⟩
  | xor _ _ htext _ =>
      refine ⟨_, List.takeWhile_append_dropWhile.symm, ?_⟩
      rw [hword, htext]
      rfl
  | callHead _ _ _ _ => exact ⟨_, List.takeWhile_append_dropWhile.symm, hword⟩
  | name _ _ _ _ => exact ⟨_, List.takeWhile_append_dropWhile.symm, hword⟩
  | @marked r hannounced _ =>
      obtain ⟨hzero, m, gs, rfl, hm⟩ := announcedRadix?_eq_some hannounced
      obtain ⟨used, hused, hdigits⟩ := takes_run r gs
      refine ⟨m :: used, congrArg (m :: ·) hused, ?_⟩
      have hmark : Text.plain [g.char, m.char] = Text.plain r.mark.toList := by
        rw [mark_of_ofMarkLetter? hm, hzero, ← Text.plain_map_toLower]
        rfl
      calc Text.plain ((g :: m :: used).map Glyph.char)
          = Text.plain [g.char, m.char] ++ Text.plain (used.map Glyph.char) :=
            Text.plain_append [g.char, m.char] _
        _ = Text.plain r.mark.toList ++ Text.plain (runDigits r gs) := by
            rw [hmark, ← hdigits, Text.plain_filter]
        _ = Text.plain (Lexeme.written _) := by
            rw [Lexeme.written_marked, Text.plain_append, List.tail_cons]
  | @bare body _ _ _ _ hbody _ _ =>
      obtain ⟨cs, hcs, used, hused, hplain⟩ := takes_decimalBody g.char gs
      rw [hbody] at hused
      have hcs : body = g.char :: cs := by rw [← hcs, hbody]
      refine ⟨used, hused, ?_⟩
      calc Text.plain ((g :: used).map Glyph.char)
          = Text.plain [g.char] ++ Text.plain (used.map Glyph.char) := Text.plain_append [g.char] _
        _ = Text.plain [g.char] ++ Text.plain cs := by rw [← hplain, Text.plain_filter]
        _ = Text.plain (Lexeme.written _) := by
            rw [← Text.plain_append, Lexeme.written_bare, hcs, List.singleton_append]

/-- Nothing but ASCII is read. -/
theorem Lexed.ascii (h : Lexed radix due g gs l rest) : ∀ c ∈ l.written, c.toNat < 0x80 := by
  have hword (hg : isWordChar g.char = true) :
      ∀ c ∈ (wordText g.char gs).toList, c.toNat < 0x80 := by
    intro c hc
    rw [wordText, String.toList_ofList] at hc
    obtain ⟨d, hd, rfl⟩ := List.mem_map.mp hc
    refine Text.toNat_toLower_lt.mpr ?_
    rcases List.mem_cons.mp hd with rfl | hd
    · exact toNat_lt_of_isWordChar hg
    · obtain ⟨g', hg', rfl⟩ := List.mem_map.mp hd
      have hcontinues : continuesWord g' = true := List.mem_takeWhile_imp hg'
      rw [continuesWord, Bool.and_eq_true] at hcontinues
      exact toNat_lt_of_isWordChar hcontinues.1
  have hsymbol {cs : List Char} (hcs : (cs.all fun c => c.toNat < 0x80) = true) :
      ∀ c ∈ cs, c.toNat < 0x80 := by
    simpa using hcs
  cases h with
  | leftParen | rightParen | comma => exact hsymbol (by decide)
  | @symbol op _ hop => rcases op with op | op <;> cases op <;> exact hsymbol (by decide)
  | xor => exact hsymbol (by decide)
  | callHead hg _ _ _ => exact hword hg
  | name hg _ _ _ => exact hword hg
  | @marked r _ _ =>
      intro c hc
      rw [Lexeme.written_marked, List.mem_append] at hc
      rcases hc with hc | hc
      · have hmark : (r.mark.toList.all fun c => c.toNat < 0x80) = true := by cases r <;> decide
        exact hsymbol hmark c hc
      · exact toNat_lt_of_isWordChar (Radix.isWordChar_of_isDigit (isDigit_of_mem_runDigits hc))
  | @bare body _ _ _ hstarts hbody _ _ =>
      intro c hc
      rw [Lexeme.written_bare] at hc
      have hplain := isPlain_of_isDecimalChar (isDecimalChar_of_mem_body hstarts hbody c hc)
      rw [Text.isPlain, Bool.and_eq_true, Bool.and_eq_true, decide_eq_true_eq] at hplain
      exact hplain.1.1

/-! ## Whole scans

The readers know the small letters of ASCII, and what is proved of them so far is about these. In
Unicode a small letter may be more than one character, and may depend on what stands before it. But
the tokens are all ASCII (`Reads.ascii`), and so are the visible characters of a text that has
tokens, as their small letters are those of the tokens. -/

theorem Reads.ascii {ts : List Token} (h : Reads radix due gs ts due' rest) :
    ∀ t ∈ ts, ∀ c ∈ t.lexeme.written, c.toNat < 0x80 := by
  induction h with
  | done =>
      intro t ht
      cases ht
  | token hl _ ih => exact List.forall_mem_cons.mpr ⟨(lexed_of_lexeme hl).ascii, ih⟩

theorem Reads.taken {ts : List Token} (h : Reads radix due gs ts due' rest) :
    ∃ used, gs = used ++ rest ∧
      Text.plain (used.map Glyph.char) = Text.plain (ts.flatMap (·.lexeme.written)) := by
  induction h with
  | done => exact ⟨[], rfl, rfl⟩
  | @token due due' g gs mid rest l ts hl _ ih =>
      obtain ⟨used, rfl, hused⟩ := (lexed_of_lexeme hl).taken
      obtain ⟨used', rfl, hused'⟩ := ih
      refine ⟨g :: (used ++ used'), by simp, ?_⟩
      rw [List.flatMap_cons, Text.plain_append, ← hused, ← hused', ← Text.plain_append,
        ← List.map_append]
      rfl

end Scan

/-- The tokens of a text, written one after the other, are the text: but for blanks, underscores
and capitals no character is added, left out or moved. -/
theorem tokenize_lossless {radix : Radix} {text : String} {tokens : List Token}
    (h : tokenize radix text = .ok tokens) :
    (Text.lowerCase (tokens.flatMap (·.lexeme.written))).filter (· != '_') =
      Text.lowerCase (text.toList.filter fun c => !Text.isBlank c && c != '_') := by
  obtain ⟨due, hreads⟩ := Scan.exists_reads h
  have hascii : ∀ c ∈ tokens.flatMap (·.lexeme.written), c.toNat < 0x80 := by
    intro c hc
    obtain ⟨t, ht, hc⟩ := List.mem_flatMap.mp hc
    exact hreads.ascii t ht c hc
  obtain ⟨used, hused, hplain⟩ := hreads.taken
  rw [List.append_nil, Glyph.ofText] at hused
  rw [← hused, Glyph.map_char_startingAt] at hplain
  have hvisible : (text.toList.filter fun c => !Text.isBlank c && c != '_').map Char.toLower =
      Text.plain (tokens.flatMap (·.lexeme.written)) := by
    rw [← hplain, Text.plain_eq_map_filter, List.filter_filter]
    simp only [Bool.and_comm]
  have hascii' : ∀ c ∈ text.toList.filter fun c => !Text.isBlank c && c != '_', c.toNat < 0x80 := by
    intro c hc
    have hmem := List.mem_map_of_mem (f := Char.toLower) hc
    rw [hvisible, Text.plain] at hmem
    obtain ⟨d, hd, hcd⟩ := List.mem_map.mp (List.mem_filter.mp hmem).1
    rw [← Text.toNat_toLower_lt, ← hcd, Text.toNat_toLower_lt]
    exact hascii d hd
  rw [Text.lowerCase_of_ascii hascii, Text.lowerCase_of_ascii hascii', hvisible]
  rfl

/-- A sign, a mark, a separator, capitals, and a blank inside of a numeral. -/
theorem tokenize_lossless_mixed :
    tokenize .bin "-0X_F*2 .5E3" =
      .ok [⟨.operator (.unary .minus), 1⟩,
        ⟨.number { text := "F", radix := .hex, marked := true }, 2⟩,
        ⟨.operator (.binary .mul), 6⟩, ⟨.number { text := "2.5E3", fractional := true }, 7⟩] ∧
    (Text.lowerCase "-0xF*2.5E3".toList).filter (· != '_') =
      Text.lowerCase ("-0X_F*2 .5E3".toList.filter fun c => !Text.isBlank c && c != '_') := by
  have htokens : tokenize .bin "-0X_F*2 .5E3" = .ok _ := eq_ok_of_toOption
    (show _ = some [⟨.operator (.unary .minus), 1⟩,
      ⟨.number { text := "F", radix := .hex, marked := true }, 2⟩, ⟨.operator (.binary .mul), 6⟩,
      ⟨.number { text := "2.5E3", fractional := true }, 7⟩] by decide +kernel)
  exact ⟨htokens, tokenize_lossless htokens⟩

end Reckon
