import Reckon.Calculator
import Reckon.Proofs.Outcome

/-!
# Changes of options, one after the other

A change builds all options anew, also those that it does not name. What was read before is given
back as the setting it was read as, and reading a setting gives the same setting
(`Options.ofGiven_given`). So only the values that a change names can be refused, and they are
refused or not whatever the other options are (`Options.change_eq_ok_iff`). The rest follows from
this: of several changes the last one that was accepted and names an option decides it, and two
changes that are accepted one after the other are one change.
-/

namespace Reckon

theorem Mode.read_mode (m : Mode) : read (.mode m) = .ok m := rfl

theorem InputBase.read_inputBase (b : InputBase) : read (.inputBase b) = .ok b := rfl

theorem DisplayBase.read_displayBase (b : DisplayBase) : read (.displayBase b) = .ok b := rfl

theorem checkWidth_integer (w : Width) : checkWidth (.integer w.val) = .ok w := by
  have hle : (1 : Int) ≤ w.val := Int.ofNat_le.mpr w.property
  show (if h : (1 : Int) ≤ w.val then Except.ok (⟨(w.val : Int).toNat, _⟩ : Width) else _) = _
  rw [dif_pos hle]
  exact congrArg Except.ok (Subtype.ext (Int.toNat_natCast w.val))

/-- Whether words are signed, read from any value. -/
def readSigned (v : Raw) : Except OptionError Bool :=
  .ok v.isTrue

theorem readSigned_truth (b : Bool) : readSigned (.truth b) = .ok b := rfl

section

variable {α : Type}

/-- The value of an option after raw values were given for it: that of the last one, or the old
value if there is none. -/
def latest (read : Raw → Except OptionError α) (old : α) (vs : List Raw) : α :=
  (vs.getLast?.bind fun v => (read v).toOption).getD old

/-- Whether every one of the values can be read. -/
def readable (read : Raw → Except OptionError α) (vs : List Raw) : Bool :=
  vs.all fun v => (read v).isOk

theorem readable_readSigned (vs : List Raw) : readable readSigned vs = true :=
  List.all_eq_true.mpr fun _ _ => rfl

variable {read : Raw → Except OptionError α} {old : α}

/-- Values given later count more. -/
theorem latest_append (vs : List Raw) {ws : List Raw} (hws : readable read ws = true) :
    latest read old (vs ++ ws) = latest read (latest read old vs) ws := by
  rcases List.eq_nil_or_concat ws with rfl | ⟨ws, w, rfl⟩
  · rw [List.append_nil]
    rfl
  · have hw : (read w).isOk = true := List.all_eq_true.mp hws w (by simp)
    simp only [latest, List.concat_eq_append, ← List.append_assoc, List.getLast?_concat]
    cases hread : read w with
    | error e =>
        rw [hread] at hw
        cases hw
    | ok a => simp [hread, Except.toOption]

/-- An option that a change may name is read as the value that it names, or as it was. -/
theorem read_getD {setting : α → Raw} (hsetting : ∀ a, read (setting a) = .ok a)
    (raw : Option Raw) (a : α) :
    read (raw.getD (setting old)) = .ok a ↔
      readable read raw.toList = true ∧ a = latest read old raw.toList := by
  cases raw with
  | none =>
      show read (setting old) = .ok a ↔ true = true ∧ a = old
      rw [hsetting, Except.ok.injEq, eq_self, true_and]
      exact eq_comm
  | some v =>
      show read v = .ok a ↔ ((read v).isOk && true) = true ∧ a = (read v).toOption.getD old
      cases hread : read v with
      | error e => simp [Except.isOk, Except.toBool]
      | ok b => simp [Except.isOk, Except.toBool, Except.toOption, eq_comm]

end

namespace Changes

/-- Whether every value that a change names can be read. -/
def isReadable (c : Changes) : Bool :=
  readable InputBase.read c.inputBase.toList && readable DisplayBase.read c.displayBase.toList &&
    readable Mode.read c.mode.toList && readable checkWidth c.width.toList

/-- Both changes at once. Of an option that both name, the second one has the value. -/
def merge (c d : Changes) : Changes where
  inputBase := d.inputBase <|> c.inputBase
  displayBase := d.displayBase <|> c.displayBase
  mode := d.mode <|> c.mode
  width := d.width <|> c.width
  signed := d.signed <|> c.signed

end Changes

namespace Options

/-- Options with each field as the last of several changes that names it has it, and the others as
they are. -/
def after (o : Options) (cs : List Changes) : Options where
  inputBase := latest InputBase.read o.inputBase (cs.filterMap (·.inputBase))
  displayBase := latest DisplayBase.read o.displayBase (cs.filterMap (·.displayBase))
  mode := latest Mode.read o.mode (cs.filterMap (·.mode))
  width := latest checkWidth o.width (cs.filterMap (·.width))
  signed := latest readSigned o.signed (cs.filterMap (·.signed))

theorem after_singleton (o : Options) (c : Changes) : o.after [c] =
    { inputBase := latest InputBase.read o.inputBase c.inputBase.toList
      displayBase := latest DisplayBase.read o.displayBase c.displayBase.toList
      mode := latest Mode.read o.mode c.mode.toList
      width := latest checkWidth o.width c.width.toList
      signed := latest readSigned o.signed c.signed.toList } := by
  have hfield (field : Changes → Option Raw) : [c].filterMap field = (field c).toList := by
    cases h : field c <;> simp [h]
  simp only [after, hfield]

theorem ofGiven_eq_ok_iff {g : Given} {o : Options} :
    ofGiven g = .ok o ↔ InputBase.read g.inputBase = .ok o.inputBase ∧
      DisplayBase.read g.displayBase = .ok o.displayBase ∧ Mode.read g.mode = .ok o.mode ∧
      checkWidth g.width = .ok o.width ∧ readSigned g.signed = .ok o.signed := by
  constructor
  · intro h
    obtain ⟨inputBase, hinput, h⟩ := bind_eq_ok h
    obtain ⟨displayBase, hdisplay, h⟩ := bind_eq_ok h
    obtain ⟨mode, hmode, h⟩ := bind_eq_ok h
    obtain ⟨width, hwidth, h⟩ := bind_eq_ok h
    cases h
    exact ⟨hinput, hdisplay, hmode, hwidth, rfl⟩
  · rintro ⟨hinput, hdisplay, hmode, hwidth, hsigned⟩
    rw [ofGiven, hinput, hdisplay, hmode, hwidth]
    obtain ⟨inputBase, displayBase, mode, width, signed⟩ := o
    obtain rfl : g.signed.isTrue = signed := Except.ok.inj hsigned
    rfl

/-- Options that are built again from themselves are the same. -/
theorem ofGiven_given (o : Options) : ofGiven o.given = .ok o :=
  ofGiven_eq_ok_iff.mpr ⟨rfl, rfl, rfl, checkWidth_integer o.width, rfl⟩

/-- A change is accepted exactly if the values that it names can be read, and the other options play
no part in that. -/
theorem change_eq_ok_iff {o o' : Options} {c : Changes} :
    o.change c = .ok o' ↔ c.isReadable = true ∧ o' = o.after [c] := by
  obtain ⟨inputBase, displayBase, mode, width, signed⟩ := o'
  rw [change, ofGiven_eq_ok_iff]
  simp only [Given.override, given, after_singleton, Changes.isReadable, Bool.and_eq_true]
  rw [read_getD InputBase.read_inputBase, read_getD DisplayBase.read_displayBase,
    read_getD Mode.read_mode, read_getD checkWidth_integer, read_getD readSigned_truth]
  constructor
  · rintro ⟨⟨hinput, rfl⟩, ⟨hdisplay, rfl⟩, ⟨hmode, rfl⟩, ⟨hwidth, rfl⟩, -, rfl⟩
    exact ⟨⟨⟨⟨hinput, hdisplay⟩, hmode⟩, hwidth⟩, rfl⟩
  · rintro ⟨⟨⟨⟨hinput, hdisplay⟩, hmode⟩, hwidth⟩, heq⟩
    cases heq
    exact ⟨⟨hinput, rfl⟩, ⟨hdisplay, rfl⟩, ⟨hmode, rfl⟩, ⟨hwidth, rfl⟩,
      readable_readSigned c.signed.toList, rfl⟩

end Options

/-! ## Several changes

No option depends on another, so a row of changes is a row of raw values for each option, and what
is proved of such rows (`latest_append`, `latest_orElse`) carries over field by field. That the
later values can be read is a hypothesis throughout. Without it the laws fail: where the last value
cannot be read, `latest` falls back to the setting before the row and not to the value before. -/

section

variable {α : Type} {read : Raw → Except OptionError α} {old : α}

theorem readable_filterMap {field : Changes → Option Raw} {cs : List Changes}
    (h : ∀ c ∈ cs, readable read (field c).toList = true) :
    readable read (cs.filterMap field) = true := by
  refine List.all_eq_true.mpr fun v hv => ?_
  obtain ⟨c, hc, hfield⟩ := List.mem_filterMap.mp hv
  exact List.all_eq_true.mp (h c hc) v (by rw [hfield]; simp)

/-- A value that is given instead of another counts like one that is given after it. -/
theorem latest_orElse (raw raw' : Option Raw) (h : readable read raw'.toList = true) :
    latest read old (raw' <|> raw).toList =
      latest read (latest read old raw.toList) raw'.toList := by
  rw [← latest_append _ h]
  cases raw' with
  | none =>
      show latest read old raw.toList = latest read old (raw.toList ++ [])
      rw [List.append_nil]
  | some v =>
      show latest read old [v] = latest read old (raw.toList ++ [v])
      simp [latest]

theorem readable_orElse {raw raw' : Option Raw} (h : readable read raw.toList = true)
    (h' : readable read raw'.toList = true) : readable read (raw' <|> raw).toList = true := by
  cases raw' with
  | none => exact h
  | some v => exact h'

end

namespace Options

theorem readable_of_isReadable {cs : List Changes} (h : ∀ c ∈ cs, c.isReadable = true) :
    readable InputBase.read (cs.filterMap (·.inputBase)) = true ∧
      readable DisplayBase.read (cs.filterMap (·.displayBase)) = true ∧
      readable Mode.read (cs.filterMap (·.mode)) = true ∧
      readable checkWidth (cs.filterMap (·.width)) = true := by
  simp only [Changes.isReadable, Bool.and_eq_true] at h
  exact ⟨readable_filterMap fun c hc => (h c hc).1.1.1,
    readable_filterMap fun c hc => (h c hc).1.1.2,
    readable_filterMap fun c hc => (h c hc).1.2, readable_filterMap fun c hc => (h c hc).2⟩

/-- Changes that can be read have one effect after the other. -/
theorem after_append (o : Options) (cs : List Changes) {ds : List Changes}
    (h : ∀ d ∈ ds, d.isReadable = true) : o.after (cs ++ ds) = (o.after cs).after ds := by
  obtain ⟨hinput, hdisplay, hmode, hwidth⟩ := readable_of_isReadable h
  simp only [after, List.filterMap_append]
  rw [latest_append _ hinput, latest_append _ hdisplay, latest_append _ hmode,
    latest_append _ hwidth, latest_append _ (readable_readSigned _)]

theorem after_merge (o : Options) (c : Changes) {d : Changes} (h : d.isReadable = true) :
    o.after [c.merge d] = (o.after [c]).after [d] := by
  simp only [Changes.isReadable, Bool.and_eq_true] at h
  obtain ⟨⟨⟨hinput, hdisplay⟩, hmode⟩, hwidth⟩ := h
  simp only [after_singleton, Changes.merge]
  rw [latest_orElse _ _ hinput, latest_orElse _ _ hdisplay, latest_orElse _ _ hmode,
    latest_orElse _ _ hwidth, latest_orElse _ _ (readable_readSigned _)]

end Options

theorem Changes.isReadable_merge {c d : Changes} (hc : c.isReadable = true)
    (hd : d.isReadable = true) : (c.merge d).isReadable = true := by
  simp only [isReadable, Bool.and_eq_true] at hc hd ⊢
  obtain ⟨⟨⟨hinput, hdisplay⟩, hmode⟩, hwidth⟩ := hc
  obtain ⟨⟨⟨hinput', hdisplay'⟩, hmode'⟩, hwidth'⟩ := hd
  exact ⟨⟨⟨readable_orElse hinput hinput', readable_orElse hdisplay hdisplay'⟩,
    readable_orElse hmode hmode'⟩, readable_orElse hwidth hwidth'⟩

namespace Calculator

/-- The calculator that is in use after a change was tried. -/
def attempt (k : Calculator) (c : Changes) : Calculator :=
  match k.configure c with
  | .ok k' => k'
  | .error _ => k

theorem configure_eq_ok_iff {k k' : Calculator} {c : Changes} :
    k.configure c = .ok k' ↔ c.isReadable = true ∧ k' = ⟨k.options.after [c]⟩ := by
  constructor
  · intro h
    obtain ⟨o, ho, rfl⟩ := map_eq_ok h
    obtain ⟨hc, rfl⟩ := Options.change_eq_ok_iff.mp (mapError_eq_ok ho)
    exact ⟨hc, rfl⟩
  · rintro ⟨hc, rfl⟩
    rw [configure, Options.change_eq_ok_iff.mpr ⟨hc, rfl⟩]
    rfl

theorem attempt_of_isReadable (k : Calculator) {c : Changes} (h : c.isReadable = true) :
    k.attempt c = ⟨k.options.after [c]⟩ := by
  rw [attempt, configure_eq_ok_iff.mpr ⟨h, rfl⟩]

/-- A change that cannot be read changes nothing. -/
theorem attempt_of_not_isReadable (k : Calculator) {c : Changes} (h : c.isReadable = false) :
    k.attempt c = k := by
  unfold attempt
  split
  · next hk =>
      rw [(configure_eq_ok_iff.mp hk).1] at h
      cases h
  · rfl

/-- After a row of attempts, by induction on the row: the options are those after the changes that
could be read. -/
theorem foldl_attempt (cs : List Changes) (k : Calculator) :
    cs.foldl attempt k = ⟨k.options.after (cs.filter (·.isReadable))⟩ := by
  induction cs generalizing k with
  | nil => rfl
  | cons c cs ih =>
      rw [List.foldl_cons, ih]
      cases hc : c.isReadable with
      | true =>
          have hrest : ∀ d ∈ cs.filter (·.isReadable), d.isReadable = true :=
            fun d hd => (List.mem_filter.mp hd).2
          rw [attempt_of_isReadable k hc, List.filter_cons_of_pos hc]
          exact congrArg Calculator.mk (Options.after_append k.options [c] hrest).symm
      | false =>
          rw [attempt_of_not_isReadable k hc, List.filter_cons_of_neg (by simp [hc])]

end Calculator

/-- A change is accepted exactly if each value that it names can be read, whatever calculator it
changes. After any row of attempts each option is what the last accepted change that names it says,
and the others are as they were. Two changes that are accepted one after the other have the effect
of both at once, the second one going first. -/
theorem changes_compose :
    (∀ (k : Calculator) (c : Changes), (∃ k', k.configure c = .ok k') ↔ c.isReadable = true) ∧
    (∀ (k : Calculator) (cs : List Changes),
      cs.foldl Calculator.attempt k = ⟨k.options.after (cs.filter (·.isReadable))⟩) ∧
    ∀ (k k₁ k₂ : Calculator) (c d : Changes), k.configure c = .ok k₁ → k₁.configure d = .ok k₂ →
      k.configure (c.merge d) = .ok k₂ := by
  refine ⟨fun k c => ⟨?_, fun hc => ?_⟩, fun k cs => Calculator.foldl_attempt cs k, ?_⟩
  · rintro ⟨k', hk'⟩
    exact (Calculator.configure_eq_ok_iff.mp hk').1
  · exact ⟨_, Calculator.configure_eq_ok_iff.mpr ⟨hc, rfl⟩⟩
  · intro k k₁ k₂ c d hfirst hsecond
    obtain ⟨hc, rfl⟩ := Calculator.configure_eq_ok_iff.mp hfirst
    obtain ⟨hd, rfl⟩ := Calculator.configure_eq_ok_iff.mp hsecond
    refine Calculator.configure_eq_ok_iff.mpr ⟨Changes.isReadable_merge hc hd, ?_⟩
    rw [Options.after_merge _ c hd]

/-- Words of eight bits, then of twelve shown in hexadecimal. -/
theorem changes_compose_width :
    let c : Changes := { mode := some (.text " INT "), width := some (.integer 8) }
    let d : Changes := { displayBase := some (.text "16"), width := some (.integer 12) }
    ({} : Calculator).configure (c.merge d) =
      .ok ⟨{ mode := .integer, displayBase := .only .hex, width := ⟨12, by decide⟩ }⟩ := by
  intro c d
  have hfirst : ({} : Calculator).configure c =
      .ok ⟨{ mode := .integer, width := ⟨8, by decide⟩ }⟩ :=
    eq_ok_of_toOption (by decide +kernel)
  have hsecond : (⟨{ mode := .integer, width := ⟨8, by decide⟩ }⟩ : Calculator).configure d =
      .ok ⟨{ mode := .integer, displayBase := .only .hex, width := ⟨12, by decide⟩ }⟩ :=
    eq_ok_of_toOption (by decide +kernel)
  exact changes_compose.2.2 _ _ _ c d hfirst hsecond

end Reckon
