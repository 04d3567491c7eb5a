import Mathlib.Data.List.Nodup
import Reckon.Proofs.Changes
import Reckon.Proofs.Text.Digits

/-!
# Options from any values

A value that is given for an option is read, or it is refused with a reason. The terms of an option
(`Terms`) say which values are read, and as what, and which are refused, and why. Options are built
exactly if each of the values that are given can be read, and they are refused for the reason of the
first one that cannot (`FirstRefused`).

One of the reasons is no refusal. Where a choice is to be made, a text of digits is read as a
number, and more passes for a digit than has a decimal value. Nothing is answered to a superscript,
not even that it selects none of the choices.

The terms are relations, and what they say of one value is not shown to be consistent beforehand.
Each of their clauses forces the outcome of a reading, some clause always applies, and so no two of
them can disagree (`Exactly.of_total`).
-/

namespace Reckon

open Text (trim isDigits isDecimalDigit decimalPlaces lowerCase)

namespace Raw

/-- What a value is taken for where a choice is to be made. A text of decimal digits is taken for
the number that they spell and any other text for a word in small letters, both without outer
blanks; what is no text is taken for itself. -/
inductive TakenFor : Raw → Raw → Prop
  | number {s : String} (hdigits : isDigits (trim s.toList) = true)
      (hdecimal : ∀ c ∈ trim s.toList, isDecimalDigit c = true) :
      TakenFor (text s) (integer (decimalPlaces (trim s.toList)))
  | word {s : String} (hword : isDigits (trim s.toList) = false) :
      TakenFor (text s) (text (String.ofList (lowerCase (trim s.toList))))
  | self {v : Raw} (hv : ∀ s, v ≠ text s) : TakenFor v v

/-- A text of digits that are not all decimal, and what it is without outer blanks. -/
inductive Ornamental : Raw → String → Prop
  | intro {s : String} (hdigits : isDigits (trim s.toList) = true)
      (hornament : ∃ c ∈ trim s.toList, isDecimalDigit c = false) :
      Ornamental (text s) (String.ofList (trim s.toList))

theorem normalize_of_isDigits {s : String} (h : isDigits (trim s.toList) = true) :
    (text s).normalize =
      (Text.decimalValue? (trim s.toList)).elim
        (.error (.unreadableDigits (String.ofList (trim s.toList)))) fun n => .ok (integer n) := by
  -- What is looked at are the small letters of the text, but digits are in small letters.
  show (if isDigits (lowerCase (trim s.toList)) = true then _ else _) = _
  rw [Text.lowerCase_of_isDigits h, if_pos h]
  cases Text.decimalValue? (trim s.toList) <;> rfl

theorem normalize_of_takenFor {v w : Raw} (h : v.TakenFor w) : v.normalize = .ok w := by
  cases h with
  | number hdigits hdecimal =>
      rw [normalize_of_isDigits hdigits, Text.decimalValue?_eq_decimalPlaces hdecimal,
        Option.elim_some]
  | @word s hword =>
      show (if isDigits (lowerCase (trim s.toList)) = true then _ else _) = _
      rw [Text.isDigits_lowerCase, hword]
      rfl
  | self hv =>
      cases v with
      | text s => exact absurd rfl (hv s)
      | truth _ | integer _ | float _ | list _ | absent => rfl
      | mode _ | inputBase _ | displayBase _ => rfl

theorem normalize_of_ornamental {v : Raw} {t : String} (h : v.Ornamental t) :
    v.normalize = .error (.unreadableDigits t) := by
  cases h with
  | intro hdigits hornament =>
      rw [normalize_of_isDigits hdigits, Text.decimalValue?_eq_none hornament, Option.elim_none]

theorem takenFor_or_ornamental (v : Raw) : (∃ w, v.TakenFor w) ∨ ∃ t, v.Ornamental t := by
  by_cases htext : ∃ s, v = text s
  · obtain ⟨s, rfl⟩ := htext
    by_cases hdigits : isDigits (trim s.toList) = true
    · by_cases hornament : ∃ c ∈ trim s.toList, isDecimalDigit c = false
      · exact .inr ⟨_, .intro hdigits hornament⟩
      · exact .inl ⟨_, .number hdigits (by simpa using hornament)⟩
    · exact .inl ⟨_, .word (Bool.eq_false_iff.mpr hdigits)⟩
  · exact .inl ⟨v, .self fun s hs => htext ⟨s, hs⟩⟩

/-- A value equals one key at most. -/
theorem eq_of_matchesKey {v : Raw} {k k' : Key} (h : v.matchesKey k = true)
    (h' : v.matchesKey k' = true) : k = k' := by
  cases v with
  | text s => cases k <;> cases k' <;> simp_all [matchesKey]
  | integer n => cases k <;> cases k' <;> simp_all [matchesKey]
  | truth b => cases k <;> cases k' <;> simp_all [matchesKey]
  | float x => cases x <;> cases k <;> cases k' <;> simp_all [matchesKey]
  | list _ | absent | mode _ | inputBase _ | displayBase _ => cases h

end Raw

/-! ## Terms

The machine looks for the first key that a value equals, and the terms know of no order. They come
to the same since no two keys are equal and a value determines the key that it equals
(`Raw.eq_of_matchesKey`), so that the first match is the only one. -/

/-- On which terms an option takes raw values: which of them it reads, and as what, and which ones
it refuses, and why. -/
structure Terms (α : Type) where
  accepts : Raw → α → Prop
  refuses : Raw → OptionError → Prop

/-- Values are read on the terms. -/
def Terms.Govern {α : Type} (t : Terms α) (read : Raw → Except OptionError α) : Prop :=
  ∀ v, Exactly (t.accepts v) (t.refuses v) (read v)

/-- The settings among which an option is chosen, by which values one is given as such, and by which
keys one is selected. No text is a setting already, and no key selects two. -/
structure Settings (α : Type) where
  setting? : Raw → Option α
  choices : List (Key × α)
  setting?_text (s : String) : setting? (.text s) = none
  nodup : (choices.map Prod.fst).Nodup

namespace Settings

variable {α : Type} (S : Settings α)

/-- A setting is read as itself, and any other value as the setting whose key it equals. -/
inductive Accepts : Raw → α → Prop
  | setting {v : Raw} {a : α} (hv : S.setting? v = some a) : Accepts v a
  | choice {v w : Raw} {k : Key} {a : α} (hv : S.setting? v = none) (hw : v.TakenFor w)
      (hmem : (k, a) ∈ S.choices) (hk : w.matchesKey k = true) : Accepts v a

/-- A value that equals no key is refused as what it was taken for. An ornamental one was not taken
for anything, and what comes of it is no refusal. -/
inductive Refuses : Raw → OptionError → Prop
  | unknown {v w : Raw} (hv : S.setting? v = none) (hw : v.TakenFor w)
      (hno : ∀ c ∈ S.choices, w.matchesKey c.1 = false) :
      Refuses v (.unknownChoice w (S.choices.map Prod.fst))
  | ornamental {v : Raw} {t : String} (ht : v.Ornamental t) : Refuses v (.unreadableDigits t)

def terms : Terms α where
  accepts := S.Accepts
  refuses := S.Refuses

variable {S}

/-- The first key that a value equals is the only one, so the order of the choices plays no part. -/
theorem find?_matchesKey {w : Raw} {k : Key} {a : α} (hmem : (k, a) ∈ S.choices)
    (hk : w.matchesKey k = true) : S.choices.find? (fun c => w.matchesKey c.1) = some (k, a) := by
  cases hfind : S.choices.find? fun c => w.matchesKey c.1 with
  | none =>
      have hno := List.find?_eq_none.mp hfind (k, a) hmem
      exact absurd hk hno
  | some c =>
      have hc := List.find?_some hfind
      have heq : c = (k, a) :=
        List.inj_on_of_nodup_map S.nodup (List.mem_of_find?_eq_some hfind) hmem
          (Raw.eq_of_matchesKey hc hk)
      rw [heq]

theorem choose_eq {v w : Raw} (hw : v.TakenFor w) : choose S.choices v =
    match S.choices.find? fun c => w.matchesKey c.1 with
    | some c => .ok c.2
    | none => .error (.unknownChoice w (S.choices.map Prod.fst)) := by
  rw [choose, Raw.normalize_of_takenFor hw]
  rfl

theorem coerce_of_accepts {v : Raw} {a : α} (h : S.Accepts v a) :
    coerce S.setting? S.choices v = .ok a := by
  cases h with
  | setting hv => rw [coerce, hv]
  | choice hv hw hmem hk => rw [coerce, hv, choose_eq hw, find?_matchesKey hmem hk]

theorem coerce_of_refuses {v : Raw} {err : OptionError} (h : S.Refuses v err) :
    coerce S.setting? S.choices v = .error err := by
  cases h with
  | @unknown w hv hw hno =>
      have hfind : S.choices.find? (fun c => w.matchesKey c.1) = none := by
        refine List.find?_eq_none.mpr fun c hc => ?_
        rw [hno c hc]
        exact Bool.false_ne_true
      rw [coerce, hv, choose_eq hw, hfind]
  | ornamental ht =>
      -- An ornamental value is a text, and a text is no setting.
      have hv : S.setting? v = none := by
        cases ht
        exact S.setting?_text _
      rw [coerce, hv, choose, Raw.normalize_of_ornamental ht]
      rfl

variable (S)

theorem accepts_or_refuses (v : Raw) : (∃ a, S.Accepts v a) ∨ ∃ err, S.Refuses v err := by
  cases hv : S.setting? v with
  | some a => exact .inl ⟨a, .setting hv⟩
  | none =>
      rcases v.takenFor_or_ornamental with ⟨w, hw⟩ | ⟨t, ht⟩
      · by_cases hno : ∀ c ∈ S.choices, w.matchesKey c.1 = false
        · exact .inr ⟨_, .unknown hv hw hno⟩
        · obtain ⟨⟨k, a⟩, hmem, hk⟩ : ∃ c ∈ S.choices, w.matchesKey c.1 = true := by
            simpa using hno
          exact .inl ⟨a, .choice hv hw hmem hk⟩
      · exact .inr ⟨_, .ornamental ht⟩

/-- Choices are made on their terms. -/
theorem governs : S.terms.Govern (coerce S.setting? S.choices) :=
  fun v => .of_total (fun _ => coerce_of_accepts) (fun _ => coerce_of_refuses)
    (S.accepts_or_refuses v)

end Settings

def InputBase.settings : Settings InputBase where
  setting? := Raw.inputBase?
  choices := choices
  setting?_text _ := rfl
  nodup := by decide

def DisplayBase.settings : Settings DisplayBase where
  setting? := Raw.displayBase?
  choices := choices
  setting?_text _ := rfl
  nodup := by decide

def Mode.settings : Settings Mode where
  setting? := Raw.mode?
  choices := choices
  setting?_text _ := rfl
  nodup := by decide

namespace Width

/-- A width must be given as an integer, and be one at least. -/
inductive Refuses : Raw → OptionError → Prop
  | notInteger {v : Raw} (hv : ∀ n, v ≠ .integer n) : Refuses v (.notInteger v)
  | outOfRange {n : Int} (hn : n < 1) : Refuses (.integer n) (.outOfRange n (some 1) none)

def terms : Terms Width where
  accepts v w := v = .integer w.val
  refuses := Refuses

theorem checkWidth_of_refuses {v : Raw} {err : OptionError} (h : Refuses v err) :
    checkWidth v = .error err := by
  cases h with
  | notInteger hv =>
      cases v with
      | integer n => exact absurd rfl (hv n)
      | text _ | truth _ | float _ | list _ | absent => rfl
      | mode _ | inputBase _ | displayBase _ => rfl
  | @outOfRange n hn =>
      show (if h : 1 ≤ n then Except.ok (⟨n.toNat, _⟩ : Width) else _) = _
      rw [dif_neg (Int.not_le.mpr hn)]
      rfl

theorem accepts_or_refuses (v : Raw) : (∃ w, terms.accepts v w) ∨ ∃ err, terms.refuses v err := by
  by_cases hinteger : ∃ n, v = .integer n
  · obtain ⟨n, rfl⟩ := hinteger
    by_cases hn : n < 1
    · exact .inr ⟨_, .outOfRange hn⟩
    · have hwidth : n = (n.toNat : Int) := (Int.toNat_of_nonneg (by omega)).symm
      exact .inl ⟨⟨n.toNat, by omega⟩, congrArg Raw.integer hwidth⟩
  · exact .inr ⟨_, .notInteger fun n hn => hinteger ⟨n, hn⟩⟩

/-- Widths are taken on their terms. -/
theorem governs : terms.Govern checkWidth := by
  refine fun v => .of_total (fun w hw => ?_) (fun _ => checkWidth_of_refuses) (accepts_or_refuses v)
  rw [show v = .integer w.val from hw, checkWidth_integer]

end Width

/-! ## One after the other

A change leaves nothing alone: the options that it does not mention are read again, from their old
values. What has been read before is read as itself (`Mode.read_mode` and the like), and so an old
value is never the one that is refused. The steps are put together with `Exactly.bind`: an error is
that of the first value, or else the first one has been read and the error is among those of the
others, which is the recursion of `FirstRefused`. -/

/-- A value that may be given for an option: whether it can be read, and the reasons for which it is
refused otherwise. -/
structure Reading where
  accepted : Prop
  refused : OptionError → Prop

/-- The reason of the first value that cannot be read. -/
def FirstRefused : List Reading → OptionError → Prop
  | [], _ => False
  | r :: rs, err => r.refused err ∨ r.accepted ∧ FirstRefused rs err

/-- After the last value nothing is refused. -/
theorem exactly_built {α : Type} (a : α) :
    Exactly (fun b => b = a) (FirstRefused []) (.ok a : Except OptionError α) :=
  exactly_ok_iff.mpr ⟨fun _ => Iff.rfl, fun _ => id⟩

namespace Terms

variable {α β : Type} {t : Terms α}

/-- The reading of a value if there is one. -/
def reading (t : Terms α) (raw : Option Raw) : Reading where
  accepted := ∀ v ∈ raw, ∃ a, t.accepts v a
  refused err := ∃ v ∈ raw, t.refuses v err

/-- An option is as the value that is given for it says, and as it was if there is none. -/
def Sets (t : Terms α) (raw : Option Raw) (old new : α) : Prop :=
  match raw with
  | some v => t.accepts v new
  | none => new = old

theorem exists_sets_iff (raw : Option Raw) (old : α) :
    (∃ a, t.Sets raw old a) ↔ (t.reading raw).accepted := by
  cases raw <;> simp [Sets, reading]

variable {read : Raw → Except OptionError α} {setting : α → Raw}

/-- Without a new value the old one is read again. -/
theorem Govern.exactly_getD (h : t.Govern read) (hsetting : ∀ a, read (setting a) = .ok a)
    (raw : Option Raw) (old : α) :
    Exactly (t.Sets raw old) (t.reading raw).refused (read (raw.getD (setting old))) := by
  cases raw with
  | none =>
      show Exactly _ _ (read (setting old))
      rw [hsetting]
      exact exactly_ok_iff.mpr ⟨fun a => Iff.rfl, fun err ⟨v, hv, _⟩ => by cases hv⟩
  | some v => exact (h v).congr (fun a => Iff.rfl) fun err => by simp [reading]

/-- One option is read, and then the others. -/
theorem Govern.exactly_bind (h : t.Govern read) (hsetting : ∀ a, read (setting a) = .ok a)
    (raw : Option Raw) (old : α) {rs : List Reading} {Q : α → β → Prop}
    {f : α → Except OptionError β} (hf : ∀ a, Exactly (Q a) (FirstRefused rs) (f a)) :
    Exactly (fun b => ∃ a, t.Sets raw old a ∧ Q a b) (FirstRefused (t.reading raw :: rs))
      (read (raw.getD (setting old)) >>= f) := by
  refine ((h.exactly_getD hsetting raw old).bind fun a _ => hf a).congr (fun b => Iff.rfl)
    fun err => or_congr_right ?_
  rw [exists_and_right, exists_sets_iff]

end Terms

namespace Changes

variable (c : Changes)

/-- The values that a change gives, in the order in which they are read. -/
def readings : List Reading :=
  [InputBase.settings.terms.reading c.inputBase, DisplayBase.settings.terms.reading c.displayBase,
    Mode.settings.terms.reading c.mode, Width.terms.reading c.width]

/-- The values that it gives for showing an answer, in this order. -/
def displayReadings : List Reading :=
  [DisplayBase.settings.terms.reading c.displayBase, Width.terms.reading c.width]

/-- Each option is what the change says, or as it was. Any value says whether words are signed. -/
structure Sets (o o' : Options) : Prop where
  inputBase : InputBase.settings.terms.Sets c.inputBase o.inputBase o'.inputBase
  displayBase : DisplayBase.settings.terms.Sets c.displayBase o.displayBase o'.displayBase
  mode : Mode.settings.terms.Sets c.mode o.mode o'.mode
  width : Width.terms.Sets c.width o.width o'.width
  signed : o'.signed = (c.signed.getD (.truth o.signed)).isTrue

structure SetsDisplay (d d' : Display) : Prop where
  displayBase : DisplayBase.settings.terms.Sets c.displayBase d.displayBase d'.displayBase
  width : Width.terms.Sets c.width d.width d'.width
  signed : d'.signed = (c.signed.getD (.truth d.signed)).isTrue

end Changes

theorem Options.exactly_change (o : Options) (c : Changes) :
    Exactly (c.Sets o) (FirstRefused c.readings) (o.change c) := by
  have hchange := InputBase.settings.governs.exactly_bind InputBase.read_inputBase
    c.inputBase o.inputBase fun inputBase =>
    DisplayBase.settings.governs.exactly_bind DisplayBase.read_displayBase
      c.displayBase o.displayBase fun displayBase =>
    Mode.settings.governs.exactly_bind Mode.read_mode c.mode o.mode fun mode =>
    Width.governs.exactly_bind checkWidth_integer c.width o.width fun width =>
      exactly_built (Options.mk inputBase displayBase mode width
        (c.signed.getD (.truth o.signed)).isTrue)
  refine hchange.congr (fun o' => ⟨?_, ?_⟩) fun _ => Iff.rfl
  · rintro ⟨_, hinput, _, hdisplay, _, hmode, _, hwidth, rfl⟩
    exact ⟨hinput, hdisplay, hmode, hwidth, rfl⟩
  · obtain ⟨_, _, _, _, _⟩ := o'
    rintro ⟨hinput, hdisplay, hmode, hwidth, rfl⟩
    exact ⟨_, hinput, _, hdisplay, _, hmode, _, hwidth, rfl⟩

theorem Display.exactly_ofChanges (c : Changes) :
    Exactly (c.SetsDisplay {}) (FirstRefused c.displayReadings) (Display.ofChanges c) := by
  have hbuilt := DisplayBase.settings.governs.exactly_bind DisplayBase.read_displayBase
    c.displayBase ({} : Display).displayBase fun displayBase =>
    Width.governs.exactly_bind checkWidth_integer c.width ({} : Display).width fun width =>
      exactly_built (Display.mk displayBase width
        (c.signed.getD (.truth ({} : Display).signed)).isTrue)
  refine hbuilt.congr (fun d => ⟨?_, ?_⟩) fun _ => Iff.rfl
  · rintro ⟨_, hdisplay, _, hwidth, rfl⟩
    exact ⟨hdisplay, hwidth, rfl⟩
  · obtain ⟨_, _, _⟩ := d
    rintro ⟨hdisplay, hwidth, rfl⟩
    exact ⟨_, hdisplay, _, hwidth, rfl⟩

theorem Calculator.exactly_configure (k : Calculator) (c : Changes) :
    Exactly (fun k' => ∃ o, c.Sets k.options o ∧ k' = ⟨o⟩)
      (fun f => ∃ err, FirstRefused c.readings err ∧ f = .option err) (k.configure c) :=
  ((k.options.exactly_change c).mapError Fault.option).map Calculator.mk

/-- Whether an error is the refusal of a value. -/
def OptionError.isRefusal : OptionError → Bool
  | unreadableDigits _ => false
  | _ => true

/-- Whether a fault is the refusal of a value that is given for an option. -/
def Fault.isRefusal : Fault → Bool
  | option e => e.isRefusal
  | _ => false

/-- An outcome of the options that is a value or a refusal. -/
abbrev Refusing {α : Type} (x : Except OptionError α) : Prop :=
  Settles (fun e => e.isRefusal = true) (fun _ => True) x

theorem refusing_iff {α : Type} {x : Except OptionError α} :
    Refusing x ↔ ∀ t, x ≠ .error (.unreadableDigits t) := by
  cases x with
  | ok a => simp [Refusing, Settles]
  | error err => cases err <;> simp [Refusing, Settles, OptionError.isRefusal]

section

variable {α : Type} {raw : Option Raw} {t : String}

theorem Settings.refused_iff_ornamental (S : Settings α) :
    (S.terms.reading raw).refused (.unreadableDigits t) ↔ ∃ v ∈ raw, v.Ornamental t := by
  constructor
  · rintro ⟨v, hv, ht⟩
    cases ht with
    | ornamental ht => exact ⟨v, hv, ht⟩
  · rintro ⟨v, hv, ht⟩
    exact ⟨v, hv, .ornamental ht⟩

theorem Width.not_refused : ¬ (Width.terms.reading raw).refused (.unreadableDigits t) := by
  rintro ⟨v, hv, ht⟩
  cases ht

end

namespace Changes

/-- The first value of a change that cannot be read is ornamental. A width is never that, so it is a
value for a choice, and those for earlier choices can be read. -/
inductive Unanswered (c : Changes) : Prop
  | inputBase {v : Raw} {t : String} (hv : v ∈ c.inputBase) (ht : v.Ornamental t)
  | displayBase {v : Raw} {t : String}
      (hinput : (InputBase.settings.terms.reading c.inputBase).accepted)
      (hv : v ∈ c.displayBase) (ht : v.Ornamental t)
  | mode {v : Raw} {t : String}
      (hinput : (InputBase.settings.terms.reading c.inputBase).accepted)
      (hdisplay : (DisplayBase.settings.terms.reading c.displayBase).accepted)
      (hv : v ∈ c.mode) (ht : v.Ornamental t)

theorem unanswered_iff {c : Changes} :
    c.Unanswered ↔ ∃ t, FirstRefused c.readings (.unreadableDigits t) := by
  simp only [readings, FirstRefused, Settings.refused_iff_ornamental, Width.not_refused, and_false,
    or_false]
  constructor
  · intro h
    cases h with
    | inputBase hv ht => exact ⟨_, .inl ⟨_, hv, ht⟩⟩
    | displayBase hinput hv ht => exact ⟨_, .inr ⟨hinput, .inl ⟨_, hv, ht⟩⟩⟩
    | mode hinput hdisplay hv ht => exact ⟨_, .inr ⟨hinput, .inr ⟨hdisplay, _, hv, ht⟩⟩⟩
  · rintro ⟨t, ⟨v, hv, ht⟩ | ⟨hinput, ⟨v, hv, ht⟩ | ⟨hdisplay, v, hv, ht⟩⟩⟩
    · exact .inputBase hv ht
    · exact .displayBase hinput hv ht
    · exact .mode hinput hdisplay hv ht

end Changes

theorem Options.refusing_change_iff (o : Options) (c : Changes) :
    Refusing (o.change c) ↔ ¬ c.Unanswered := by
  rw [refusing_iff, Changes.unanswered_iff, not_exists]
  exact forall_congr' fun t => not_congr ((o.exactly_change c).2 _)

theorem Display.refusing_ofChanges_iff (c : Changes) :
    Refusing (Display.ofChanges c) ↔ ∀ v ∈ c.displayBase, ∀ t, ¬ v.Ornamental t := by
  have hfirst (t : String) : FirstRefused c.displayReadings (.unreadableDigits t) ↔
      ∃ v ∈ c.displayBase, v.Ornamental t := by
    simp only [Changes.displayReadings, FirstRefused, Settings.refused_iff_ornamental,
      Width.not_refused, and_false, or_false]
  rw [refusing_iff]
  simp only [Ne, (exactly_ofChanges c).2, hfirst]
  exact ⟨fun h v hv t ht => h t ⟨v, hv, ht⟩, fun h t ⟨v, hv, ht⟩ => h v hv t ht⟩

theorem Calculator.refusing_configure_iff (k : Calculator) (c : Changes) :
    Settles (fun f => f.isRefusal = true) (fun _ => True) (k.configure c) ↔ ¬ c.Unanswered := by
  rw [← k.options.refusing_change_iff c, configure]
  cases k.options.change c <;> exact Iff.rfl

/-- Whether a value is no text of digits that cannot be read. -/
def Raw.isLegible (v : Raw) : Bool :=
  v.normalize.isOk

/-- Where a choice is to be made, no digits are given that cannot be read. -/
structure Changes.Legible (c : Changes) : Prop where
  inputBase : ∀ v ∈ c.inputBase, v.isLegible = true
  displayBase : ∀ v ∈ c.displayBase, v.isLegible = true
  mode : ∀ v ∈ c.mode, v.isLegible = true

theorem Raw.not_ornamental {v : Raw} (h : v.isLegible = true) (t : String) : ¬ v.Ornamental t := by
  intro ht
  rw [isLegible, normalize_of_ornamental ht] at h
  cases h

theorem Options.refusing_change (o : Options) {c : Changes} (hc : c.Legible) :
    Refusing (o.change c) := by
  refine (o.refusing_change_iff c).mpr fun h => ?_
  cases h with
  | inputBase hv ht => exact Raw.not_ornamental (hc.inputBase _ hv) _ ht
  | displayBase _ hv ht => exact Raw.not_ornamental (hc.displayBase _ hv) _ ht
  | mode _ _ hv ht => exact Raw.not_ornamental (hc.mode _ hv) _ ht

/-- Whatever values are given for the options of a calculator, for new ones or for those of showing
an answer, they are built with each option as its value says, the width being one that was given as
an integer, or there is an error, that of the first value that cannot be read. The error is a
refusal, which says that a value selects none of the choices, is no integer or lies out of range,
unless this first value is a text of digits, given for a choice, of which one has no decimal value.
Such a text, and no other value, is not answered. -/
theorem options_built_or_refused (k : Calculator) (c : Changes) :
    Exactly (fun k' => ∃ o, c.Sets k.options o ∧ k' = ⟨o⟩)
      (fun f => ∃ err, FirstRefused c.readings err ∧ f = .option err) (k.configure c) ∧
    Exactly (c.Sets {}) (FirstRefused c.readings) (Options.ofChanges c) ∧
    Exactly (c.SetsDisplay {}) (FirstRefused c.displayReadings) (Display.ofChanges c) ∧
    (Settles (fun f => f.isRefusal = true) (fun _ => True) (k.configure c) ↔ ¬ c.Unanswered) ∧
    (Refusing (Options.ofChanges c) ↔ ¬ c.Unanswered) ∧
    (Refusing (Display.ofChanges c) ↔ ∀ v ∈ c.displayBase, ∀ t, ¬ v.Ornamental t) :=
  ⟨k.exactly_configure c, Options.exactly_change {} c, Display.exactly_ofChanges c,
    k.refusing_configure_iff c, Options.refusing_change_iff {} c, Display.refusing_ofChanges_iff c⟩

/-- A superscript passes for a digit and has no value. It is not refused as the base of integers,
nor in the one that an answer is shown in, nor as a mode. -/
theorem superscript_unanswered :
    Options.ofChanges { inputBase := some (.text "²") } = .error (.unreadableDigits "²") ∧
      Display.ofChanges { displayBase := some (.text "1²") } = .error (.unreadableDigits "1²") ∧
      ({} : Calculator).configure { mode := some (.text "²") } =
        .error (.option (.unreadableDigits "²")) ∧
      (OptionError.unreadableDigits "²").isRefusal = false := by
  decide +kernel

/-- An earlier value that is refused hides it. -/
example : Options.ofChanges { displayBase := some (.text " ٣ "), mode := some (.text "²") } =
    .error (.unknownChoice (.integer 3) (DisplayBase.choices.map Prod.fst)) := by
  decide +kernel

end Reckon
