/-!
# Outcomes

What is computed here ends in a value or in an error. This file has what is needed to take such
computations apart, and ways to speak of an outcome as a whole: two outcomes agree (`Agree`) if
they are the same error or values in a relation, and an outcome raises only errors of some kind
(`Raising`), or also has only values of some kind (`Settles`), or is told by kinds of either
(`Exactly`). All of these pass from the parts of a computation to the whole.
-/

namespace Reckon

variable {ε α β γ δ : Type}

theorem bind_eq_ok {x : Except ε γ} {f : γ → Except ε δ} {d : δ}
    (h : x >>= f = .ok d) : ∃ c, x = .ok c ∧ f c = .ok d := by
  cases x with
  | error e => cases h
  | ok c => exact ⟨c, rfl, h⟩

theorem map_eq_ok {x : Except ε γ} {f : γ → δ} {d : δ} (h : x.map f = .ok d) :
    ∃ c, x = .ok c ∧ f c = d := by
  cases x with
  | error e => cases h
  | ok c =>
      cases h
      exact ⟨c, rfl, rfl⟩

theorem map_eq_error {x : Except ε γ} {f : γ → δ} {e : ε} (h : x.map f = .error e) :
    x = .error e := by
  cases x with
  | error e' =>
      cases h
      rfl
  | ok c => cases h

theorem mapError_eq_ok {ε' : Type} {x : Except ε γ} {f : ε → ε'} {c : γ}
    (h : x.mapError f = .ok c) : x = .ok c := by
  cases x with
  | error e => cases h
  | ok c' =>
      cases h
      rfl

theorem mapError_eq_error {ε' : Type} {x : Except ε γ} {f : ε → ε'} {e' : ε'}
    (h : x.mapError f = .error e') : ∃ e, x = .error e ∧ f e = e' := by
  cases x with
  | error e =>
      cases h
      exact ⟨e, rfl, rfl⟩
  | ok c => cases h

/-- Steps whose errors are the same under a map have the same errors under it one after the
other. -/
theorem mapError_bind_congr {ε' : Type} {k : ε → ε'} {x y : Except ε γ} {f g : γ → Except ε δ}
    (h : x.mapError k = y.mapError k) (hfg : ∀ c, (f c).mapError k = (g c).mapError k) :
    (x >>= f).mapError k = (y >>= g).mapError k := by
  cases x with
  | error e =>
      obtain ⟨e', rfl, he⟩ := mapError_eq_error h.symm
      exact congrArg Except.error he.symm
  | ok c =>
      obtain rfl := mapError_eq_ok h.symm
      exact hfg c

theorem toOption_map {x : Except ε γ} {f : γ → δ} : (x.map f).toOption = x.toOption.map f := by
  cases x <;> rfl

theorem eq_ok_of_toOption {x : Except ε γ} {c : γ} (h : x.toOption = some c) : x = .ok c := by
  cases x with
  | error e => cases h
  | ok c' =>
      cases h
      rfl

/-- Two outcomes that agree: the same error, or values in a relation. -/
inductive Agree (R : α → β → Prop) : Except ε α → Except ε β → Prop
  | error (e : ε) : Agree R (.error e) (.error e)
  | ok {a : α} {b : β} : R a b → Agree R (.ok a) (.ok b)

theorem Agree.bind {R : α → β → Prop} {S : γ → δ → Prop} {x : Except ε α}
    {y : Except ε β} {f : α → Except ε γ} {g : β → Except ε δ}
    (h : Agree R x y) (hfg : ∀ a b, R a b → Agree S (f a) (g b)) :
    Agree S (x >>= f) (y >>= g) := by
  cases h with
  | error e => exact .error e
  | ok hr => exact hfg _ _ hr

theorem Agree.map {R : α → β → Prop} {S : γ → δ → Prop} {x : Except ε α} {y : Except ε β}
    {f : α → γ} {g : β → δ} (h : Agree R x y) (hfg : ∀ a b, R a b → S (f a) (g b)) :
    Agree S (x.map f) (y.map g) := by
  cases h with
  | error e => exact .error e
  | ok hr => exact .ok (hfg _ _ hr)

theorem Agree.mapError {ε' : Type} {R : α → β → Prop} {x : Except ε α} {y : Except ε β}
    (h : Agree R x y) (f : ε → ε') : Agree R (x.mapError f) (y.mapError f) := by
  cases h with
  | error e => exact .error (f e)
  | ok hr => exact .ok hr

/-- Outcomes that agree are the same if the value of the one is in the relation to itself alone. -/
theorem Agree.eq {R : α → α → Prop} {x y : Except ε α} (h : Agree R x y)
    (hR : ∀ a, x = .ok a → ∀ b, R a b → a = b) : x = y := by
  cases h with
  | error e => rfl
  | ok hr => exact congrArg Except.ok (hR _ rfl _ hr)

theorem Agree.mono {R S : α → β → Prop} {x : Except ε α} {y : Except ε β}
    (h : Agree R x y) (hrs : ∀ a b, R a b → S a b) : Agree S x y := by
  cases h with
  | error e => exact .error e
  | ok hr => exact .ok (hrs _ _ hr)

theorem Agree.of_ok {R : α → β → Prop} {a : α} {y : Except ε β}
    (h : Agree R (.ok a) y) : ∃ b, y = .ok b ∧ R a b := by
  cases h with
  | ok hr => exact ⟨_, rfl, hr⟩

theorem Agree.map_eq {R : α → β → Prop} {x : Except ε α}
    {y : Except ε β} {f : α → γ} {g : β → γ} (h : Agree R x y)
    (hfg : ∀ a b, R a b → f a = g b) : x.map f = y.map g := by
  cases h with
  | error e => rfl
  | ok hr => exact congrArg Except.ok (hfg _ _ hr)

theorem Agree.bind_eq {R : α → β → Prop} {x : Except ε α}
    {y : Except ε β} {f : α → Except ε γ} {g : β → Except ε γ} (h : Agree R x y)
    (hfg : ∀ a b, R a b → f a = g b) : x >>= f = y >>= g := by
  cases h with
  | error e => rfl
  | ok hr => exact hfg _ _ hr

/-- An outcome that is an error only of a given kind. -/
def Raising (E : ε → Prop) (x : Except ε α) : Prop :=
  ∀ err, x = .error err → E err

variable {E : ε → Prop}

theorem Raising.ok (a : α) : Raising E (.ok a) := by
  intro err h
  cases h

theorem Raising.error {err : ε} (h : E err) : Raising E (.error err : Except _ α) := by
  intro err' h'
  cases h'
  exact h

theorem Raising.bind {x : Except ε α} {f : α → Except ε β} (hx : Raising E x)
    (hf : ∀ a, x = .ok a → Raising E (f a)) : Raising E (x >>= f) := by
  cases x with
  | error e => exact Raising.error (hx e rfl)
  | ok a => exact hf a rfl

/-- An outcome that is a value of one kind or an error of another kind. -/
def Settles (E : ε → Prop) (P : α → Prop) : Except ε α → Prop
  | .ok a => P a
  | .error err => E err

theorem Settles.bind {P : α → Prop} {Q : β → Prop} {x : Except ε α} {f : α → Except ε β}
    (hx : Settles E P x) (hf : ∀ a, P a → Settles E Q (f a)) : Settles E Q (x >>= f) := by
  cases x with
  | error e => exact hx
  | ok a => exact hf a hx

theorem Settles.mono {E' : ε → Prop} {P Q : α → Prop} {x : Except ε α} (h : Settles E P x)
    (hE : ∀ err, E err → E' err) (hP : ∀ a, P a → Q a) : Settles E' Q x := by
  cases x with
  | error e => exact hE e h
  | ok a => exact hP a h

theorem Settles.map {P : α → Prop} {Q : β → Prop} {x : Except ε α} {f : α → β}
    (hx : Settles E P x) (hf : ∀ a, P a → Q (f a)) : Settles E Q (x.map f) := by
  cases x with
  | error e => exact hx
  | ok a => exact hf a hx

theorem Settles.mapError {ε' : Type} {E' : ε' → Prop} {P : α → Prop} {x : Except ε α} {f : ε → ε'}
    (hx : Settles E P x) (hf : ∀ err, E err → E' (f err)) : Settles E' P (x.mapError f) := by
  cases x with
  | error e => exact hf e hx
  | ok a => exact hx

/-- What is known of a value at least is that it is the outcome. -/
theorem Settles.self {x : Except ε α} (h : ∀ err, x = .error err → E err) :
    Settles E (fun a => x = .ok a) x := by
  cases x with
  | error e => exact h e rfl
  | ok a => rfl

/-- An outcome that is a value, or an error, exactly if the value, or the error, is of a given
kind. -/
def Exactly (P : α → Prop) (E : ε → Prop) (x : Except ε α) : Prop :=
  (∀ a, x = .ok a ↔ P a) ∧ ∀ err, x = .error err ↔ E err

section

variable {P : α → Prop} {x : Except ε α}

theorem exactly_ok_iff {a : α} :
    Exactly P E (.ok a) ↔ (∀ b, P b ↔ b = a) ∧ ∀ err, ¬ E err := by
  simp [Exactly, iff_comm, eq_comm]

theorem exactly_error_iff {err : ε} :
    Exactly P E (.error err) ↔ (∀ a, ¬ P a) ∧ ∀ e, E e ↔ e = err := by
  simp [Exactly, iff_comm, eq_comm]

/-- Kinds that force the outcome tell it if one of them applies. That they exclude each other need
not be shown, as there is only one outcome. -/
theorem Exactly.of_total (hP : ∀ a, P a → x = .ok a) (hE : ∀ err, E err → x = .error err)
    (htotal : (∃ a, P a) ∨ ∃ err, E err) : Exactly P E x := by
  refine ⟨fun a => ⟨fun hx => ?_, hP a⟩, fun err => ⟨fun hx => ?_, hE err⟩⟩
  · rcases htotal with ⟨b, hb⟩ | ⟨e, he⟩
    · obtain rfl := Except.ok.inj (hx.symm.trans (hP b hb))
      exact hb
    · cases hx.symm.trans (hE e he)
  · rcases htotal with ⟨b, hb⟩ | ⟨e, he⟩
    · cases hx.symm.trans (hP b hb)
    · obtain rfl := Except.error.inj (hx.symm.trans (hE e he))
      exact he

theorem Exactly.congr {Q : α → Prop} {F : ε → Prop} (h : Exactly P E x) (hP : ∀ a, P a ↔ Q a)
    (hE : ∀ err, E err ↔ F err) : Exactly Q F x :=
  ⟨fun a => (h.1 a).trans (hP a), fun err => (h.2 err).trans (hE err)⟩

theorem Exactly.bind {Q : α → β → Prop} {F : α → ε → Prop} {f : α → Except ε β}
    (hx : Exactly P E x) (hf : ∀ a, P a → Exactly (Q a) (F a) (f a)) :
    Exactly (fun b => ∃ a, P a ∧ Q a b) (fun err => E err ∨ ∃ a, P a ∧ F a err) (x >>= f) := by
  cases x with
  | error e =>
      obtain ⟨hP, hE⟩ := exactly_error_iff.mp hx
      refine exactly_error_iff.mpr ⟨fun b ⟨a, ha, _⟩ => hP a ha, fun err => ?_⟩
      rw [hE]
      exact or_iff_left fun ⟨a, ha, _⟩ => hP a ha
  | ok a =>
      obtain ⟨hP, hE⟩ := exactly_ok_iff.mp hx
      refine (hf a ((hP a).mpr rfl)).congr (fun b => ?_) fun err => ?_
      · simp only [hP, exists_eq_left]
      · simp only [hP, exists_eq_left, hE, false_or]

theorem Exactly.map (h : Exactly P E x) (f : α → β) :
    Exactly (fun b => ∃ a, P a ∧ b = f a) E (x.map f) := by
  cases x with
  | error e =>
      obtain ⟨hP, hE⟩ := exactly_error_iff.mp h
      exact exactly_error_iff.mpr ⟨fun b ⟨a, ha, _⟩ => hP a ha, hE⟩
  | ok a =>
      obtain ⟨hP, hE⟩ := exactly_ok_iff.mp h
      exact exactly_ok_iff.mpr ⟨fun b => by simp only [hP, exists_eq_left], hE⟩

theorem Exactly.mapError {ε' : Type} (h : Exactly P E x) (f : ε → ε') :
    Exactly P (fun err => ∃ e, E e ∧ err = f e) (x.mapError f) := by
  cases x with
  | error e =>
      obtain ⟨hP, hE⟩ := exactly_error_iff.mp h
      exact exactly_error_iff.mpr ⟨hP, fun err => by simp only [hE, exists_eq_left]⟩
  | ok a =>
      obtain ⟨hP, hE⟩ := exactly_ok_iff.mp h
      exact exactly_ok_iff.mpr ⟨hP, fun err ⟨e, he, _⟩ => hE e he⟩

end

end Reckon
