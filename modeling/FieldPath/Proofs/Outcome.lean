/-!
# Outcomes of steps that may fail

A step answers a value or an error.  What made a sequence of steps succeed is read off its outcome,
one step at a time, and errors can be translated before or after the other steps.

* `eq_ok_of_map`, `eq_ok_of_bind`, `eq_ok_of_mapError` — a success has succeeded before.
* `mapError_bind`, `mapError_map`, `mapError_mapError` — the translation of errors.
* `SameOutcome` — two outcomes are the same error, or values that are related.
-/

namespace FieldPath

variable {ε ε' ε'' α β : Type}

theorem eq_ok_of_map {x : Except ε α} {f : α → β} {b : β} (h : x.map f = .ok b) :
    ∃ a, x = .ok a ∧ f a = b := by
  cases x with
  | error e => exact absurd h nofun
  | ok a => exact ⟨a, rfl, Except.ok.inj h⟩

theorem eq_error_of_map {x : Except ε α} {f : α → β} {e : ε} (h : x.map f = .error e) :
    x = .error e := by
  cases x with
  | error e' => rw [Except.error.inj h]
  | ok a => exact absurd h nofun

theorem eq_ok_of_bind {x : Except ε α} {f : α → Except ε β} {b : β} (h : x.bind f = .ok b) :
    ∃ a, x = .ok a ∧ f a = .ok b := by
  cases x with
  | error e => exact absurd h nofun
  | ok a => exact ⟨a, rfl, h⟩

theorem eq_ok_of_mapError {g : ε → ε'} {x : Except ε α} {a : α} (h : x.mapError g = .ok a) :
    x = .ok a := by
  cases x with
  | error e => exact absurd h nofun
  | ok a' => rw [Except.ok.inj h]

theorem eq_error_of_mapError {g : ε → ε'} {x : Except ε α} {e : ε'}
    (h : x.mapError g = .error e) : ∃ e', x = .error e' ∧ g e' = e := by
  cases x with
  | error e' => exact ⟨e', rfl, Except.error.inj h⟩
  | ok a => exact absurd h nofun

theorem mapError_bind (g : ε → ε') (x : Except ε α) (f : α → Except ε β) :
    (x.bind f).mapError g = (x.mapError g).bind fun a => (f a).mapError g := by
  cases x <;> rfl

theorem mapError_map (g : ε → ε') (x : Except ε α) (f : α → β) :
    (x.map f).mapError g = (x.mapError g).map f := by
  cases x <;> rfl

theorem mapError_mapError (g : ε → ε') (g' : ε' → ε'') (x : Except ε α) :
    (x.mapError g).mapError g' = x.mapError fun e => g' (g e) := by
  cases x <;> rfl

/-- Both outcomes are the same error, or both are values, which are related. -/
inductive SameOutcome (S : α → β → Prop) : Except ε α → Except ε β → Prop
  /-- Two values. -/
  | ok {a : α} {b : β} : S a b → SameOutcome S (.ok a) (.ok b)
  /-- One error. -/
  | error {e : ε} : SameOutcome S (.error e) (.error e)

theorem SameOutcome.mono {S T : α → β → Prop} {x : Except ε α} {y : Except ε β}
    (h : SameOutcome S x y) (hST : ∀ a b, S a b → T a b) : SameOutcome T x y := by
  cases h with
  | ok hab => exact .ok (hST _ _ hab)
  | error => exact .error

theorem SameOutcome.map {α' β' : Type} {S : α → β → Prop} {T : α' → β' → Prop} {x : Except ε α}
    {y : Except ε β} (h : SameOutcome S x y) {f : α → α'} {g : β → β'}
    (hST : ∀ a b, S a b → T (f a) (g b)) : SameOutcome T (x.map f) (y.map g) := by
  cases h with
  | ok hab => exact .ok (hST _ _ hab)
  | error => exact .error

theorem SameOutcome.mapError {S : α → β → Prop} {x : Except ε α} {y : Except ε β}
    (h : SameOutcome S x y) (g : ε → ε') : SameOutcome S (x.mapError g) (y.mapError g) := by
  cases h with
  | ok hab => exact .ok hab
  | error => exact .error

end FieldPath
