import Nachos.Prelude.Loop

/-!
# What a computation that can fail ends with

A specification of a computation in `Except`: a condition on its result and a condition on its failure, with the rules for
sequences and for loops over lists.
-/

namespace Loop

variable {ε σ α β : Type}

/-- The computation returns a result with `Q`, or fails in a way that `E` allows. -/
inductive Ends (Q : α → Prop) (E : ε → Prop) : Except ε α → Prop where
  | ok {a : α} (h : Q a) : Ends Q E (.ok a)
  | error {e : ε} (h : E e) : Ends Q E (.error e)

/-- A computation known to return. -/
theorem Ends.of_eq {Q : α → Prop} {E : ε → Prop} {x : Except ε α} {a : α} (hx : x = .ok a) (h : Q a) : Ends Q E x := by
  rw [hx]
  exact .ok h

/-- The rule of consequence. -/
theorem Ends.mono {Q Q' : α → Prop} {E E' : ε → Prop} {x : Except ε α} (h : Ends Q E x) (hQ : ∀ a, Q a → Q' a)
    (hE : ∀ e, E e → E' e) : Ends Q' E' x := by
  cases h with
  | ok h => exact .ok (hQ _ h)
  | error h => exact .error (hE _ h)

/-- The rule of sequences. -/
theorem Ends.bind {Q : α → Prop} {R : β → Prop} {E : ε → Prop} {x : Except ε α} {f : α → Except ε β} (h : Ends Q E x)
    (hf : ∀ a, Q a → Ends R E (f a)) : Ends R E (x >>= f) := by
  cases h with
  | ok h => exact hf _ h
  | error h => exact .error h

/-- The rule of loops over a list: `Q` is kept by every round. -/
theorem Ends.foldlM {Q : σ → Prop} {E : ε → Prop} {body : σ → α → Except ε σ} (h : ∀ s a, Q s → Ends Q E (body s a)) :
    ∀ (l : List α) {s : σ}, Q s → Ends Q E (l.foldlM body s) := by
  intro l
  induction l with
  | nil => exact fun hs => .ok hs
  | cons a l ih =>
    intro s hs
    rw [List.foldlM_cons]
    exact (h s a hs).bind fun _ h => ih h

theorem Ends.of_ok {Q : α → Prop} {E : ε → Prop} {x : Except ε α} (h : Ends Q E x) {a : α} (hx : x = .ok a) : Q a := by
  subst hx
  cases h with
  | ok h => exact h

theorem Ends.of_error {Q : α → Prop} {E : ε → Prop} {x : Except ε α} (h : Ends Q E x) {e : ε} (hx : x = .error e) : E e := by
  subst hx
  cases h with
  | error h => exact h

/-- A failure that `E` does not allow. -/
theorem Ends.not_of_error {Q : α → Prop} {E : ε → Prop} {x : Except ε α} {e : ε} (hx : x = .error e) (he : ¬E e) : ¬Ends Q E x :=
  fun h => he (h.of_error hx)

/-- What is done with the result does not matter to the failures. -/
theorem Ends.map_iff {E : ε → Prop} {x : Except ε α} (f : α → β) :
    Ends (fun _ => True) E (x.map f) ↔ Ends (fun _ => True) E x := by
  cases x with
  | ok a => exact iff_of_true (.ok trivial) (.ok trivial)
  | error e => exact ⟨fun h => .error (h.of_error rfl), fun h => .error (h.of_error rfl)⟩

/-! ## Two computations -/

/-- Whenever the first computation returns, so does the second, and the results are related. -/
def Follows (R : α → β → Prop) (x : Except ε α) (y : Except ε β) : Prop := ∀ a, x = .ok a → ∃ b, y = .ok b ∧ R a b

theorem Follows.ok {R : α → β → Prop} {a : α} {b : β} (h : R a b) : Follows R (.ok a : Except ε α) (.ok b) := by
  rintro _ ⟨⟩
  exact ⟨b, rfl, h⟩

/-- A computation that does not return is followed by any. -/
theorem Follows.of_ne_ok {R : α → β → Prop} {x : Except ε α} {y : Except ε β} (h : ∀ a, x ≠ .ok a) : Follows R x y :=
  fun a ha => (h a ha).elim

theorem Follows.bind {γ δ : Type} {R : α → β → Prop} {S : γ → δ → Prop} {x : Except ε α} {y : Except ε β} {f : α → Except ε γ}
    {g : β → Except ε δ} (h : Follows R x y) (hf : ∀ a b, R a b → Follows S (f a) (g b)) : Follows S (x >>= f) (y >>= g) := by
  intro c hc
  cases hx : x with
  | error e =>
    rw [hx] at hc
    cases hc
  | ok a =>
    obtain ⟨b, rfl, hab⟩ := h a hx
    rw [hx] at hc
    exact hf a b hab c hc

theorem Follows.ite {R : α → β → Prop} {c : Prop} [Decidable c] {x x' : Except ε α} {y y' : Except ε β} (h : Follows R x y)
    (h' : Follows R x' y') : Follows R (if c then x else x') (if c then y else y') := by
  split
  · exact h
  · exact h'

end Loop
