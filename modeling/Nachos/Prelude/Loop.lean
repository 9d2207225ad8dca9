import Mathlib.Data.Nat.Init

/-!
# Counted loops that can fail

`for (i = 0; i < n; i++) body` over a state, where the body may stop the program, with its invariant rule and the rules that
compare two loops.
-/

namespace Loop

variable {ε σ τ : Type}

/-- What succeeded goes on with its result. -/
theorem ok_bind {α β : Type} (a : α) (f : α → Except ε β) : (Except.ok a >>= f) = f a := rfl

/-- What a sequence that succeeded has done. -/
theorem of_bind_ok {α β : Type} {x : Except ε α} {f : α → Except ε β} {b : β} (h : (x >>= f) = .ok b) :
    ∃ a, x = .ok a ∧ f a = .ok b := by
  cases x with
  | error e => cases h
  | ok a => exact ⟨a, rfl, h⟩

/-- What has been mapped has succeeded. -/
theorem of_map_ok {α β : Type} {x : Except ε α} {f : α → β} {b : β} (h : x.map f = .ok b) : ∃ a, x = .ok a ∧ f a = b := by
  cases x with
  | error e => cases h
  | ok a => exact ⟨a, rfl, Except.ok.inj h⟩

theorem map_bind {α β γ : Type} (x : Except ε α) (f : α → Except ε β) (g : β → γ) :
    (x >>= f).map g = x >>= fun a => (f a).map g := by
  cases x <;> rfl

theorem bind_of_map {α β γ : Type} (x : Except ε α) (f : α → β) (g : β → Except ε γ) :
    (x.map f >>= g) = x >>= fun a => g (f a) := by
  cases x <;> rfl

/-- Run `body 0`, `body 1`, ..., `body (n - 1)` in order; the first failure ends the loop. -/
def forRange (body : Nat → σ → Except ε σ) : Nat → σ → Except ε σ
  | 0, s => .ok s
  | n + 1, s => forRange body n s >>= body n

theorem forRange_succ (body : Nat → σ → Except ε σ) (n : Nat) (s : σ) :
    forRange body (n + 1) s = forRange body n s >>= body n := rfl

/-- The invariant rule: what holds at the start and is kept by every iteration, none of which fails, holds at the end. -/
theorem forRange_ok {body : Nat → σ → Except ε σ} (I : Nat → σ → Prop) {n : Nat} {s : σ} (h0 : I 0 s)
    (hs : ∀ i < n, ∀ s, I i s → ∃ s', body i s = .ok s' ∧ I (i + 1) s') :
    ∃ s', forRange body n s = .ok s' ∧ I n s' := by
  induction n with
  | zero => exact ⟨s, rfl, h0⟩
  | succ n ih =>
    obtain ⟨s₁, h₁, hI⟩ := ih (fun i hi => hs i (Nat.lt_succ_of_lt hi))
    obtain ⟨s₂, h₂, hI'⟩ := hs n (Nat.lt_succ_self n) s₁ hI
    refine ⟨s₂, ?_, hI'⟩
    rw [forRange_succ, h₁]
    exact h₂

/-- The rule for a loop that fails: the iterations before `k` keep the invariant, and iteration `k` fails under it. -/
theorem forRange_error {body : Nat → σ → Except ε σ} (I : Nat → σ → Prop) {n k : Nat} (hk : k < n) {s : σ} {e : ε} (h0 : I 0 s)
    (hs : ∀ i < k, ∀ s, I i s → ∃ s', body i s = .ok s' ∧ I (i + 1) s') (he : ∀ s, I k s → body k s = .error e) :
    forRange body n s = .error e := by
  obtain ⟨s₁, h₁, hI⟩ := forRange_ok I h0 hs
  induction n with
  | zero => omega
  | succ n ih =>
    rw [forRange_succ]
    by_cases hkn : k = n
    · subst hkn
      rw [h₁]
      exact he s₁ hI
    · rw [ih (by omega)]
      rfl

/-- The invariant rule for a loop that has succeeded. -/
theorem forRange_of_ok {body : Nat → σ → Except ε σ} (I : Nat → σ → Prop) {n : Nat} {s s' : σ} (h0 : I 0 s)
    (hs : ∀ i < n, ∀ s s', I i s → body i s = .ok s' → I (i + 1) s') (h : forRange body n s = .ok s') : I n s' := by
  induction n generalizing s' with
  | zero =>
    cases h
    exact h0
  | succ n ih =>
    obtain ⟨s₁, h₁, h₂⟩ := of_bind_ok h
    exact hs n (Nat.lt_succ_self n) s₁ s' (ih (fun i hi => hs i (Nat.lt_succ_of_lt hi)) h₁) h₂

/-- A loop that acts on two components of its state, each for itself, is a loop on the one and a loop on the other. -/
theorem forRange_factor {ε' σ₁ σ₂ : Type} (mk : σ₁ → σ₂ → σ) {body : Nat → σ → Except ε σ} {body₁ : Nat → σ₁ → Except ε σ₁}
    {body₂ : Nat → σ₂ → Except ε' σ₂} {n : Nat}
    (h : ∀ i < n, ∀ s₁ s₂ s', body i (mk s₁ s₂) = .ok s' ↔ ∃ s₁' s₂', body₁ i s₁ = .ok s₁' ∧ body₂ i s₂ = .ok s₂' ∧ s' = mk s₁' s₂')
    (s₁ : σ₁) (s₂ : σ₂) (s' : σ) :
    forRange body n (mk s₁ s₂) = .ok s' ↔
      ∃ s₁' s₂', forRange body₁ n s₁ = .ok s₁' ∧ forRange body₂ n s₂ = .ok s₂' ∧ s' = mk s₁' s₂' := by
  induction n generalizing s' with
  | zero =>
    constructor
    · rintro ⟨⟩
      exact ⟨s₁, s₂, rfl, rfl, rfl⟩
    · rintro ⟨_, _, ⟨⟩, ⟨⟩, rfl⟩
      rfl
  | succ n ih =>
    have ih := ih fun i hi => h i (Nat.lt_succ_of_lt hi)
    simp only [forRange_succ]
    constructor
    · intro hs
      obtain ⟨t, ht, hs⟩ := of_bind_ok hs
      obtain ⟨t₁, t₂, ht₁, ht₂, rfl⟩ := (ih t).1 ht
      rw [ht₁, ht₂]
      exact (h n (Nat.lt_succ_self n) t₁ t₂ s').1 hs
    · rintro ⟨s₁', s₂', hs₁, hs₂, rfl⟩
      obtain ⟨t₁, ht₁, hs₁⟩ := of_bind_ok hs₁
      obtain ⟨t₂, ht₂, hs₂⟩ := of_bind_ok hs₂
      rw [(ih _).2 ⟨t₁, t₂, ht₁, ht₂, rfl⟩]
      exact (h n (Nat.lt_succ_self n) t₁ t₂ _).2 ⟨s₁', s₂', hs₁, hs₂, rfl⟩

/-- Two outcomes that differ at most in the state they succeed with. -/
def SameFault : Except ε σ → Except ε τ → Prop
  | .ok _, .ok _ => True
  | .error e, .error e' => e = e'
  | _, _ => False

theorem SameFault.error_iff {x : Except ε σ} {y : Except ε τ} (h : SameFault x y) (e : ε) :
    x = .error e ↔ y = .error e := by
  cases x <;> cases y <;> simp_all [SameFault]

theorem SameFault.eq_of_error {x y : Except ε σ} (h : SameFault x y) (hx : ∃ e, x = .error e) : x = y := by
  obtain ⟨e, rfl⟩ := hx
  exact ((h.error_iff e).1 rfl).symm

theorem SameFault.bind {α β : Type} {x : Except ε α} {y : Except ε β} {f : α → Except ε σ} {g : β → Except ε τ}
    (h : SameFault x y) (hf : ∀ a b, SameFault (f a) (g b)) : SameFault (x >>= f) (y >>= g) := by
  cases x with
  | error e =>
    cases y with
    | error e' => exact h
    | ok b => exact h.elim
  | ok a =>
    cases y with
    | error e' => exact h.elim
    | ok b => exact hf a b

/-- Loops whose bodies fail alike, whatever the state, fail alike. -/
theorem forRange_sameFault {body : Nat → σ → Except ε σ} {body' : Nat → τ → Except ε τ} {n : Nat}
    (h : ∀ i < n, ∀ s s', SameFault (body i s) (body' i s')) (s : σ) (s' : τ) :
    SameFault (forRange body n s) (forRange body' n s') := by
  induction n with
  | zero => trivial
  | succ n ih =>
    rw [forRange_succ, forRange_succ]
    exact (ih (fun i hi => h i (Nat.lt_succ_of_lt hi))).bind (h n (Nat.lt_succ_self n))

/-- A loop one of whose iterations fails from every state fails. -/
theorem forRange_fails {body : Nat → σ → Except ε σ} {n i : Nat} (hi : i < n) (h : ∀ s, ∃ e, body i s = .error e) (s : σ) :
    ∃ e, forRange body n s = .error e := by
  induction n with
  | zero => omega
  | succ n ih =>
    rw [forRange_succ]
    cases hn : forRange body n s with
    | error e => exact ⟨e, rfl⟩
    | ok s' =>
      by_cases hin : i = n
      · subst hin
        exact h s'
      · obtain ⟨e, he⟩ := ih (by omega)
        rw [hn] at he
        cases he

end Loop
