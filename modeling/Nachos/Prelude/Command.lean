import Nachos.Prelude.Loop

/-!
# Commands

The statements of a small imperative language over a state: what they do is a function that can fail, so are their conditions, and a loop
can be left. A run has a bound on the rounds of every loop. A command ends if some bound is enough, and the rules show that it ends, and
how.
-/

/-- A statement. -/
inductive Command (ε σ : Type) where
  | basic (f : σ → Except ε σ)
  | seq (first second : Command ε σ)
  | ite (test : σ → Except ε Bool) (yes no : Command ε σ)
  | loop (test : σ → Except ε Bool) (body : Command ε σ)
  | leave

namespace Command

variable {ε σ : Type}

/-- How a statement can end: control goes on behind it, or behind the loop around it, or the program stops in a state. -/
inductive Outcome (ε σ : Type) where
  | next (s : σ)
  | left (s : σ)
  | stopped (e : ε) (s : σ)

/-- No statement. -/
def skip : Command ε σ := .basic .ok

/-- Statements one after the other. -/
def block : List (Command ε σ) → Command ε σ
  | [] => skip
  | c :: cs => .seq c (block cs)

/-- `for (init; test; step) body`. -/
def forLoop (init : Command ε σ) (test : σ → Except ε Bool) (step body : Command ε σ) : Command ε σ :=
  .seq init (.loop test (.seq body step))

/-! ## Runs -/

/-- At most so many rounds of a loop. -/
def rounds (test : σ → Except ε Bool) (body : σ → Option (Outcome ε σ)) : Nat → σ → Option (Outcome ε σ)
  | 0, _ => none
  | n + 1, s =>
    match test s with
    | .error e => some (.stopped e s)
    | .ok false => some (.next s)
    | .ok true =>
      match body s with
      | some (.next s') => rounds test body n s'
      | some (.left s') => some (.next s')
      | some (.stopped e s') => some (.stopped e s')
      | none => none

/-- A run in which every loop has at most `n` rounds. -/
def run (n : Nat) : Command ε σ → σ → Option (Outcome ε σ)
  | basic f, s =>
    match f s with
    | .ok s' => some (.next s')
    | .error e => some (.stopped e s)
  | seq first second, s =>
    match first.run n s with
    | some (.next s') => second.run n s'
    | r => r
  | ite test yes no, s =>
    match test s with
    | .error e => some (.stopped e s)
    | .ok true => yes.run n s
    | .ok false => no.run n s
  | loop test body, s => rounds test (body.run n) n s
  | leave, s => some (.left s)

theorem rounds_mono {test : σ → Except ε Bool} {body body' : σ → Option (Outcome ε σ)}
    (hbody : ∀ s r, body s = some r → body' s = some r) {m : Nat} : ∀ {n : Nat}, m ≤ n → ∀ {s : σ} {r : Outcome ε σ},
      rounds test body m s = some r → rounds test body' n s = some r := by
  induction m with
  | zero => exact fun _ _ _ h => nomatch h
  | succ m ih =>
    intro n hn s r h
    obtain ⟨n, rfl⟩ : ∃ k, n = k + 1 := ⟨n - 1, by omega⟩
    unfold rounds at h ⊢
    split at h
    · exact h
    · exact h
    · cases hb : body s with
      | none =>
        rw [hb] at h
        cases h
      | some o =>
        rw [hb] at h
        rw [hbody s o hb]
        cases o with
        | next s' => exact ih (by omega) h
        | left s' => exact h
        | stopped e s' => exact h

/-- A larger bound does no harm. -/
theorem run_mono {m n : Nat} (hn : m ≤ n) : ∀ (c : Command ε σ) {s : σ} {r : Outcome ε σ}, c.run m s = some r → c.run n s = some r := by
  intro c
  induction c with
  | basic f => exact fun h => h
  | seq first second ih₁ ih₂ =>
    intro s r h
    unfold run at h ⊢
    cases hf : first.run m s with
    | none =>
      rw [hf] at h
      cases h
    | some o =>
      rw [hf] at h
      rw [ih₁ hf]
      cases o with
      | next s' => exact ih₂ h
      | left s' => exact h
      | stopped e s' => exact h
  | ite test yes no ih₁ ih₂ =>
    intro s r h
    unfold run at h ⊢
    split at h
    · exact h
    · exact ih₁ h
    · exact ih₂ h
  | loop test body ih =>
    intro s r h
    unfold run at h ⊢
    exact rounds_mono (fun s r hs => ih hs) hn h
  | leave => exact fun h => h

/-! ## Rules -/

/-- What is to hold at the end, for each of its kinds. -/
structure Post (ε σ : Type) where
  next : σ → Prop
  left : σ → Prop
  stopped : ε → σ → Prop

/-- The outcome is as it should be. -/
def Post.Holds (Q : Post ε σ) : Outcome ε σ → Prop
  | .next s => Q.next s
  | .left s => Q.left s
  | .stopped e s => Q.stopped e s

/-- The command ends, and with `Q`. -/
def Ends (c : Command ε σ) (Q : Post ε σ) (s : σ) : Prop := ∃ n r, c.run n s = some r ∧ Q.Holds r

variable {Q Q' : Post ε σ} {s s' : σ} {c first second yes no body : Command ε σ} {test : σ → Except ε Bool}

/-- The rule of consequence. -/
theorem Ends.mono (h : Ends c Q s) (hnext : ∀ s', Q.next s' → Q'.next s') (hleft : ∀ s', Q.left s' → Q'.left s')
    (hstopped : ∀ e s', Q.stopped e s' → Q'.stopped e s') : Ends c Q' s := by
  obtain ⟨n, r, hr, hQ⟩ := h
  refine ⟨n, r, hr, ?_⟩
  cases r with
  | next s' => exact hnext s' hQ
  | left s' => exact hleft s' hQ
  | stopped e s' => exact hstopped e s' hQ

theorem ends_basic {f : σ → Except ε σ} (h : f s = .ok s') (hQ : Q.next s') : Ends (.basic f) Q s := by
  refine ⟨0, .next s', ?_, hQ⟩
  unfold run
  rw [h]

theorem ends_basic_error {f : σ → Except ε σ} {e : ε} (h : f s = .error e) (hQ : Q.stopped e s) : Ends (.basic f) Q s := by
  refine ⟨0, .stopped e s, ?_, hQ⟩
  unfold run
  rw [h]

theorem ends_skip (hQ : Q.next s) : Ends skip Q s := ends_basic rfl hQ

theorem ends_leave (hQ : Q.left s) : Ends .leave Q s := ⟨0, .left s, rfl, hQ⟩

theorem ends_seq (h : Ends first { Q with next := fun s' => Ends second Q s' } s) : Ends (.seq first second) Q s := by
  obtain ⟨m, o, ho, hQ⟩ := h
  cases o with
  | next s' =>
    obtain ⟨n, r, hr, hQ'⟩ := hQ
    refine ⟨max m n, r, ?_, hQ'⟩
    unfold run
    rw [run_mono (Nat.le_max_left m n) first ho]
    exact run_mono (Nat.le_max_right m n) second hr
  | left s' =>
    refine ⟨m, .left s', ?_, hQ⟩
    unfold run
    rw [ho]
  | stopped e s' =>
    refine ⟨m, .stopped e s', ?_, hQ⟩
    unfold run
    rw [ho]

theorem ends_ite {b : Bool} (ht : test s = .ok b) (h : Ends (if b then yes else no) Q s) : Ends (.ite test yes no) Q s := by
  obtain ⟨n, r, hr, hQ⟩ := h
  refine ⟨n, r, ?_, hQ⟩
  unfold run
  rw [ht]
  cases b <;> exact hr

/-- The last round of a loop. -/
theorem ends_loop_false (ht : test s = .ok false) (hQ : Q.next s) : Ends (.loop test body) Q s := by
  refine ⟨1, .next s, ?_, hQ⟩
  unfold run rounds
  rw [ht]

/-- One more round of a loop. -/
theorem ends_loop_true (ht : test s = .ok true)
    (h : Ends body { Q with next := fun s' => Ends (.loop test body) Q s', left := Q.next } s) : Ends (.loop test body) Q s := by
  obtain ⟨m, o, ho, hQ⟩ := h
  cases o with
  | next s' =>
    obtain ⟨n, r, hr, hQ'⟩ := hQ
    refine ⟨max m n + 1, r, ?_, hQ'⟩
    have hbody : body.run (max m n + 1) s = some (.next s') := run_mono (by omega) body ho
    unfold run rounds
    rw [ht]
    dsimp only
    rw [hbody]
    unfold run at hr
    exact rounds_mono (fun s r hs => run_mono (by omega) body hs) (by omega) hr
  | left s' =>
    refine ⟨m + 1, .next s', ?_, hQ⟩
    unfold run rounds
    rw [ht]
    dsimp only
    rw [run_mono (Nat.le_succ m) body ho]
  | stopped e s' =>
    refine ⟨m + 1, .stopped e s', ?_, hQ⟩
    unfold run rounds
    rw [ht]
    dsimp only
    rw [run_mono (Nat.le_succ m) body ho]

/-- The rule of loops: `I n` holds when at most `n` rounds are left. -/
theorem ends_loop (I : Nat → σ → Prop) (h : ∀ n s, I n s → ∃ b, test s = .ok b ∧
      if b then Ends body { Q with next := fun s' => ∃ m < n, I m s', left := Q.next } s else Q.next s) :
    ∀ {n : Nat} {s : σ}, I n s → Ends (.loop test body) Q s := by
  intro n
  induction n using Nat.strong_induction_on with
  | h n ih =>
    intro s hs
    obtain ⟨b, ht, hb⟩ := h n s hs
    cases b with
    | false => exact ends_loop_false ht hb
    | true =>
      refine ends_loop_true ht (Ends.mono hb ?_ (fun _ h => h) fun _ _ h => h)
      rintro s' ⟨m, hm, hI⟩
      exact ih m hm hI

/-- The rule of loops that count: `I k` holds after `k` of `n` rounds. -/
theorem ends_count (I : Nat → σ → Prop) {n : Nat} (htest : ∀ k ≤ n, ∀ s, I k s → test s = .ok (decide (k < n)))
    (hbody : ∀ k < n, ∀ s, I k s → Ends body { Q with next := I (k + 1), left := Q.next } s) (hQ : ∀ s, I n s → Q.next s)
    {s : σ} (h0 : I 0 s) : Ends (.loop test body) Q s := by
  refine ends_loop (fun m s => ∃ k, k + m = n ∧ I k s) ?_ (n := n) ⟨0, Nat.zero_add n, h0⟩
  rintro m s ⟨k, hk, hI⟩
  refine ⟨decide (k < n), htest k (by omega) s hI, ?_⟩
  by_cases hlt : k < n
  · rw [if_pos (decide_eq_true hlt)]
    refine (hbody k hlt s hI).mono ?_ (fun _ h => h) fun _ _ h => h
    exact fun s' hs' => ⟨m - 1, by omega, k + 1, by omega, hs'⟩
  · obtain rfl : k = n := by omega
    rw [if_neg (by simp)]
    exact hQ s hI

end Command
