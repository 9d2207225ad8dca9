import Nachos.Threads.GuardedRefinement

/-!
# The steps of code that uses locks and synchronized lists

What a client of Guarded does, over the place of each thread, the values of the semaphores of the code outside of the monitors, and
the memory. The loops of `P` of the monitors do not show. The threads without a scheduler, and so the kernel, refine this.
-/

namespace Nachos

open Loop Transition

/-- The calls that do nothing to the semaphores and the threads. -/
def Call.isQuiet {Pc : Type} : Call Pc → Bool
  | .none | .yield | .setStatus _ | .setLevel _ | .oneTick => true
  | _ => false

/-- The calls that start or end a thread. -/
def Call.isThreads {Pc : Type} : Call Pc → Bool
  | .fork _ _ | .finish => true
  | _ => false

/-- No statement of an operation starts or ends a thread. -/
theorem Synch.Codes.call_inside {T : Type} {t : Tid} {m m' : Monitor T} {i : Input T} {pc pc' : Pc T} {call : Call (Pc T)}
    (h : Codes t m i pc m' call pc') : call.isThreads = false := by
  cases h with
  | @signal o m' hs => cases o <;> rfl
  | @broadcast again o m' hq hs => cases o <;> rfl
  | @append item o m' hi hs => cases o <;> rfl
  | _ => rfl

namespace Guarded

variable {g : Code}

/-- Where a thread is: nowhere, at a statement outside of the monitors, in the loop of `P` on a semaphore of the code, or inside an
operation. -/
inductive Place (T Pc : Type) where
  | gone
  | outside (pc : Pc)
  | inP (s : SemId) (pc : Pc)
  | inside (i : Nat) (pc : Synch.Pc T) (next : Option T → Pc) (item : Option T)

/-- The place of each thread, the values of the semaphores of the code, and the memory. -/
structure View (g : Code) where
  place : Tid → Place g.Item g.Pc
  value : SemId → Option Int
  memory : Memory g

namespace View

/-- Thread `t` goes to `p`. -/
def go (v : View g) (t : Tid) (p : Place g.Item g.Pc) : View g := { v with place := Function.update v.place t p }

/-- The value of `s` becomes `x`. -/
def setValue (v : View g) (s : SemId) (x : Option Int) : View g := { v with value := Function.update v.value s x }

/-- The memory of the code becomes `own`. -/
def setOwn (v : View g) (own : g.Shared) : View g := { v with memory := { v.memory with own } }

/-- `V` on all these semaphores. -/
def raise (v : View g) (ss : List SemId) : View g := ss.foldl (fun v s => v.setValue s ((v.value s).map (· + 1))) v

@[simp] theorem setValue_place (v : View g) (s : SemId) (x : Option Int) : (v.setValue s x).place = v.place := rfl
@[simp] theorem setOwn_own (v : View g) (own : g.Shared) : (v.setOwn own).memory.own = own := rfl

theorem go_place_self (v : View g) (t : Tid) (p : Place g.Item g.Pc) : (v.go t p).place t = p := Function.update_self _ _ _

theorem go_place_other (v : View g) {t t' : Tid} (h : t' ≠ t) (p : Place g.Item g.Pc) : (v.go t p).place t' = v.place t' :=
  Function.update_of_ne h _ _

/-- What holds of the new place of a thread and of the places of the others holds of all places. -/
theorem go_place_all (v : View g) {t : Tid} {p : Place g.Item g.Pc} {P : Tid → Place g.Item g.Pc → Prop} (hp : P t p)
    (h : ∀ t', t' ≠ t → P t' (v.place t')) (t' : Tid) : P t' ((v.go t p).place t') := by
  rcases eq_or_ne t' t with rfl | hne
  · rw [go_place_self]
    exact hp
  · rw [go_place_other v hne]
    exact h t' hne

theorem setValue_self (v : View g) (s : SemId) (x : Option Int) : (v.setValue s x).value s = x := Function.update_self _ _ _

theorem setValue_other (v : View g) {s s' : SemId} (h : s' ≠ s) (x : Option Int) : (v.setValue s x).value s' = v.value s' :=
  Function.update_of_ne h _ _

@[simp] theorem raise_place (v : View g) (ss : List SemId) : (v.raise ss).place = v.place := by
  induction ss generalizing v with
  | nil => rfl
  | cons s ss ih => exact ih _

@[simp] theorem raise_memory (v : View g) (ss : List SemId) : (v.raise ss).memory = v.memory := by
  induction ss generalizing v with
  | nil => rfl
  | cons s ss ih => exact ih _

end View

/-- What a call of the kernel does, made by thread `t`, which goes on at `pc`. -/
inductive Calls (t : Tid) (pc : g.Pc) : Call g.Pc → View g → View g → Prop where
  | quiet {call : Call g.Pc} (h : call.isQuiet = true) (v : View g) : Calls t pc call v (v.go t (.outside pc))
  | v {s : SemId} {v : View g} {x : Int} (hx : v.value s = some x) :
      Calls t pc (.v s) v ((v.go t (.outside pc)).setValue s (some (x + 1)))
  | take {s : SemId} {v : View g} {x : Int} (hx : v.value s = some x) (h0 : x ≠ 0) :
      Calls t pc (.p s) v ((v.go t (.outside pc)).setValue s (some (x - 1)))
  | waits {s : SemId} {v : View g} (hx : v.value s = some 0) : Calls t pc (.p s) v (v.go t (.inP s pc))
  | fork {t' : Tid} {pc' : g.Pc} {v : View g} (hne : t' ≠ t) (h : v.place t' = .gone) :
      Calls t pc (.fork t' pc') v ((v.go t (.outside pc)).go t' (.outside pc'))
  | finish (v : View g) : Calls t pc .finish v (v.go t .gone)
  | newSemaphore {s : SemId} (x : Int) {v : View g} (hs : v.value s = none) :
      Calls t pc (.newSemaphore s x) v ((v.go t (.outside pc)).setValue s (some x))
  | deleteSemaphore (s : SemId) (v : View g) : Calls t pc (.deleteSemaphore s) v ((v.go t (.outside pc)).setValue s none)

section Calls

variable {t : Tid} {pc : g.Pc} {v v' : View g}

theorem Calls.of_quiet {call : Call g.Pc} (h : Calls t pc call v v') (hq : call.isQuiet = true) : v' = v.go t (.outside pc) := by
  cases h <;> first | rfl | cases hq

theorem Calls.of_finish (h : Calls t pc .finish v v') : v' = v.go t .gone := by
  cases h with
  | quiet hq => cases hq
  | finish => rfl

theorem Calls.of_fork {t' : Tid} {pc' : g.Pc} (h : Calls t pc (.fork t' pc') v v') :
    t' ≠ t ∧ v.place t' = .gone ∧ v' = (v.go t (.outside pc)).go t' (.outside pc') := by
  cases h with
  | quiet hq => cases hq
  | fork hne hgone => exact ⟨hne, hgone, rfl⟩

theorem Calls.of_p {s : SemId} (h : Calls t pc (.p s) v v') :
    (∃ x, v.value s = some x ∧ x ≠ 0 ∧ v' = (v.go t (.outside pc)).setValue s (some (x - 1))) ∨ v' = v.go t (.inP s pc) := by
  cases h with
  | quiet hq => cases hq
  | take hx h0 => exact Or.inl ⟨_, hx, h0, rfl⟩
  | waits hx => exact Or.inr rfl

theorem Calls.memory {call : Call g.Pc} (h : Calls t pc call v v') : v'.memory = v.memory := by
  cases h <;> rfl

end Calls

/-- The steps of thread `t`: a call of the kernel, an operation begins, a statement of it, it returns, and the loop of `P` ends. -/
inductive Step (t : Tid) : View g → View g → Prop where
  | call {v v' : View g} {pc pc' : g.Pc} {x : g.Input} {own : g.Shared} {call : Call g.Pc} (h : v.place t = .outside pc)
      (hcode : g.code t v.memory.own pc x = .ok (own, .call call pc')) (hcalls : Calls t pc' call (v.setOwn own) v') : Step t v v'
  | enter {v : View g} {pc : g.Pc} {x : g.Input} {own : g.Shared} {i : Nat} {op : Synch.Op g.Item} {hop : g.ops op = true}
      {next : Option g.Item → g.Pc} (h : v.place t = .outside pc)
      (hcode : g.code t v.memory.own pc x = .ok (own, .operation i op hop next)) :
      Step t v ((v.setOwn own).go t (.inside i op.entry next none))
  | within {v : View g} {i : Nat} {pc pc' : Synch.Pc g.Item} {next : Option g.Item → g.Pc} {item : Option g.Item}
      {x : Synch.Input g.Item} {m : Synch.Monitor g.Item} {call : Call (Synch.Pc g.Item)} (h : v.place t = .inside i pc next item)
      (hcodes : Synch.Codes t (v.memory.monitor i) x pc m call pc') :
      Step t v ({ v with memory := { v.memory with monitor := Function.update v.memory.monitor i m } }.go t
        (.inside i pc' next ((pc.removes (v.memory.monitor i)).or item)))
  | leave {v : View g} {i : Nat} {next : Option g.Item → g.Pc} {item : Option g.Item} (h : v.place t = .inside i .user next item) :
      Step t v (v.go t (.outside (next item)))
  | take {v : View g} {s : SemId} {pc : g.Pc} {x : Int} (h : v.place t = .inP s pc) (hx : v.value s = some x) (h0 : x ≠ 0) :
      Step t v ((v.go t (.outside pc)).setValue s (some (x - 1)))

/-- The memory of the code is changed only by the code. -/
theorem Step.own {t : Tid} {v v' : View g} (h : Step t v v') : v'.memory.own = v.memory.own ∨
    ∃ pc x r, v.place t = .outside pc ∧ g.code t v.memory.own pc x = .ok (v'.memory.own, r) := by
  cases h with
  | @call _ pc pc' x own call h hcode hcalls =>
    have hm : v'.memory.own = own := congrArg Memory.own hcalls.memory
    exact Or.inr ⟨pc, x, .call call pc', h, by rw [hm]; exact hcode⟩
  | enter h hcode => exact Or.inr ⟨_, _, _, h, hcode⟩
  | _ => exact Or.inl rfl

/-- The steps of the handlers. -/
inductive Handles : View g → View g → Prop where
  | served {v : View g} {d : g.Device} {own : g.Shared} {ss : List SemId} (h : g.device v.memory.own d = .ok (own, ss)) :
      Handles v ((v.setOwn own).raise ss)
  | failed {v : View g} {d : g.Device} {e : Fault} (h : g.device v.memory.own d = .error e) :
      Handles v { v with memory := { v.memory with handlerFailed := true } }

/-! ## The view of the threads without a scheduler -/

/-- The place of a thread. -/
def placeOf : Ctl (Point g.Item g.Pc) → Place g.Item g.Pc
  | .gone => .gone
  | .run (.outside pc) => .outside pc
  | .run (.inside i pc next item) => .inside i pc next item
  | .inP s (.outside pc) => .inP s.unpair.2 pc
  | .inP _ (.inside i pc next item) => .inside i pc next item

/-- The view of a state. -/
def view (a : Abs (client g)) : View g where
  place := fun t => placeOf (a.ctl t)
  value := fun s => (a.semaphore (ownSemaphore s)).map Semaphore.value
  memory := a.shared

section View

variable (a : Abs (client g))

theorem view_setCtl (t : Tid) (y : Ctl (Point g.Item g.Pc)) : view (a.setCtl t y) = (view a).go t (placeOf y) := by
  unfold view View.go Abs.setCtl
  congr 1
  funext t'
  exact Function.apply_update (fun _ => placeOf) a.ctl t y t'

theorem view_setSemaphore (s : SemId) (y : Option Semaphore) :
    view (a.setSemaphore (ownSemaphore s) y) = (view a).setValue s (y.map Semaphore.value) := by
  unfold view View.setValue Abs.setSemaphore
  congr 1
  funext s'
  dsimp only
  rcases eq_or_ne s' s with rfl | hne
  · rw [Function.update_self, Function.update_self]
  · rw [Function.update_of_ne hne, Function.update_of_ne fun h => hne (ownSemaphore_inj h)]

theorem view_setSemaphore_monitor (i : Nat) (s : SemId) (y : Option Semaphore) :
    view (a.setSemaphore (semaphoreOf i s) y) = view a := by
  unfold view Abs.setSemaphore
  congr 1
  funext s'
  exact congrArg _ (Function.update_of_ne (ownSemaphore_ne i s' s) _ _)

theorem view_value {s : SemId} {x : Semaphore} (hs : a.semaphore (ownSemaphore s) = some x) : (view a).value s = some x.value :=
  congrArg (Option.map Semaphore.value) hs

theorem setValue_eq_self {v : View g} {s : SemId} {x : Option Int} (h : v.value s = x) : v.setValue s x = v := by
  unfold View.setValue
  rw [← h, Function.update_eq_self]

end View

theorem go_eq_self {v : View g} {t : Tid} {p : Place g.Item g.Pc} (h : v.place t = p) : v.go t p = v := by
  unfold View.go
  rw [← h, Function.update_eq_self]

theorem placeOf_inP (s : SemId) (pc : g.Pc) : placeOf (g := g) (.inP (ownSemaphore s) (.outside pc)) = .inP s pc := by
  unfold placeOf ownSemaphore
  dsimp only
  rw [Nat.unpair_pair]

section Steps

variable {a a' : Abs (client g)} {t : Tid}

/-- A call of the code outside of the monitors. -/
theorem calls_of_effect {pc' : g.Pc} {call : Call g.Pc} {own : g.Shared}
    (heff : Abs.Effect (c := client g) t (Point.outside pc') (call.rename ownSemaphore Point.outside)
      { a with shared := { a.shared with own } } a') : Calls t pc' call ((view a).setOwn own) (view a') := by
  have hself : view { a with shared := { a.shared with own } } = (view a).setOwn own := rfl
  have hrun : view (Abs.setCtl (c := client g) { a with shared := { a.shared with own } } t (.run (.outside pc'))) =
      ((view a).setOwn own).go t (.outside pc') := view_setCtl _ t _
  cases call with
  | p s =>
    cases heff with
    | take hs h0 =>
      rw [view_setSemaphore, hrun]
      exact .take (view_value _ hs) h0
    | @sleep _ _ x hs h0 =>
      have hval : ((view a).setOwn own).value s = some x.value := view_value _ hs
      rw [view_setSemaphore, view_setCtl, placeOf_inP, hself]
      have hstay : (((view a).setOwn own).go t (.inP s pc')).setValue s (some x.value) = ((view a).setOwn own).go t (.inP s pc') :=
        setValue_eq_self hval
      exact hstay.symm ▸ .waits (hval.trans (congrArg some h0))
  | v s =>
    cases heff with
    | v hs =>
      rw [view_setSemaphore, hrun]
      exact .v (view_value _ hs)
  | newSemaphore s x =>
    cases heff with
    | newSemaphore _ hs =>
      rw [view_setSemaphore, hrun]
      exact .newSemaphore x (congrArg (Option.map Semaphore.value) hs)
  | deleteSemaphore s =>
    cases heff with
    | deleteSemaphore hs =>
      rw [view_setSemaphore, hrun]
      exact .deleteSemaphore s _
  | fork t' pc =>
    cases heff with
    | fork hne hgone =>
      rw [view_setCtl, hrun]
      exact .fork hne (congrArg placeOf hgone)
  | finish =>
    cases heff
    rw [view_setCtl, hself]
    exact .finish _
  | _ =>
    cases heff
    rw [hrun]
    exact .quiet rfl _

/-- Inside an operation a call is seen only by the monitor. -/
theorem view_inside {i : Nat} {pc' : Synch.Pc g.Item} {next : Option g.Item → g.Pc} {item : Option g.Item}
    {call : Call (Synch.Pc g.Item)} {sh : Memory g} (hcall : call.isThreads = false)
    (heff : Abs.Effect (c := client g) t (Point.inside i pc' next item)
      (call.rename (semaphoreOf i) fun pc => Point.inside i pc next none) { a with shared := sh } a') :
    view a' = { view a with memory := sh }.go t (.inside i pc' next item) := by
  have hrun : view (Abs.setCtl (c := client g) { a with shared := sh } t (.run (.inside i pc' next item))) =
      { view a with memory := sh }.go t (.inside i pc' next item) := view_setCtl _ t _
  cases call with
  | p s =>
    cases heff with
    | take hs h0 => rw [view_setSemaphore_monitor, hrun]
    | sleep hs h0 =>
      rw [view_setSemaphore_monitor, view_setCtl]
      rfl
  | v s =>
    cases heff with
    | v hs => rw [view_setSemaphore_monitor, hrun]
  | newSemaphore s x =>
    cases heff with
    | newSemaphore _ hs => rw [view_setSemaphore_monitor, hrun]
  | deleteSemaphore s =>
    cases heff with
    | deleteSemaphore hs => rw [view_setSemaphore_monitor, hrun]
  | fork t' pc => cases hcall
  | finish => cases hcall
  | _ =>
    cases heff
    exact hrun

/-- A step of a thread is a step of it in the view, or none. -/
theorem threadStep_step (hN : Named a) (h : Abs.ThreadStep t a a') : view a' = view a ∨ Step t (view a) (view a') := by
  cases h with
  | code ht hcode heff =>
    have hplace := congrArg placeOf ht
    cases codes_of_code hcode with
    | call h => exact Or.inr (.call hplace h (calls_of_effect heff))
    | enter h =>
      have hv := congrArg view heff.of_none
      rw [view_setCtl] at hv
      rw [hv]
      exact Or.inr (.enter hplace h)
    | within hpc h =>
      have hcodes := Synch.codes_of_code hpc h
      rw [view_inside hcodes.call_inside heff]
      exact Or.inr (.within hplace hcodes)
    | leave =>
      have hv := congrArg view heff.of_none
      rw [view_setCtl] at hv
      rw [hv]
      exact Or.inr (.leave hplace)
  | @retestTake s pt x ht hs hq hv =>
    have howns := hN t s pt ht
    cases pt with
    | outside pc =>
      obtain ⟨s', rfl⟩ := howns
      have hplace : (view a).place t = .inP s' pc := (congrArg placeOf ht).trans (placeOf_inP s' pc)
      rw [view_setSemaphore, view_setCtl]
      exact Or.inr (.take hplace (view_value a hs) hv)
    | inside i pc next item =>
      obtain ⟨s', rfl⟩ := howns
      have hplace : (view a).place t = .inside i pc next item := congrArg placeOf ht
      rw [view_setSemaphore_monitor, view_setCtl]
      exact Or.inl (go_eq_self hplace)
  | @retestSleep s pt x ht hs hq hv =>
    have howns := hN t s pt ht
    cases pt with
    | outside pc =>
      obtain ⟨s', rfl⟩ := howns
      have hval : (view a).value s' = some x.value := view_value a hs
      rw [view_setSemaphore]
      exact Or.inl (setValue_eq_self hval)
    | inside i pc next item =>
      obtain ⟨s', rfl⟩ := howns
      exact Or.inl (view_setSemaphore_monitor a i s' _)

theorem wakes_view {ss : List SemId} (h : Abs.Wakes (ss.map ownSemaphore) a a') : view a' = (view a).raise ss := by
  induction ss generalizing a with
  | nil =>
    cases h
    rfl
  | cons s ss ih =>
    cases h with
    | cons hs h =>
      rw [ih h, view_setSemaphore]
      have hval := view_value a hs
      show ((view a).setValue s (some _)).raise ss = ((view a).setValue s (((view a).value s).map (· + 1))).raise ss
      rw [hval]
      rfl

/-- A handler is a handler in the view. -/
theorem handler_handles (h : Abs.HandlerStep a a') : Handles (view a) (view a') := by
  obtain ⟨d, hw⟩ := h
  change Abs.Wakes (device g a.shared d).2 { a with shared := (device g a.shared d).1 } a' at hw
  cases hd : g.device a.shared.own d with
  | ok r =>
    obtain ⟨own, ss⟩ := r
    have hdev : device g a.shared d = ({ a.shared with own }, ss.map ownSemaphore) := by
      unfold device
      rw [hd]
    rw [hdev] at hw
    rw [wakes_view hw]
    exact .served hd
  | error e =>
    have hdev : device g a.shared d = ({ a.shared with handlerFailed := true }, []) := by
      unfold device
      rw [hd]
    rw [hdev] at hw
    cases hw
    exact .failed hd

end Steps

/-! ## Invariants -/

/-- The view of a start. -/
def View.start (own : g.Shared) (pc : g.Pc) (semaphores : SemId → Option Int) : View g where
  place := fun t => if t = mainThread then .outside pc else .gone
  value := semaphores
  memory := { own, monitor := fun _ => .new, handlerFailed := false }

variable {own : g.Shared} {pc : g.Pc} {semaphores : SemId → Option Int}

theorem view_boot : view (Abs.ofBoot (boot g own pc semaphores)) = View.start own pc semaphores := by
  unfold view View.start
  congr 1
  · funext t
    show placeOf (if t = mainThread then .run (.outside pc) else .gone) = _
    split <;> rfl
  · funext s
    show (((boot g own pc semaphores).semaphores (ownSemaphore s)).map Semaphore.new).map Semaphore.value = _
    unfold boot ownSemaphore
    simp only [Nat.unpair_pair]
    cases semaphores s <;> rfl

/-- The rule for invariants: what holds at the start and is kept by the steps of the threads and of the handlers. -/
theorem invariant {I : View g → Prop} (h0 : I (View.start own pc semaphores))
    (hthread : ∀ t a a', (Abs.system (boot g own pc semaphores)).Reachable a → Abs.ThreadStep t a a' →
      Step t (view a) (view a') → I (view a) → I (view a'))
    (hhandler : ∀ v v', Handles v v' → I v → I v') {a : Abs (client g)} (ha : (Abs.system (boot g own pc semaphores)).Reachable a) :
    I (view a) := by
  refine ha.invariant (I := fun a => I (view a)) ?_ ?_
  · rintro a rfl
    rw [view_boot]
    exact h0
  · rintro a a' ha hI (⟨t, h⟩ | h)
    · rcases threadStep_step (named_of_reachable ha) h with heq | hstep
      · rw [heq]
        exact hI
      · exact hthread t a a' ha h hstep hI
    · exact hhandler _ _ (handler_handles h) hI

/-- An invariant of the memory of the code alone. -/
theorem own_invariant {I : g.Shared → Prop} (h0 : I own)
    (hcode : ∀ {t m pc x m' r}, I m → g.code t m pc x = .ok (m', r) → I m')
    (hdevice : ∀ {m d m' ss}, I m → g.device m d = .ok (m', ss) → I m') {a : Abs (client g)}
    (ha : (Abs.system (boot g own pc semaphores)).Reachable a) : I a.shared.own := by
  refine invariant (I := fun v => I v.memory.own) h0 ?_ ?_ ha
  · intro t a a' _ _ hstep hI
    rcases hstep.own with heq | ⟨pc, x, r, -, hcode'⟩
    · rw [heq]
      exact hI
    · exact hcode hI hcode'
  · intro v v' hh hI
    cases hh with
    | served h =>
      rw [View.raise_memory]
      exact hdevice hI h
    | failed h => exact hI

end Guarded

end Nachos
