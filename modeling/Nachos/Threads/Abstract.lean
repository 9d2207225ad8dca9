import Mathlib.Logic.Relation
import Nachos.Threads.Thread

/-!
# Threads without a scheduler

What the threads do to the semaphores and to the shared memory, when which of them runs next is left open: any thread that is not
in a queue can take a step, and the device handlers run at any time. There is no processor, no ready list and no interrupt level.
The kernel is shown to refine this in Refinement; whatever holds here in every reachable state holds of the kernel.
-/

namespace Nachos

variable {c : Client}

/-- Where a thread is: nowhere (not started, or finished), at a point of the client's code, or in the loop of `P`. -/
inductive Ctl (Pc : Type) where
  | gone
  | run (pc : Pc)
  | inP (s : SemId) (pc : Pc)

/-- The threads, the semaphores and the shared memory. -/
structure Abs (c : Client) where
  ctl : Tid → Ctl c.Pc
  semaphore : SemId → Option Semaphore
  shared : c.Shared

namespace Semaphore

/-- The effect of `V`: the first waiting thread leaves the queue, and the value goes up. -/
def wake (x : Semaphore) : Semaphore :=
  { x with value := x.value + 1, queue := x.queue.tail, completedV := x.completedV + 1 }

/-- The end of `P`: the value goes down. -/
def take (x : Semaphore) : Semaphore := { x with value := x.value - 1, completedP := x.completedP + 1 }

/-- A thread goes to sleep in `P`. -/
def enqueue (x : Semaphore) (t : Tid) : Semaphore := { x with queue := x.queue ++ [t] }

end Semaphore

namespace Abs

/-- Thread `t` goes to `x`. -/
def setCtl (a : Abs c) (t : Tid) (x : Ctl c.Pc) : Abs c := { a with ctl := Function.update a.ctl t x }

/-- Semaphore `s` becomes `x`. -/
def setSemaphore (a : Abs c) (s : SemId) (x : Option Semaphore) : Abs c :=
  { a with semaphore := Function.update a.semaphore s x }

theorem setCtl_setCtl (a : Abs c) (t : Tid) (x y : Ctl c.Pc) : (a.setCtl t x).setCtl t y = a.setCtl t y := by
  unfold setCtl
  rw [Function.update_idem]

theorem setCtl_eq_self (a : Abs c) {t : Tid} {x : Ctl c.Pc} (h : a.ctl t = x) : a.setCtl t x = a := by
  unfold setCtl
  rw [← h, Function.update_eq_self]

theorem setCtl_self (a : Abs c) (t : Tid) (x : Ctl c.Pc) : (a.setCtl t x).ctl t = x := Function.update_self _ _ _

theorem setCtl_other (a : Abs c) {t t' : Tid} (h : t' ≠ t) (x : Ctl c.Pc) : (a.setCtl t x).ctl t' = a.ctl t' :=
  Function.update_of_ne h _ _

/-- What a call does, made by thread `t`, which goes on at `pc`. -/
inductive Effect (t : Tid) (pc : c.Pc) : Call c.Pc → Abs c → Abs c → Prop where
  | none (a : Abs c) : Effect t pc .none a (a.setCtl t (.run pc))
  | yield (a : Abs c) : Effect t pc .yield a (a.setCtl t (.run pc))
  | setStatus (st : MachineStatus) (a : Abs c) : Effect t pc (.setStatus st) a (a.setCtl t (.run pc))
  | setLevel (now : IntStatus) (a : Abs c) : Effect t pc (.setLevel now) a (a.setCtl t (.run pc))
  | oneTick (a : Abs c) : Effect t pc .oneTick a (a.setCtl t (.run pc))
  | v {s : SemId} {a : Abs c} {x : Semaphore} (hs : a.semaphore s = some x) :
      Effect t pc (.v s) a ((a.setCtl t (.run pc)).setSemaphore s (some x.wake))
  | take {s : SemId} {a : Abs c} {x : Semaphore} (hs : a.semaphore s = some x) (h : x.value ≠ 0) :
      Effect t pc (.p s) a ((a.setCtl t (.run pc)).setSemaphore s (some x.take))
  | sleep {s : SemId} {a : Abs c} {x : Semaphore} (hs : a.semaphore s = some x) (h : x.value = 0) :
      Effect t pc (.p s) a ((a.setCtl t (.inP s pc)).setSemaphore s (some (x.enqueue t)))
  | fork {t' : Tid} {pc' : c.Pc} {a : Abs c} (hne : t' ≠ t) (h : a.ctl t' = .gone) :
      Effect t pc (.fork t' pc') a ((a.setCtl t (.run pc)).setCtl t' (.run pc'))
  | finish (a : Abs c) : Effect t pc .finish a (a.setCtl t .gone)
  | newSemaphore {s : SemId} (v : Int) {a : Abs c} (hs : a.semaphore s = none) :
      Effect t pc (.newSemaphore s v) a ((a.setCtl t (.run pc)).setSemaphore s (some (Semaphore.new v)))
  | deleteSemaphore {s : SemId} {a : Abs c} (hs : ∀ x, a.semaphore s = some x → x.queue = []) :
      Effect t pc (.deleteSemaphore s) a ((a.setCtl t (.run pc)).setSemaphore s none)

/-- The `V` calls of a handler. -/
inductive Wakes : List SemId → Abs c → Abs c → Prop where
  | nil (a : Abs c) : Wakes [] a a
  | cons {s : SemId} {ss : List SemId} {a a' : Abs c} {x : Semaphore} (hs : a.semaphore s = some x)
      (h : Wakes ss (a.setSemaphore s (some x.wake)) a') : Wakes (s :: ss) a a'

/-- The steps of thread `t`: code with the call it makes, and another round of the loop of `P`. -/
inductive ThreadStep (t : Tid) : Abs c → Abs c → Prop where
  | code {a a' : Abs c} {pc pc' : c.Pc} {i : c.Input} {sh : c.Shared} {call : Call c.Pc} (h : a.ctl t = .run pc)
      (hcode : c.code t a.shared pc i = .ok (sh, call, pc')) (heff : Effect t pc' call { a with shared := sh } a') :
      ThreadStep t a a'
  | retestTake {a : Abs c} {s : SemId} {pc : c.Pc} {x : Semaphore} (h : a.ctl t = .inP s pc)
      (hs : a.semaphore s = some x) (hq : t ∉ x.queue) (hv : x.value ≠ 0) :
      ThreadStep t a ((a.setCtl t (.run pc)).setSemaphore s (some x.take))
  | retestSleep {a : Abs c} {s : SemId} {pc : c.Pc} {x : Semaphore} (h : a.ctl t = .inP s pc)
      (hs : a.semaphore s = some x) (hq : t ∉ x.queue) (hv : x.value = 0) :
      ThreadStep t a (a.setSemaphore s (some (x.enqueue t)))

/-- The steps of the handlers. -/
def HandlerStep (a a' : Abs c) : Prop :=
  ∃ d, Wakes (c.device a.shared d).2 { a with shared := (c.device a.shared d).1 } a'

/-- The steps. -/
inductive Step : Abs c → Abs c → Prop where
  | thread {a a' : Abs c} (t : Tid) (h : ThreadStep t a a') : Step a a'
  | handler {a a' : Abs c} (h : HandlerStep a a') : Step a a'

/-- Sequences of steps. -/
abbrev Steps : Abs c → Abs c → Prop := Relation.ReflTransGen Step

/-- What handlers do one after the other. -/
abbrev Handled : Abs c → Abs c → Prop := Relation.ReflTransGen HandlerStep

/-- While thread `t` has the processor, it takes at most one step, and handlers run after it. -/
def StepOf (t : Tid) (a a'' : Abs c) : Prop := ∃ a', (a' = a ∨ ThreadStep t a a') ∧ a'.Handled a''

theorem Handled.of_eq {a a' : Abs c} (h : a' = a) : Handled a a' := by
  rw [h]

theorem Handled.steps {a a' : Abs c} (h : Handled a a') : Steps a a' :=
  Relation.ReflTransGen.mono (fun _ _ h => Step.handler h) _ _ h

theorem Handled.stepOf {a a' : Abs c} (h : Handled a a') (t : Tid) : StepOf t a a' := ⟨a, Or.inl rfl, h⟩

theorem ThreadStep.stepOf {a a' : Abs c} {t : Tid} (h : ThreadStep t a a') : StepOf t a a' := ⟨a', Or.inr h, .refl⟩

theorem StepOf.steps {a a' : Abs c} {t : Tid} (h : StepOf t a a') : Steps a a' := by
  obtain ⟨a₁, rfl | h₁, hh⟩ := h
  · exact hh.steps
  · exact .head (.thread t h₁) hh.steps

/-- A thread or a handler uses a semaphore that is not there. -/
inductive Missing (a : Abs c) : Prop where
  | call {t : Tid} {pc pc' : c.Pc} {i : c.Input} {sh : c.Shared} {call : Call c.Pc} {s : SemId} (h : a.ctl t = .run pc)
      (hcode : c.code t a.shared pc i = .ok (sh, call, pc')) (hcall : call = .p s ∨ call = .v s) (hs : a.semaphore s = none)
  | retest {t : Tid} {s : SemId} {pc : c.Pc} (h : a.ctl t = .inP s pc) (hs : a.semaphore s = none)
  | device {d : c.Device} {before after : List SemId} {s : SemId} {a' : Abs c}
      (hd : (c.device a.shared d).2 = before ++ s :: after)
      (h : Wakes before { a with shared := (c.device a.shared d).1 } a') (hs : a'.semaphore s = none)

/-- The start of a client. -/
def ofBoot (b : Boot c) : Abs c where
  ctl := fun t => if t = mainThread then .run b.pc else .gone
  semaphore := fun s => (b.semaphores s).map Semaphore.new
  shared := b.shared

/-- The runs of a client without a scheduler. -/
def system (b : Boot c) : Transition.System (Abs c) where
  init := fun a => a = ofBoot b
  step := Step

end Abs

/-! ## The abstraction of a kernel state -/

/-- Where a thread with this stack is. -/
def ctl {Pc : Type} : List (Frame Pc) → Ctl Pc
  | [] => .gone
  | .code pc :: _ => .run pc
  | .semaphoreP s _ :: st =>
    match ctl st with
    | .run pc => .inP s pc
    | x => x
  | .setLevel _ :: st => ctl st
  | .restoreStatus _ :: st => ctl st
  | .runTail :: st => ctl st
  | .begin :: st => ctl st
  | .sleep _ :: st => ctl st

/-- The state of the kernel without what belongs to the scheduler. -/
def Kernel.abs (k : Kernel c) : Abs c where
  ctl := fun t => ctl (k.stack t)
  semaphore := k.semaphore
  shared := k.shared

end Nachos
