import Nachos.Machine.Run

/-!
# Tick accounting (machine/interrupt.cc, mipssim.cc, machine.cc)

Each frame on a stack tells with which status of the machine it goes on, so the status that a tick saves in a frame and restores after
other threads have run is the right one. From this, time is charged to the right counter.
-/

namespace Nachos

open Loop Transition

variable {Pc : Type}

/-! ## The status of the machine -/

/-- The status of the machine while a thread is at that point. -/
def Point.mode : Point Pc → MachineStatus
  | .oneInstruction | .oneTick => .user
  | .kernel _ _ | .run => .system

/-- The status of the machine while a thread goes on with these frames: only `Machine::Run` itself is in user mode. -/
def mode : List (Frame (Point Pc)) → MachineStatus
  | .code pc :: _ => pc.mode
  | _ => .system

/-- The status that a tick restores is that of the frames it returns to, and all other calls return to system mode. -/
def Moded : List (Frame (Point Pc)) → Prop
  | [] => True
  | .code _ :: st => Moded st
  | .restoreStatus oldStatus :: st => oldStatus = mode st ∧ Moded st
  | _ :: st => mode st = .system ∧ Moded st

/-- The threads that do not have the processor go on in system mode. -/
def OthersInMode (v : Processor (Point Pc)) : Prop :=
  ∀ t, t ≠ v.currentThread → mode (v.stack t) = .system ∧ Moded (v.stack t)

/-- The status invariant. -/
structure InMode (v : Processor (Point Pc)) : Prop where
  status : v.status = mode v.here
  here : Moded v.here
  others : OthersInMode v

/-- Which calls the machine makes where: those of the kernel's code in system mode; besides, it sets the status to that of the point
where it goes on. -/
inductive InModeCode : Point Pc → Call (Point Pc) → Point Pc → Prop where
  | call {pc pc' : Point Pc} {call : Call (Point Pc)} (hcall : call.isMachine = false) (h : pc.mode = .system) (h' : pc'.mode = .system)
      (hfork : ∀ t pc, call = .fork t pc → pc.mode = .system) : InModeCode pc call pc'
  | none {pc pc' : Point Pc} (h : pc.mode = pc'.mode) : InModeCode pc .none pc'
  | setStatus (pc pc' : Point Pc) : InModeCode pc (.setStatus pc'.mode) pc'
  | oneTick : InModeCode .oneTick .oneTick .oneInstruction

/-- The code of the machine keeps to this. -/
theorem machine_inModeCode {os : KernelCode} {t : Tid} {sh sh' : os.Shared} {pc pc' : Point os.Pc} {i : os.Input}
    {call : Call (Point os.Pc)} (h : (machine os).code t sh pc i = .ok (sh', call, pc')) : InModeCode pc call pc' := by
  cases pc with
  | kernel inHandler pc =>
    obtain ⟨⟨sh₁, request⟩, -, h⟩ := of_bind_ok h
    cases request with
    | call call₀ hcall pc₁ =>
      cases h
      refine .call ?_ rfl rfl ?_
      · cases call₀ <;> first | rfl | cases hcall
      · intro t pc hfork
        cases call₀ <;> cases hfork
        rfl
    | run =>
      cases h
      exact .none rfl
    | «return» =>
      dsimp only at h
      split at h
      · cases h
        exact .setStatus _ .oneTick
      · cases h
        exact .call rfl rfl rfl nofun
  | run =>
    cases h
    exact .setStatus _ .oneInstruction
  | oneInstruction =>
    obtain ⟨⟨sh₁, exception⟩, -, h⟩ := of_bind_ok h
    cases exception with
    | none =>
      cases h
      exact .none rfl
    | some pc₁ =>
      cases h
      exact .setStatus _ (.kernel true pc₁)
  | oneTick =>
    cases h
    exact .oneTick

section Steps

variable {v v' : Processor (Point Pc)}

theorem OthersInMode.put (h : OthersInMode v) {st : List (Frame (Point Pc))} (hst : Moded st) (hstatus : v.status = mode st) :
    InMode (v.put st) := by
  refine ⟨?_, ?_, ?_⟩
  · rw [Processor.here_put]
    exact hstatus
  · rw [Processor.here_put]
    exact hst
  · intro t ht
    rw [show (v.put st).stack t = v.stack t from Function.update_of_ne ht _ _]
    exact h t ht

/-- A thread that can be dispatched goes on in system mode. -/
theorem InMode.dispatch {st : List (Frame (Point Pc))} (h : InMode (v.put (.runTail :: st))) (n : Tid) :
    InMode { v.put (.runTail :: st) with currentThread := n } := by
  have hall (t : Tid) : mode ((v.put (.runTail :: st)).stack t) = .system ∧ Moded ((v.put (.runTail :: st)).stack t) := by
    by_cases ht : t = v.currentThread
    · subst ht
      refine ⟨?_, h.here⟩
      rw [show (v.put (.runTail :: st)).stack v.currentThread = .runTail :: st from Processor.here_put v _]
      rfl
    · exact h.others t ht
  have hstatus : v.status = .system := by
    have := h.status
    rw [Processor.here_put] at this
    exact this
  exact ⟨hstatus.trans (hall n).1.symm, (hall n).2, fun t _ => hall t⟩

/-- The processor is given up in system mode. -/
theorem OthersInMode.gives (h : OthersInMode v) {st : List (Frame (Point Pc))} (hg : v.Gives st v') (hv : v.status = .system)
    (hst : Moded st) (hmode : mode st = .system) : InMode v' := by
  cases hg with
  | keeps => exact h.put hst (hv.trans hmode.symm)
  | loses n => exact InMode.dispatch (h.put ⟨hmode, hst⟩ hv) n

theorem InMode.ticks (h : InMode v) (ht : v.Ticks v') : InMode v' := by
  cases ht with
  | done => exact ⟨h.status, h.here, h.others⟩
  | yields hg =>
    exact OthersInMode.gives (v := { v with stats := v.stats.tick v.status, level := .off, status := .system }) h.others hg rfl
      ⟨rfl, h.status, h.here⟩ rfl

theorem InMode.sets (h : InMode v) {now : IntStatus} (hs : v.Sets now v') : InMode v' := by
  cases hs with
  | plain => exact ⟨h.status, h.here, h.others⟩
  | ticks hnow hoff ht => exact InMode.ticks (v := { v with level := .on }) ⟨h.status, h.here, h.others⟩ ht

/-- A call of the kernel's code, in system mode. -/
theorem InMode.calls (h : InMode v) {call : Call (Point Pc)} (hcall : call.isMachine = false) (hmode : mode v.here = .system)
    (hfork : ∀ t pc, call = .fork t pc → pc.mode = .system) (hc : v.Calls call v') : InMode v' := by
  have hsystem : v.status = .system := h.status.trans hmode
  cases hc with
  | none => exact h
  | take | v => exact OthersInMode.put (v := { v with level := .off }) h.others ⟨hmode, h.here⟩ hsystem
  | wait => exact OthersInMode.put (v := { v with level := .off }) h.others ⟨rfl, hmode, h.here⟩ hsystem
  | yield hg => exact OthersInMode.gives (v := { v with level := .off }) h.others hg hsystem ⟨hmode, h.here⟩ rfl
  | @fork t ht hst pc =>
    have hothers : OthersInMode { v with level := .off, stack := Function.update v.stack t [.begin, .code pc] } := by
      intro t' ht'
      by_cases htt : t' = t
      · subst htt
        dsimp only
        rw [Function.update_self]
        exact ⟨rfl, hfork _ _ rfl, trivial⟩
      · dsimp only
        rw [Function.update_of_ne htt]
        exact h.others t' ht'
    exact hothers.put ⟨hmode, h.here⟩ hsystem
  | finish => exact OthersInMode.put (v := { v with level := .off }) h.others ⟨rfl, trivial⟩ hsystem
  | newSemaphore | deleteSemaphore => exact h
  | setStatus | oneTick => cases hcall
  | setLevel hs => exact h.sets hs

/-- `Scheduler::CheckToBeDestroyed` deletes a thread that does not have the processor. -/
theorem InMode.reaps (h : InMode v) (hr : v.Reaps v') : InMode v' := by
  cases hr with
  | none => exact h
  | @reap t ht hst =>
    have hhere : Processor.here { v with stack := Function.update v.stack t [] } = v.here := Function.update_of_ne ht.symm _ _
    refine ⟨?_, ?_, ?_⟩
    · rw [hhere]
      exact h.status
    · rw [hhere]
      exact h.here
    · intro t' ht'
      by_cases htt : t' = t
      · subst htt
        dsimp only
        rw [Function.update_self]
        exact ⟨rfl, trivial⟩
      · dsimp only
        rw [Function.update_of_ne htt]
        exact h.others t' ht'

/-- The step lemma. -/
theorem InMode.moves {Code : Point Pc → Call (Point Pc) → Point Pc → Prop} (h : InMode v)
    (hCode : ∀ pc call pc', Code pc call pc' → InModeCode pc call pc') {call : Option (Call (Point Pc))} (hm : v.Moves Code call v') :
    InMode v' := by
  have hhere := h.here
  have hstatus := h.status
  cases hm with
  | @code pc pc' rest call _ hst hcode hc =>
    rw [hst] at hhere hstatus
    have hput (hmode : pc.mode = pc'.mode) : InMode (v.put (.code pc' :: rest)) := h.others.put hhere (hstatus.trans hmode)
    cases hCode _ _ _ hcode with
    | call hcall hpc hpc' hfork =>
      refine InMode.calls (hput (hpc.trans hpc'.symm)) hcall ?_ hfork hc
      rw [Processor.here_put]
      exact hpc'
    | none hpc =>
      cases hc
      exact hput hpc
    | setStatus =>
      cases hc
      exact OthersInMode.put (v := { v with status := pc'.mode }) h.others hhere rfl
    | oneTick =>
      cases hc with
      | oneTick ht => exact (hput rfl).ticks ht
  | @setLevel now rest _ hst hs =>
    rw [hst] at hhere hstatus
    exact (h.others.put hhere.2 (hstatus.trans hhere.1.symm)).sets hs
  | @restoreStatus m rest hst =>
    rw [hst] at hhere
    exact OthersInMode.put (v := { v with status := m }) h.others hhere.2 hhere.1
  | @runTail rest _ hst hr =>
    rw [hst] at hhere hstatus
    exact (h.others.put hhere.2 (hstatus.trans hhere.1.symm)).reaps hr
  | @begin rest v₁ hst hr =>
    rw [hst] at hhere hstatus
    have h₁ := (h.others.put hhere.2 (hstatus.trans hhere.1.symm)).reaps hr
    have hhere₁ : v₁.here = rest := hr.here.1.trans (Processor.here_put v rest)
    have hmode₁ : mode v₁.here = .system := by
      rw [hhere₁]
      exact hhere.1
    refine h₁.others.put ⟨hhere.1, hhere.2⟩ (h₁.status.trans hmode₁)
  | idle hst when =>
    rw [hst] at hstatus
    refine ⟨?_, h.here, h.others⟩
    show MachineStatus.system = mode v.here
    rw [hst]
    rfl
  | @switch fin rest hst n =>
    rw [hst] at hhere hstatus
    exact InMode.dispatch (h.others.put hhere hstatus) n
  | @take s old rest hst =>
    rw [hst] at hhere hstatus
    exact h.others.put hhere hstatus
  | @wait s old rest hst =>
    rw [hst] at hhere hstatus
    exact h.others.put ⟨rfl, hhere⟩ hstatus

end Steps

/-! ## The clock -/

/-- Time goes by from `s` to `s'`, with `user` ticks in user mode. -/
structure Charges (s s' : Statistics) (user : Int) : Prop where
  total : s'.totalTicks - s.totalTicks = (s'.idleTicks - s.idleTicks) + (s'.systemTicks - s.systemTicks) + (s'.userTicks - s.userTicks)
  user : s'.userTicks = s.userTicks + user
  le : s.totalTicks ≤ s'.totalTicks

theorem Charges.refl (s : Statistics) : Charges s s 0 := ⟨by omega, by omega, le_refl _⟩

theorem Charges.trans {s s' s'' : Statistics} {m n : Int} (h : Charges s s' m) (h' : Charges s' s'' n) : Charges s s'' (m + n) := by
  have htotal := h.total
  have htotal' := h'.total
  have huser := h.user
  have huser' := h'.user
  exact ⟨by omega, by omega, h.le.trans h'.le⟩

theorem charges_system (s : Statistics) : Charges s (s.tick .system) 0 := by
  unfold Statistics.tick
  rw [if_pos rfl]
  exact ⟨by dsimp only; omega, by dsimp only; omega, by dsimp only [systemTick]; omega⟩

theorem charges_user (s : Statistics) : Charges s (s.tick .user) 1 := by
  unfold Statistics.tick
  rw [if_neg (by decide)]
  exact ⟨by dsimp only; omega, rfl, by dsimp only [userTick]; omega⟩

theorem charges_advance (s : Statistics) (when : Int) : Charges s (s.advance when) 0 := by
  unfold Statistics.advance
  split
  · exact ⟨by dsimp only; omega, by dsimp only; omega, by dsimp only; omega⟩
  · exact .refl s

section Steps

variable {v v' : Processor (Point Pc)}

theorem gives_stats {st : List (Frame (Point Pc))} (h : v.Gives st v') : v'.stats = v.stats := by
  cases h with
  | keeps => rfl
  | loses n => rfl

theorem ticks_stats (h : v.Ticks v') : v'.stats = v.stats.tick v.status := by
  cases h with
  | done => rfl
  | yields hg => exact gives_stats hg

/-- Enabling interrupts takes a tick in system mode, or no time. -/
theorem sets_charges {now : IntStatus} (h : v.Sets now v') (hs : v.status = .system) : Charges v.stats v'.stats 0 := by
  cases h with
  | plain => exact .refl _
  | ticks hnow hoff ht =>
    rw [ticks_stats ht]
    dsimp only
    rw [hs]
    exact charges_system _

theorem reaps_stats (h : v.Reaps v') : v'.stats = v.stats := by
  cases h with
  | none => rfl
  | reap => rfl

/-- A call of the kernel's code takes a tick in system mode, or no time. -/
theorem calls_charges {call : Call (Point Pc)} (hcall : call.isMachine = false) (h : v.Calls call v') (hs : v.status = .system) :
    Charges v.stats v'.stats 0 := by
  cases h with
  | none | take | wait | v | fork | finish | newSemaphore | deleteSemaphore => exact .refl _
  | yield hg =>
    rw [gives_stats hg]
    exact .refl _
  | setLevel hl => exact sets_charges hl hs
  | setStatus | oneTick => cases hcall

/-- The step lemma: each step charges its time, and a tick in user mode is one that `Machine::Run` calls. -/
theorem InMode.charges {Code : Point Pc → Call (Point Pc) → Point Pc → Prop} (h : InMode v)
    (hCode : ∀ pc call pc', Code pc call pc' → InModeCode pc call pc') {call : Option (Call (Point Pc))} (hm : v.Moves Code call v') :
    Charges v.stats v'.stats (if Call.isOneTick call then 1 else 0) := by
  have hhere := h.here
  have hstatus := h.status
  cases hm with
  | @code pc pc' rest call _ hst hcode hc =>
    rw [hst] at hstatus
    cases hCode _ _ _ hcode with
    | call hcall hpc hpc' hfork =>
      have hnot : Call.isOneTick (some call) = false := by cases call <;> first | rfl | cases hcall
      rw [hnot]
      exact calls_charges (v := v.put (.code pc' :: rest)) hcall hc (hstatus.trans hpc)
    | none hpc =>
      cases hc
      exact .refl _
    | setStatus =>
      cases hc
      exact .refl _
    | oneTick =>
      cases hc with
      | oneTick ht =>
        rw [ticks_stats ht]
        show Charges v.stats (v.stats.tick v.status) 1
        rw [hstatus]
        exact charges_user _
  | @setLevel now rest _ hst hs =>
    rw [hst] at hstatus
    exact sets_charges (v := v.put rest) hs hstatus
  | restoreStatus | switch | take | wait => exact .refl _
  | runTail hst hr =>
    rw [reaps_stats hr]
    exact .refl _
  | @begin rest v₁ hst hr =>
    show Charges v.stats v₁.stats 0
    rw [reaps_stats hr]
    exact .refl _
  | idle hst when => exact charges_advance _ when

end Steps

/-! ## Runs -/

/-- The accounts of the machine, after a number of iterations of the loop of `Machine::Run` that have reached `OneTick`. -/
structure Accounted {os : KernelCode} (k : Kernel (machine os)) (iterations : Nat) : Prop where
  total : k.stats.totalTicks = k.stats.idleTicks + k.stats.systemTicks + k.stats.userTicks
  /-- One tick in user mode for each iteration. -/
  user : k.stats.userTicks = iterations
  /-- No step turns the clock back. -/
  forward : ∀ ch k', k.AllowedStep ch → k.step ch = .ok k' → k.stats.totalTicks ≤ k'.stats.totalTicks
  /-- `Machine::Run` calls `OneTick` in user mode. -/
  run : ∀ ch, k.nextCall ch = some .oneTick → k.status = .user
  /-- The code of the kernel enables interrupts in system mode. -/
  enable : ∀ ch, k.nextCall ch = some (.setLevel .on) → k.status = .system
  /-- So do the calls of the kernel that set the level back. -/
  setBack : ∀ rest, k.stack k.currentThread = .setLevel .on :: rest → k.status = .system

namespace Kernel

variable {os : KernelCode} {shared : os.Shared} {pc : os.Pc} {semaphores : SemId → Option Int}

theorem codes_inMode {k : Kernel (machine os)} (pc : Point os.Pc) (call : Call (Point os.Pc)) (pc' : Point os.Pc)
    (h : k.Codes pc call pc') : InModeCode pc call pc' := by
  obtain ⟨i, sh, h⟩ := h
  exact machine_inModeCode h

theorem inMode_boot : InMode (os.boot shared pc semaphores).kernel.processor := by
  refine ⟨rfl, ⟨rfl, trivial⟩, ?_⟩
  intro t ht
  rw [show (os.boot shared pc semaphores).kernel.processor.stack t = [] from (os.boot shared pc semaphores).stack_other ht]
  exact ⟨rfl, trivial⟩

/-- The invariant of the runs. -/
theorem charged {x : Kernel (machine os) × Nat} (hx : (iterations (os.boot shared pc semaphores)).Reachable x) :
    (Kernel.system (os.boot shared pc semaphores)).Reachable x.1 ∧ InMode x.1.processor ∧ Charges .new x.1.stats x.2 := by
  induction hx with
  | @init x h =>
    obtain ⟨hk, hn⟩ := h
    rw [hk, hn]
    exact ⟨.init rfl, inMode_boot, .refl _⟩
  | @step x y hx hstep ih =>
    obtain ⟨ch, hallowed, hstep, hcount⟩ := hstep
    obtain ⟨hr, hmode, hcharges⟩ := ih
    have hmoves := step_moves (good_of_reachable hr) hallowed hstep
    have hstep' : Charges x.1.stats y.1.stats (if Call.isOneTick (x.1.nextCall ch) then 1 else 0) := hmode.charges codes_inMode hmoves
    refine ⟨hr.step ⟨ch, hallowed, hstep⟩, hmode.moves codes_inMode hmoves, ?_⟩
    have hcharges' := hcharges.trans hstep'
    have hn : (x.2 : Int) + (if Call.isOneTick (x.1.nextCall ch) then 1 else 0) = y.2 := by
      rw [hcount]
      split <;> simp
    rw [hn] at hcharges'
    exact hcharges'

/-- The accounts are right in every reachable state, whatever the code of the kernel and the user programs are. -/
theorem accounted {k : Kernel (machine os)} {n : Nat} (h : (iterations (os.boot shared pc semaphores)).Reachable (k, n)) :
    Accounted k n := by
  obtain ⟨hr, hmode, hcharges⟩ : (Kernel.system (os.boot shared pc semaphores)).Reachable k ∧ InMode k.processor ∧
    Charges .new k.stats n := charged h
  have hG := good_of_reachable hr
  have hcode {ch : Choice (machine os)} {call : Call (Point os.Pc)} (hnext : k.nextCall ch = some call) :
      ∃ pc pc', k.status = pc.mode ∧ InModeCode pc call pc' := by
    unfold nextCall at hnext
    split at hnext
    · rename_i pc rest hst
      split at hnext
      · rename_i sh call' pc' hcode
        obtain rfl := Option.some.inj hnext
        exact ⟨pc, pc', hmode.status.trans (congrArg mode hst), machine_inModeCode hcode⟩
      · cases hnext
    · cases hnext
  refine ⟨?_, ?_, ?_, ?_, ?_, ?_⟩
  · have htotal := hcharges.total
    unfold Statistics.new at htotal
    dsimp only at htotal
    omega
  · have huser := hcharges.user
    unfold Statistics.new at huser
    dsimp only at huser
    omega
  · intro ch k' hallowed hstep
    exact (hmode.charges codes_inMode (step_moves hG hallowed hstep)).le
  · intro ch hnext
    obtain ⟨pc, pc', hstatus, hcall⟩ := hcode hnext
    cases hcall with
    | call hcall => cases hcall
    | oneTick => exact hstatus
  · intro ch hnext
    obtain ⟨pc, pc', hstatus, hcall⟩ := hcode hnext
    cases hcall with
    | call hcall h => exact hstatus.trans h
  · intro rest hst
    exact hmode.status.trans (congrArg mode hst)

/-- A kernel that runs a program in two threads; all instructions but the first are a system call that waits for a device. The shared
state is the number of instructions. -/
def twoPrograms : KernelCode where
  Shared := Nat
  Pc := Nat
  Input := Unit
  Device := Unit
  code := fun _ instructions pc _ =>
    match pc with
    | 0 => .ok (instructions, .call (.fork 1 1) rfl 1)
    | 1 => .ok (instructions, .run)
    | 2 => .ok (instructions, .call (.p 0) rfl 3)
    | _ => .ok (instructions, .return)
  oneInstruction := fun _ instructions _ => .ok (instructions + 1, if instructions = 0 then none else some 2)
  device := fun instructions _ => (instructions, [0])

/-- A run of it with an interrupt of the timer in the first tick of the program, and one of the device for the time 100, when both
threads wait. -/
def twoProgramsRun : Option (Kernel (machine twoPrograms)) :=
  let go : Choice (machine twoPrograms) := { input := (), due := [] }
  let timer : Choice (machine twoPrograms) := { input := (), due := [.timer] }
  let device : Choice (machine twoPrograms) := { input := (), due := [.device ()], when := 100 }
  (twoPrograms.boot (0 : Nat) (0 : Nat) fun s => if s = 0 then some 0 else none).kernel.execute
    (List.replicate 6 go ++ [timer] ++ List.replicate 12 go ++ [device] ++ List.replicate 6 go)

theorem accounted_twoPrograms : ∃ (k : Kernel (machine twoPrograms)) (n : Nat),
    k.stats = { totalTicks := 111, idleTicks := 59, systemTicks := 50, userTicks := 2 } ∧ Accounted k n := by
  have hrun : twoProgramsRun.map (fun k => k.stats) = some { totalTicks := 111, idleTicks := 59, systemTicks := 50, userTicks := 2 } := by
    decide +kernel
  obtain ⟨k, hk, hstats⟩ := Option.map_eq_some_iff.1 hrun
  obtain ⟨n, hn⟩ := iterations_reachable.1 (reachable_of_execute (.init rfl) hk)
  exact ⟨k, n, hstats, accounted hn⟩

end Kernel

end Nachos
