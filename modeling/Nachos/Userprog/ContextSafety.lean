import Nachos.Threads.Bookkeeping
import Nachos.Userprog.Context

/-!
# The CPU comes back

While a thread with an address space runs user code, the CPU has the page table of that address space. What the thread has saved is its
own, and the address space is not loaded again, so after the switch back the CPU is what it was.
-/

namespace Nachos

variable {c : Client}

/-- The loop over the registers copies them all. -/
theorem copyRegisters_eq (dst src : Reg → BitVec 32) : copyRegisters dst src = src := by
  have hfold (l : List Reg) (dst : Reg → BitVec 32) (i : Reg) :
      (l.foldl (fun dst i => Function.update dst i (src i)) dst) i = if i ∈ l then src i else dst i := by
    induction l generalizing dst with
    | nil => simp
    | cons j l ih =>
      rw [List.foldl_cons, ih]
      by_cases hij : i = j
      · subst hij
        simp
      · simp [hij]
  funext i
  exact (hfold _ dst i).trans (if_pos (List.mem_finRange i))

namespace Cpu

variable {m : Cpu} {t : Tid}

/-- The CPU has the page table of the thread, if the thread has an address space. -/
def Mapped (m : Cpu) (t : Tid) : Prop :=
  ∀ space, m.space t = some space → m.pageTable = some (m.addrSpace space).pageTable ∧ m.pageTableSize = (m.addrSpace space).numPages

/-- What a thread leaves as it was: what the other threads have, and their address spaces. -/
structure Apart (t : Tid) (m m' : Cpu) : Prop where
  space : ∀ t', t' ≠ t → m'.space t' = m.space t'
  userRegisters : ∀ t', t' ≠ t → m'.userRegisters t' = m.userRegisters t'
  addrSpace : ∀ t' space, t' ≠ t → m.space t' = some space → m'.addrSpace space = m.addrSpace space

theorem Apart.refl (t : Tid) (m : Cpu) : Apart t m m := ⟨fun _ _ => rfl, fun _ _ => rfl, fun _ _ _ _ => rfl⟩

theorem Apart.trans {m₁ m₂ m₃ : Cpu} (h : Apart t m₁ m₂) (h' : Apart t m₂ m₃) : Apart t m₁ m₃ where
  space t' ht := (h'.space t' ht).trans (h.space t' ht)
  userRegisters t' ht := (h'.userRegisters t' ht).trans (h.userRegisters t' ht)
  addrSpace t' space ht hs := (h'.addrSpace t' space ht ((h.space t' ht).trans hs)).trans (h.addrSpace t' space ht hs)

/-! ## The code of a thread -/

/-- An address space that no thread is in changes. -/
theorem updated_addrSpace {space : SpaceId} (h : ∀ t, m.space t ≠ some space) (s : AddrSpace) {t : Tid} {space' : SpaceId}
    (hs : m.space t = some space') : Function.update m.addrSpace space s space' = m.addrSpace space' := by
  refine Function.update_of_ne ?_ _ _
  rintro rfl
  exact h t hs

theorem work_apart {w : Work} (h : m.Allowed w) : Apart t m (m.work t w) := by
  cases w with
  | writeRegister num value => exact ⟨fun _ _ => rfl, fun _ _ => rfl, fun _ _ _ _ => rfl⟩
  | newAddrSpace space pageTable => exact ⟨fun _ _ => rfl, fun _ _ => rfl, fun _ _ _ hs => updated_addrSpace h _ hs⟩
  | load space numPages => exact ⟨fun _ _ => rfl, fun _ _ => rfl, fun _ _ _ hs => updated_addrSpace h _ hs⟩
  | execute space => exact ⟨fun _ ht => Function.update_of_ne ht _ _, fun _ _ => rfl, fun _ _ _ _ => rfl⟩

theorem work_mapped {w : Work} (hm : m.Mapped t) (h : m.Allowed w) : (m.work t w).Mapped t := by
  cases w with
  | writeRegister num value => exact hm
  | newAddrSpace space pageTable =>
    intro space' hs
    obtain ⟨hp, hn⟩ := hm space' hs
    rw [show (m.work t (.newAddrSpace space pageTable)).addrSpace space' = m.addrSpace space' from updated_addrSpace h _ hs]
    exact ⟨hp, hn⟩
  | load space numPages =>
    intro space' hs
    obtain ⟨hp, hn⟩ := hm space' hs
    rw [show (m.work t (.load space numPages)).addrSpace space' = m.addrSpace space' from updated_addrSpace h _ hs]
    exact ⟨hp, hn⟩
  | execute space =>
    intro space' hs
    have hspace : (m.work t (.execute space)).space t = some space := Function.update_self _ _ _
    obtain rfl : space = space' := Option.some.inj (hspace.symm.trans hs)
    exact ⟨rfl, rfl⟩

theorem works_apart {ws : List Work} (h : m.AllowedAll t ws) : Apart t m (ws.foldl (work t) m) := by
  induction ws generalizing m with
  | nil => exact .refl t m
  | cons w ws ih => exact (work_apart h.1).trans (ih h.2)

theorem works_mapped {ws : List Work} (hm : m.Mapped t) (h : m.AllowedAll t ws) : (ws.foldl (work t) m).Mapped t := by
  induction ws generalizing m with
  | nil => exact hm
  | cons w ws ih => exact ih (work_mapped hm h.1) h.2

/-! ## Scheduler::Run -/

theorem switchOut_none (h : m.space t = none) : m.switchOut t = m := by
  unfold switchOut
  rw [h]

theorem switchOut_some {space : SpaceId} (h : m.space t = some space) :
    m.switchOut t = { m with userRegisters := Function.update m.userRegisters t m.registers } := by
  unfold switchOut
  rw [h]
  unfold saveState saveUserState
  rw [copyRegisters_eq]

theorem switchIn_none (h : m.space t = none) : m.switchIn t = m := by
  unfold switchIn
  rw [h]

theorem switchIn_some {space : SpaceId} (h : m.space t = some space) :
    m.switchIn t =
      { m with
        registers := m.userRegisters t
        pageTable := some (m.addrSpace space).pageTable
        pageTableSize := (m.addrSpace space).numPages } := by
  unfold switchIn
  rw [h]
  unfold restoreState restoreUserState
  rw [copyRegisters_eq]

/-- Saving the registers only reads the CPU. -/
theorem switchOut_fields (m : Cpu) (t : Tid) : (m.switchOut t).registers = m.registers ∧ (m.switchOut t).pageTable = m.pageTable ∧
    (m.switchOut t).pageTableSize = m.pageTableSize ∧ (m.switchOut t).space = m.space ∧ (m.switchOut t).addrSpace = m.addrSpace := by
  cases h : m.space t with
  | none =>
    rw [switchOut_none h]
    exact ⟨rfl, rfl, rfl, rfl, rfl⟩
  | some space =>
    rw [switchOut_some h]
    exact ⟨rfl, rfl, rfl, rfl, rfl⟩

theorem switchOut_apart (m : Cpu) (t : Tid) : Apart t m (m.switchOut t) := by
  cases h : m.space t with
  | none =>
    rw [switchOut_none h]
    exact .refl t m
  | some space =>
    rw [switchOut_some h]
    exact ⟨fun _ _ => rfl, fun _ ht => Function.update_of_ne ht _ _, fun _ _ _ _ => rfl⟩

theorem switchIn_apart (m : Cpu) (t : Tid) : Apart t m (m.switchIn t) := by
  cases h : m.space t with
  | none =>
    rw [switchIn_none h]
    exact .refl t m
  | some space =>
    rw [switchIn_some h]
    exact ⟨fun _ _ => rfl, fun _ _ => rfl, fun _ _ _ _ => rfl⟩

theorem switchIn_mapped (m : Cpu) (t : Tid) : (m.switchIn t).Mapped t := by
  intro space hs
  cases h : m.space t with
  | none =>
    rw [switchIn_none h] at hs
    cases h.symm.trans hs
  | some space' =>
    rw [switchIn_some h] at hs ⊢
    obtain rfl : space' = space := Option.some.inj (h.symm.trans hs)
    exact ⟨rfl, rfl⟩

end Cpu

/-- The stack of a thread that does not have the processor. -/
theorem Placed.other {Pc : Type} {l : Loc} {ts : ThreadStatus} {st : List (Frame Pc)} (h : Placed false l ts st) :
    (∃ rest, st = .begin :: rest) ∨ (∃ rest, st = .runTail :: rest) ∨ st = [] := by
  have parked {o : Option SemId} (h : Parked o st) : (∃ rest, st = .begin :: rest) ∨ ∃ rest, st = .runTail :: rest := by
    cases h with
    | yielded h => exact Or.inr ⟨_, rfl⟩
    | new h => exact Or.inl ⟨_, rfl⟩
    | inP s h => exact Or.inr ⟨_, rfl⟩
  cases h with
  | ready h => exact (parked h).imp id Or.inl
  | waiting h => exact (parked h).imp id Or.inl
  | carcass => exact Or.inr (Or.inl ⟨_, rfl⟩)
  | absent => exact Or.inr (Or.inr rfl)

namespace Context

open Kernel

variable {x x' : Context c}

/-! ## Steps -/

/-- What a step does. -/
theorem of_step (h : Step x x') : ∃ ws, x.cpu.AllowedAll x.kernel.currentThread ws ∧ Goes x.kernel x'.kernel ∧
    x'.cpu = if x'.kernel.inRun x.kernel.currentThread then (x.worked ws).switchOut x.kernel.currentThread else x.worked ws := by
  obtain ⟨ch, ws, hallowed, hws, h⟩ := h
  unfold step at h
  obtain ⟨k, hk, h⟩ := Loop.of_bind_ok h
  cases h
  exact ⟨ws, hws, step_goes hallowed hk, rfl⟩

theorem worked_apart {ws : List Work} (h : x.cpu.AllowedAll x.kernel.currentThread ws) :
    x.cpu.Apart x.kernel.currentThread (x.worked ws) := by
  unfold worked
  split
  · exact Cpu.works_apart h
  · exact x.cpu.switchIn_apart _
  · exact .refl _ _

/-- After the rest of `Scheduler::Run` the CPU has the page table of the thread, and its code keeps it. -/
theorem worked_mapped {ws : List Work} (h : x.cpu.AllowedAll x.kernel.currentThread ws)
    (hm : x.kernel.inRun x.kernel.currentThread = false → x.cpu.Mapped x.kernel.currentThread) :
    (x.worked ws).Mapped x.kernel.currentThread := by
  unfold worked
  unfold inRun at hm
  split
  · rename_i hst
    rw [hst] at hm
    exact Cpu.works_mapped (hm rfl) h
  · exact x.cpu.switchIn_mapped _
  · rename_i hcode hrun
    refine hm ?_
    split
    · rename_i st hst
      exact (hrun st hst).elim
    · rfl

/-- A step leaves what the other threads have. -/
theorem step_apart (h : Step x x') : x.cpu.Apart x.kernel.currentThread x'.cpu := by
  obtain ⟨ws, hws, -, hcpu⟩ := of_step h
  rw [hcpu]
  split
  · exact (worked_apart hws).trans (Cpu.switchOut_apart _ _)
  · exact worked_apart hws

/-! ## The invariant -/

/-- A thread that runs user code has its page table, and only threads that have run have an address space. -/
structure Inv (x : Context c) : Prop where
  good : Good x.kernel
  mapped : x.kernel.inRun x.kernel.currentThread = false → x.cpu.Mapped x.kernel.currentThread
  started : ∀ t, x.cpu.space t ≠ none → x.kernel.threadStatus t ≠ .justCreated ∧
    (t = x.kernel.currentThread ∨ ∀ st, x.kernel.stack t ≠ .begin :: st)

theorem current_created {k : Kernel c} (hG : Good k) : k.threadStatus k.currentThread ≠ .justCreated := by
  obtain ⟨loc, hI⟩ := hG.inv
  intro h
  have hp := hI.placed_current
  rw [h] at hp
  exact hp.current.1 hp.of_justCreated.2.2

theorem stack_current {k : Kernel c} (hG : Good k) : k.stack k.currentThread ≠ [] := by
  obtain ⟨loc, hI⟩ := hG.inv
  exact hI.placed_current.current.1

/-- A thread that does not run is new, is in `Scheduler::Run` or is gone. -/
theorem stack_other {k : Kernel c} (hG : Good k) {t : Tid} (ht : t ≠ k.currentThread) :
    (∃ st, k.stack t = .begin :: st) ∨ k.inRun t = true ∨ k.stack t = [] := by
  obtain ⟨loc, hI⟩ := hG.inv
  exact (hI.placed_other ht).other.imp id (Or.imp (fun ⟨_, hst⟩ => inRun_of hst) id)

theorem inv_init {b : Boot c} {x : Context c} (h : (system b).init x) : Inv x := by
  obtain ⟨hk, -, -, hspace⟩ := h
  refine ⟨hk ▸ good_boot b, ?_, fun t ht => absurd (hspace t) ht⟩
  intro _ space hs
  rw [hspace] at hs
  cases hs

/-- The invariant is kept by every step. -/
theorem step_inv (hx : Inv x) (h : Step x x') (hG : Good x'.kernel) : Inv x' := by
  obtain ⟨ws, hws, hgoes, hcpu⟩ := of_step h
  have hapart := step_apart h
  have hstarted (t : Tid) (ht : x'.cpu.space t ≠ none) (hcur : t ≠ x.kernel.currentThread) :
      (x'.kernel.stack t = x.kernel.stack t ∨ x'.kernel.stack t = []) ∧ ∀ st, x.kernel.stack t ≠ .begin :: st := by
    rw [hapart.space t hcur] at ht
    obtain ⟨hts, hst⟩ := hx.started t ht
    exact ⟨hgoes.stack t hcur hts, hst.resolve_left hcur⟩
  refine ⟨hG, ?_, ?_⟩
  · intro hrun
    cases hold : x'.kernel.inRun x.kernel.currentThread with
    | false =>
      -- the thread goes on
      have hcur : x'.kernel.currentThread = x.kernel.currentThread := hgoes.current.resolve_right (by simp [hold])
      rw [hold, if_neg Bool.false_ne_true] at hcpu
      rw [hcur, hcpu]
      exact worked_mapped hws hx.mapped
    | true =>
      -- the thread that has been switched to is new, or else inside `Scheduler::Run`
      intro space hs
      have hcur : x'.kernel.currentThread ≠ x.kernel.currentThread := by
        intro heq
        rw [heq, hold] at hrun
        cases hrun
      have hne : x'.cpu.space x'.kernel.currentThread ≠ none := by
        rw [hs]
        exact nofun
      obtain ⟨hst, hbegin⟩ := hstarted _ hne hcur
      replace hst := hst.resolve_right (stack_current hG)
      obtain ⟨st, hb⟩ | hin | hnil := stack_other hx.good hcur
      · exact (hbegin st hb).elim
      · obtain ⟨st, hin⟩ := of_inRun hin
        rw [inRun_of (hst.trans hin)] at hrun
        cases hrun
      · exact (stack_current hG (hst.trans hnil)).elim
  · intro t ht
    by_cases hcur : t = x.kernel.currentThread
    · subst hcur
      refine ⟨hgoes.created _ (current_created hx.good), hgoes.current.imp Eq.symm ?_⟩
      intro hrun st hst
      obtain ⟨st', hst'⟩ := of_inRun hrun
      cases hst.symm.trans hst'
    · obtain ⟨hst, hbegin⟩ := hstarted t ht hcur
      rw [hapart.space t hcur] at ht
      refine ⟨hgoes.created t (hx.started t ht).1, Or.inr ?_⟩
      intro st hb
      obtain hst | hst := hst
      · exact hbegin st (hst.symm.trans hb)
      · cases hst.symm.trans hb

/-- The kernel of a reachable state is in good order. -/
theorem good_of_reachable {b : Boot c} (h : (system b).Reachable x) : Good x.kernel :=
  Kernel.good_of_reachable ((kernel_simulation b).reachable h)

theorem inv_of_reachable {b : Boot c} (h : (system b).Reachable x) : Inv x :=
  h.invariant (I := Inv) (fun _ => inv_init) fun _ _ hr hx hs => step_inv hx hs (good_of_reachable (.step hr hs))

/-! ## Away -/

/-- Another thread makes a step. -/
def StepAway (t : Tid) (x x' : Context c) : Prop := Step x x' ∧ x.kernel.currentThread ≠ t

/-- What a thread finds that was switched out with these registers in this address space. -/
structure Out (t : Tid) (registers : Reg → BitVec 32) (id : SpaceId) (s : AddrSpace) (x : Context c) : Prop where
  created : x.kernel.threadStatus t ≠ .justCreated
  inRun : x.kernel.inRun t = true ∨ x.kernel.stack t = []
  space : x.cpu.space t = some id
  addrSpace : x.cpu.addrSpace id = s
  userRegisters : x.cpu.userRegisters t = registers

/-- The other threads leave it alone. -/
theorem Out.step {t : Tid} {registers : Reg → BitVec 32} {id : SpaceId} {s : AddrSpace} (ho : Out t registers id s x)
    (h : StepAway t x x') : Out t registers id s x' := by
  obtain ⟨hstep, hne⟩ := h
  obtain ⟨ws, -, hgoes, -⟩ := of_step hstep
  have hapart := step_apart hstep
  refine ⟨hgoes.created t ho.created, ?_, (hapart.space t hne.symm).trans ho.space,
    (hapart.addrSpace t id hne.symm ho.space).trans ho.addrSpace, (hapart.userRegisters t hne.symm).trans ho.userRegisters⟩
  obtain hst | hst := hgoes.stack t hne.symm ho.created
  · refine ho.inRun.imp ?_ hst.trans
    intro h
    obtain ⟨st, h⟩ := of_inRun h
    exact inRun_of (hst.trans h)
  · exact Or.inr hst

theorem space_away {t : Tid} (h : Relation.ReflTransGen (StepAway t) x x') : x'.cpu.space t = x.cpu.space t := by
  induction h with
  | refl => rfl
  | tail _ hlast ih => exact ((step_apart hlast.1).space t hlast.2.symm).trans ih

/-- A thread with an address space is switched out. -/
theorem out_of_step {t : Tid} (hx : Inv x) (ht : x.kernel.currentThread = t) (h : Step x x') (hrun : x'.kernel.inRun t = true)
    {id : SpaceId} (hs : x'.cpu.space t = some id) :
    Out t x'.cpu.registers id (x'.cpu.addrSpace id) x' ∧ x'.cpu.pageTable = some (x'.cpu.addrSpace id).pageTable ∧
      x'.cpu.pageTableSize = (x'.cpu.addrSpace id).numPages := by
  subst ht
  obtain ⟨ws, hws, hgoes, hcpu⟩ := of_step h
  have hmapped := worked_mapped hws hx.mapped
  rw [if_pos hrun] at hcpu
  rw [hcpu] at hs
  have hspace : (x.worked ws).space x.kernel.currentThread = some id := by
    rwa [(Cpu.switchOut_fields _ _).2.2.2.1] at hs
  rw [Cpu.switchOut_some hspace] at hcpu
  rw [hcpu]
  exact ⟨⟨hgoes.created _ (current_created hx.good), Or.inl hrun, by rw [hcpu]; exact hspace, by rw [hcpu],
    by rw [hcpu]; exact Function.update_self _ _ _⟩, hmapped id hspace⟩

/-- The thread gets the processor back: it goes on behind `SWITCH`, and finds the CPU as it was. -/
theorem Out.back {t : Tid} {registers : Reg → BitVec 32} {id : SpaceId} {s : AddrSpace} (ho : Out t registers id s x)
    (hG : Good x.kernel) (ht : x.kernel.currentThread = t) (h : Step x x') :
    x.kernel.inRun t = true ∧ x'.cpu.registers = registers ∧ x'.cpu.pageTable = some s.pageTable ∧
      x'.cpu.pageTableSize = s.numPages := by
  subst ht
  obtain ⟨ws, -, -, hcpu⟩ := of_step h
  have hin := ho.inRun.resolve_right (stack_current hG)
  obtain ⟨st, hst⟩ := of_inRun hin
  have hworked : x.worked ws = x.cpu.switchIn x.kernel.currentThread := by
    unfold worked
    rw [hst]
  rw [hworked, Cpu.switchIn_some ho.space, ho.addrSpace, ho.userRegisters] at hcpu
  obtain ⟨hregisters, hpageTable, hsize, -, -⟩ := Cpu.switchOut_fields
    { x.cpu with registers := registers, pageTable := some s.pageTable, pageTableSize := s.numPages } x.kernel.currentThread
  refine ⟨hin, ?_⟩
  rw [hcpu]
  split
  · exact ⟨hregisters, hpageTable, hsize⟩
  · exact ⟨rfl, rfl, rfl⟩

/-- Context switches preserve the state of the CPU. A thread is switched out in the step from `x₀` to `x₁`, others run up to `x₂`, and
in the next step it comes back from `SWITCH`, with an address space: then all registers and the page table are what they were. -/
theorem context_preserved {b : Boot c} {x₀ x₁ x₂ x₃ : Context c} (h : (system b).Reachable x₀) (hout : Step x₀ x₁)
    (hrun : x₁.kernel.inRun x₀.kernel.currentThread = true)
    (haway : Relation.ReflTransGen (StepAway x₀.kernel.currentThread) x₁ x₂)
    (hcur : x₂.kernel.currentThread = x₀.kernel.currentThread) (hback : Step x₂ x₃)
    (hspace : x₂.cpu.space x₀.kernel.currentThread ≠ none) :
    x₂.kernel.inRun x₀.kernel.currentThread = true ∧ x₃.cpu.registers = x₁.cpu.registers ∧ x₃.cpu.pageTable = x₁.cpu.pageTable ∧
      x₃.cpu.pageTableSize = x₁.cpu.pageTableSize := by
  rw [space_away haway] at hspace
  obtain ⟨id, hid⟩ := Option.ne_none_iff_exists'.1 hspace
  obtain ⟨ho, hpageTable, hsize⟩ := out_of_step (inv_of_reachable h) rfl hout hrun hid
  have ho₂ : Out x₀.kernel.currentThread x₁.cpu.registers id (x₁.cpu.addrSpace id) x₂ := by
    clear hcur hback
    induction haway with
    | refl => exact ho
    | tail _ hlast ih => exact ih.step hlast
  have hr₂ : (system b).Reachable x₂ := (h.step hout).steps (Relation.ReflTransGen.mono (fun _ _ h => h.1) _ _ haway)
  obtain ⟨hin, hregisters, hpageTable', hsize'⟩ := ho₂.back (good_of_reachable hr₂) hcur hback
  exact ⟨hin, hregisters, hpageTable'.trans hpageTable.symm, hsize'.trans hsize.symm⟩

/-! ## A run -/

/-- The start of a client whose main thread forks thread 1 and yields to it. -/
def forkYieldBoot : Boot forkYield := { shared := (), pc := (0 : Nat), semaphores := fun _ => none }

/-- What its threads do to the CPU: the main thread executes a program in front of the yield, and then thread 1 writes a register. -/
def forkYieldWork : Nat → List Work
  | 3 => [.newAddrSpace 0 7, .load 0 3, .execute 0, .writeRegister 2 5]
  | 6 => [.writeRegister 2 99]
  | _ => []

/-- The states of the run. -/
def forkYieldState : Nat → Context forkYield
  | 0 =>
    { kernel := forkYieldBoot.kernel
      cpu :=
        { registers := fun _ => 0
          pageTable := none
          pageTableSize := 0
          addrSpace := fun _ => ⟨0, 0⟩
          space := fun _ => none
          userRegisters := fun _ _ => 0 } }
  | n + 1 => ((forkYieldState n).step { input := (), due := [] } (forkYieldWork n)).toOption.getD (forkYieldState n)

theorem forkYieldState_step (n : Nat) (hn : n < 9) : Step (forkYieldState n) (forkYieldState (n + 1)) := by
  have hstep (n : Nat) (hallowed : (forkYieldState n).kernel.AllowedStep { input := (), due := [] })
      (hws : (forkYieldState n).cpu.AllowedAll (forkYieldState n).kernel.currentThread (forkYieldWork n))
      (hok : (forkYieldState n).step { input := (), due := [] } (forkYieldWork n) = .ok (forkYieldState (n + 1))) :
      Step (forkYieldState n) (forkYieldState (n + 1)) := ⟨_, _, hallowed, hws, hok⟩
  match n, hn with
  | 0, _ => exact hstep 0 (by decide) trivial rfl
  | 1, _ => exact hstep 1 (by decide) trivial rfl
  | 2, _ => exact hstep 2 (by decide) trivial rfl
  | 3, _ => exact hstep 3 (by decide) ⟨fun _ => nofun, fun _ => nofun, trivial, trivial, trivial⟩ rfl
  | 4, _ => exact hstep 4 (by decide) trivial rfl
  | 5, _ => exact hstep 5 (by decide) trivial rfl
  | 6, _ => exact hstep 6 (by decide) ⟨trivial, trivial⟩ rfl
  | 7, _ => exact hstep 7 (by decide) trivial rfl
  | 8, _ => exact hstep 8 (by decide) trivial rfl

/-- Thread 1 has overwritten register 2, and the main thread finds it as it was. -/
theorem context_preserved_forkYield : (forkYieldState 8).cpu.registers 2 = 99 ∧
    (forkYieldState 9).cpu.registers = (forkYieldState 4).cpu.registers ∧ (forkYieldState 9).cpu.registers 2 = 5 ∧
    (forkYieldState 9).cpu.pageTable = (forkYieldState 4).cpu.pageTable := by
  have hreach (n : Nat) (hn : n < 10) : (system forkYieldBoot).Reachable (forkYieldState n) := by
    induction n with
    | zero => exact .init ⟨rfl, rfl, rfl, fun _ => rfl⟩
    | succ n ih => exact (ih (by omega)).step (forkYieldState_step n (by omega))
  have haway : Relation.ReflTransGen (StepAway 0) (forkYieldState 4) (forkYieldState 8) :=
    .tail (.tail (.tail (.single ⟨forkYieldState_step 4 (by decide), by decide⟩) ⟨forkYieldState_step 5 (by decide), by decide⟩)
      ⟨forkYieldState_step 6 (by decide), by decide⟩) ⟨forkYieldState_step 7 (by decide), by decide⟩
  obtain ⟨-, hregisters, hpageTable, -⟩ := context_preserved (hreach 3 (by decide)) (forkYieldState_step 3 (by decide)) rfl haway rfl
    (forkYieldState_step 8 (by decide)) (fun h => by cases h)
  exact ⟨rfl, hregisters, rfl, hpageTable⟩

end Context

end Nachos
