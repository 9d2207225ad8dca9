import Nachos.Threads.ThreadRoot

/-!
# Threads are coroutines (switch.S)

Any number of threads on one processor, which passes from one to the next by `SWITCH`. A thread that is not running is suspended
in the state in which it called `SWITCH`, or in the one `StackAllocate` made up for it. Between two switches the running thread
may execute any code that leaves alone what the suspended threads need: the objects they are saved in, and the part of their
stacks they rely on.
-/

namespace Nachos

open I386 Transition

namespace ContextSwitch

/-- A thread that is not running: the state it is to go on in, and the part of its stack it relies on. -/
structure Suspension where
  state : State
  kept : Set Word

/-- Threads are known by the addresses of their objects. -/
structure World where
  machine : State
  current : Word
  suspended : Word → Option Suspension

/-- The memory of a suspended thread. -/
def region (t : Word) (p : Suspension) : Set Word := block t ∪ p.kept

/-- The bytes that belong to suspended threads. -/
def Reserved (suspended : Word → Option Suspension) (x : Word) : Prop := ∃ t p, suspended t = some p ∧ x ∈ region t p

/-- `A` is memory of its own: neither of a suspended thread, nor of the current thread's object, nor `_eax_save`. -/
structure Free (e current : Word) (suspended : Word → Option Suspension) (A : Set Word) : Prop where
  reserved : ∀ x ∈ A, ¬Reserved suspended x
  object : Disjoint (block current) A
  save : Disjoint (span e 4) A

/-- The running thread is about to execute `SWITCH(current, t)`, with its frame in `kept`. -/
structure World.AtSwitch (code : Code) (e : Word) (w : World) (t : Word) (kept : Set Word) : Prop where
  installed : ∃ b, Installed code w.machine.pc (switchCode e) b
  old : word w.machine.mem (w.machine.regs .esp + 4) = w.current
  new : word w.machine.mem (w.machine.regs .esp + 8) = t
  frame : span (w.machine.regs .esp) 12 ⊆ kept
  free : Free e w.current w.suspended kept

/-- The suspension that `Fork` makes of a new thread: its registers are what `StackAllocate` has put into its object. -/
def forked (m : Memory) (t stack : Word) : Suspension where
  state := { regs := field m t, mem := m, pc := word m (t + pcOffset) }
  kept := span (firstStackTop stack) 20

/-- What happens between threads. -/
inductive Step (code : Code) (e : Word) (procs : Procedures) : World → World → Prop
  /-- The running thread executes code of its own. -/
  | compute {w : World} {s' : State} : (∀ x, Reserved w.suspended x → s'.mem x = w.machine.mem x) →
      Step code e procs w { w with machine := s' }
  /-- The running thread forks a thread `t`, for which `new` and `AllocBoundedArray` have found memory. -/
  | fork {w : World} {s' : State} {t stack func arg : Word} : w.suspended t = none → t ≠ w.current →
      Free e w.current w.suspended (block t) → Free e w.current w.suspended (span stack stackBytes) →
      Disjoint (block t) (span stack stackBytes) → s'.mem = stackAllocate procs w.machine.mem t stack func arg →
      Step code e procs w { w with machine := s', suspended := Function.update w.suspended t (some (forked s'.mem t stack)) }
  /-- `SWITCH`, from its first instruction to its return. -/
  | switch {w : World} {s' : State} {t : Word} {kept : Set Word} {p : Suspension} : w.suspended t = some p →
      w.AtSwitch code e t kept → steps code 27 w.machine = some s' →
      Step code e procs w
        { machine := s'
          current := t
          suspended := Function.update (Function.update w.suspended t none) w.current (some ⟨w.machine, kept⟩) }
  /-- A thread that has finished is deleted. -/
  | delete {w : World} {t : Word} : Step code e procs w { w with suspended := Function.update w.suspended t none }

/-- Nachos starts with the main thread alone. -/
def system (code : Code) (e : Word) (procs : Procedures) : System World where
  init w := (∀ t, w.suspended t = none) ∧ Disjoint (span e 4) (block w.current)
  step := Step code e procs

/-! ## What holds between threads -/

/-- The object and the stack of a suspended thread are as `SWITCH` or `StackAllocate` left them. -/
structure Intact (m : Memory) (t : Word) (p : Suspension) : Prop where
  fields : ∀ r, field m t r = p.state.regs r
  kept : ∀ x ∈ p.kept, m x = p.state.mem x
  top : span (p.state.regs .esp) 8 ⊆ p.kept

theorem Intact.congr {m m' : Memory} {t : Word} {p : Suspension} (h : Intact m t p) (hm : ∀ x ∈ region t p, m' x = m x) :
    Intact m' t p := by
  refine ⟨fun r => ?_, fun x hx => (hm x (Or.inr hx)).trans (h.kept x hx), h.top⟩
  have hd : (offset r).toNat + 4 ≤ 36 := by cases r <;> decide
  rw [← h.fields r]
  exact word_congr fun x hx => hm x (Or.inl (span_add_subset t (offset r) hd hx))

/-- The memory of the threads is apart. -/
structure Owned (e current : Word) (suspended : Word → Option Suspension) : Prop where
  save_current : Disjoint (span e 4) (block current)
  notSuspended : suspended current = none
  own : ∀ t p, suspended t = some p → Disjoint (block t) p.kept
  save : ∀ t p, suspended t = some p → Disjoint (span e 4) (region t p)
  running : ∀ t p, suspended t = some p → Disjoint (block current) (region t p)
  others : ∀ t p t' p', suspended t = some p → suspended t' = some p' → t ≠ t' → Disjoint (region t p) (region t' p')

/-- The invariant of the runs. -/
structure Inv (e : Word) (w : World) : Prop where
  owned : Owned e w.current w.suspended
  intact : ∀ t p, w.suspended t = some p → Intact w.machine.mem t p

section
variable {e current : Word} {suspended : Word → Option Suspension}

theorem Owned.delete (h : Owned e current suspended) (t : Word) : Owned e current (Function.update suspended t none) := by
  have hsub {t' : Word} {p : Suspension} (hp : Function.update suspended t none t' = some p) : suspended t' = some p := by
    by_cases ht : t' = t
    · simp [ht] at hp
    · rwa [Function.update_of_ne ht] at hp
  refine ⟨h.save_current, ?_, fun t p hp => h.own t p (hsub hp), fun t p hp => h.save t p (hsub hp),
    fun t p hp => h.running t p (hsub hp), fun t p t' p' hp hp' => h.others t p t' p' (hsub hp) (hsub hp')⟩
  by_cases ht : current = t
  · simp [ht]
  · exact (Function.update_of_ne ht _ _).trans h.notSuspended

/-- Memory of the running thread becomes that of a suspended one. -/
theorem Owned.suspend (h : Owned e current suspended) {t : Word} {p : Suspension} (ht : t ≠ current)
    (hb : Free e current suspended (block t)) (hk : Free e current suspended p.kept) (hd : Disjoint (block t) p.kept) :
    Owned e current (Function.update suspended t (some p)) := by
  have hcases {t' : Word} {p' : Suspension} (hp : Function.update suspended t (some p) t' = some p') :
      t' = t ∧ p' = p ∨ suspended t' = some p' := by
    by_cases he : t' = t
    · subst he
      simp only [Function.update_self, Option.some.injEq] at hp
      exact Or.inl ⟨rfl, hp.symm⟩
    · exact Or.inr (by rwa [Function.update_of_ne he] at hp)
  have hnew {t' : Word} {p' : Suspension} (hp : suspended t' = some p') : Disjoint (region t' p') (region t p) := by
    rw [Set.disjoint_left]
    rintro x hx (hx' | hx')
    · exact hb.reserved x hx' ⟨t', p', hp, hx⟩
    · exact hk.reserved x hx' ⟨t', p', hp, hx⟩
  refine ⟨h.save_current, (Function.update_of_ne (Ne.symm ht) _ _).trans h.notSuspended, ?_, ?_, ?_, ?_⟩
  · intro t' p' hp
    rcases hcases hp with ⟨rfl, rfl⟩ | hp
    · exact hd
    · exact h.own t' p' hp
  · intro t' p' hp
    rcases hcases hp with ⟨rfl, rfl⟩ | hp
    · exact hb.save.union_right hk.save
    · exact h.save t' p' hp
  · intro t' p' hp
    rcases hcases hp with ⟨rfl, rfl⟩ | hp
    · exact hb.object.union_right hk.object
    · exact h.running t' p' hp
  · intro t1 p1 t2 p2 hp1 hp2 hne
    rcases hcases hp1 with ⟨h1, h1'⟩ | hq1 <;> rcases hcases hp2 with ⟨h2, h2'⟩ | hq2
    · exact absurd (h1.trans h2.symm) hne
    · rw [h1, h1']
      exact (hnew hq2).symm
    · rw [h2, h2']
      exact hnew hq1
    · exact h.others t1 p1 t2 p2 hq1 hq2 hne

/-- A suspended thread becomes the running one. -/
theorem Owned.resume (h : Owned e current suspended) {t : Word} {p : Suspension} (hp : suspended t = some p) :
    Owned e t (Function.update suspended t none) := by
  have hD := h.delete t
  refine ⟨(h.save t p hp).mono_right Set.subset_union_left, by simp, hD.own, hD.save, fun t' p' hp' => ?_, hD.others⟩
  by_cases he : t' = t
  · simp [he] at hp'
  · rw [Function.update_of_ne he] at hp'
    exact (h.others t p t' p' hp hp' (Ne.symm he)).mono_left Set.subset_union_left

end

section
variable {code : Code} {e : Word} {procs : Procedures} {w : World}

/-- The switch as `SWITCH` sees it. -/
theorem Inv.call (h : Inv e w) {t : Word} {p : Suspension} {kept : Set Word} (hp : w.suspended t = some p)
    (hc : w.AtSwitch code e t kept) : Call e w.machine.toCore w.current t := by
  have hI := h.intact t p hp
  have htop : span (field w.machine.mem t .esp) 8 ⊆ region t p := by
    rw [hI.fields]
    exact hI.top.trans Set.subset_union_right
  have hR := h.owned.running t p hp
  have hS := h.owned.save t p hp
  exact
    { old := hc.old
      new := hc.new
      save_frame := hc.free.save.mono_right hc.frame
      old_frame := hc.free.object.mono_right hc.frame
      save_old := h.owned.save_current
      save_new := hS.mono_right Set.subset_union_left
      old_new := hR.mono_right Set.subset_union_left
      save_stack := hS.mono_right htop
      old_stack := hR.mono_right htop }

/-- The switch goes on where `t` was, with its registers and its stack; above its stack top is the return address once more. -/
structure Resumes (p : Suspension) (s' : State) : Prop where
  regs : ∀ r, r ≠ .esp → s'.regs r = p.state.regs r
  esp : s'.regs .esp = p.state.regs .esp + 4
  pc : s'.pc = word p.state.mem (p.state.regs .esp)
  stack : ∀ x ∈ p.kept, x ∉ span (p.state.regs .esp + 4) 4 → s'.mem x = p.state.mem x

/-- The word above the stack top of `t`. -/
theorem Intact.above {m : Memory} {t : Word} {p : Suspension} (h : Intact m t p) : span (field m t .esp + 4) 4 ⊆ p.kept := by
  rw [h.fields]
  exact (span_add_subset (p.state.regs .esp) 4 (by decide)).trans h.top

theorem Done.resumes (h : Inv e w) {t : Word} {p : Suspension} (hp : w.suspended t = some p) {s' : State}
    (hd : Done e w.machine w.current t s') : Resumes p s' := by
  have hI := h.intact t p hp
  refine ⟨fun r hr => (hd.regs r hr).trans (hI.fields r), hd.esp.trans (by rw [hI.fields]), hd.pc.trans ?_, fun x hx hn => ?_⟩
  · rw [hI.fields]
    exact word_congr fun x hx => hI.kept x (hI.top (span_mono _ (by decide) hx))
  · have h1 : x ∉ block w.current := Set.disjoint_right.mp (h.owned.running t p hp) (Or.inr hx)
    have h2 : x ∉ span e 4 := Set.disjoint_right.mp (h.owned.save t p hp) (Or.inr hx)
    rw [hd.elsewhere x h1 h2 (by rwa [hI.fields])]
    exact hI.kept x hx

/-- A switch keeps what is suspended, and suspends the thread that called it. -/
theorem Inv.switch (h : Inv e w) {t : Word} {p : Suspension} {kept : Set Word} (hp : w.suspended t = some p)
    (hc : w.AtSwitch code e t kept) {s' : State} (hd : Done e w.machine w.current t s') :
    Inv e ⟨s', t, Function.update (Function.update w.suspended t none) w.current (some ⟨w.machine, kept⟩)⟩ := by
  have hI := h.intact t p hp
  have hne : w.current ≠ t := by
    rintro he
    rw [← he, h.owned.notSuspended] at hp
    cases hp
  have hsub {x : Word} (hx : Reserved (Function.update w.suspended t none) x) : Reserved w.suspended x := by
    obtain ⟨t', p', hp', hx⟩ := hx
    by_cases he : t' = t
    · simp [he] at hp'
    · exact ⟨t', p', by simpa [Function.update_of_ne he] using hp', hx⟩
  have hR := h.owned.running t p hp
  refine ⟨?_, fun t' p' hp' => ?_⟩
  · refine (h.owned.resume hp).suspend hne ?_ ?_ hc.free.object
    · refine ⟨fun x hx hr => ?_, (hR.mono_right Set.subset_union_left).symm, h.owned.save_current⟩
      obtain ⟨t', p', hp', hx'⟩ := hsub hr
      exact Set.disjoint_left.mp (h.owned.running t' p' hp') hx hx'
    · refine ⟨fun x hx hr => hc.free.reserved x hx (hsub hr), ?_, hc.free.save⟩
      exact Set.disjoint_left.mpr fun x hx hx' => hc.free.reserved x hx' ⟨t, p, hp, Or.inl hx⟩
  · have habove : span (field w.machine.mem t .esp + 4) 4 ⊆ region t p := hI.above.trans Set.subset_union_right
    by_cases he : t' = w.current
    · subst he
      simp only [Function.update_self, Option.some.injEq] at hp'
      subst hp'
      refine ⟨hd.saved, fun x hx => ?_, (span_mono _ (by decide)).trans hc.frame⟩
      refine hd.elsewhere x (Set.disjoint_right.mp hc.free.object hx) (Set.disjoint_right.mp hc.free.save hx) fun hm => ?_
      exact hc.free.reserved x hx ⟨t, p, hp, habove hm⟩
    · have het : t' ≠ t := by
        rintro rfl
        simp [Function.update_of_ne he] at hp'
      replace hp' : w.suspended t' = some p' := by simpa [Function.update_of_ne he, Function.update_of_ne het] using hp'
      refine (h.intact t' p' hp').congr fun x hx => hd.elsewhere x ?_ ?_ ?_
      · exact Set.disjoint_right.mp (h.owned.running t' p' hp') hx
      · exact Set.disjoint_right.mp (h.owned.save t' p' hp') hx
      · exact fun hm => Set.disjoint_left.mp (h.owned.others t p t' p' hp hp' (Ne.symm het)) (habove hm) hx

/-- `StackAllocate` makes a thread that looks as if `SWITCH` had suspended it. -/
theorem Inv.fork (h : Inv e w) {s' : State} {t stack func arg : Word} (ht : t ≠ w.current) (hb : Free e w.current w.suspended (block t))
    (hs : Free e w.current w.suspended (span stack stackBytes)) (hd : Disjoint (block t) (span stack stackBytes))
    (hm : s'.mem = stackAllocate procs w.machine.mem t stack func arg) :
    Inv e { w with machine := s', suspended := Function.update w.suspended t (some (forked s'.mem t stack)) } := by
  have hk : Free e w.current w.suspended (forked s'.mem t stack).kept :=
    ⟨fun x hx => hs.reserved x (firstStackTop_subset hx), hs.object.mono_right firstStackTop_subset,
      hs.save.mono_right firstStackTop_subset⟩
  refine ⟨h.owned.suspend ht hb hk (hd.mono_right firstStackTop_subset), fun t' p' hp' => ?_⟩
  by_cases he : t' = t
  · subst he
    simp only [Function.update_self, Option.some.injEq] at hp'
    subst hp'
    refine ⟨fun _ => rfl, fun _ _ => rfl, ?_⟩
    have htop : (forked s'.mem t' stack).state.regs .esp = firstStackTop stack := by
      show field s'.mem t' .esp = firstStackTop stack
      rw [hm, stackAllocate_stackTop hd]
    rw [htop]
    exact span_mono _ (by decide)
  · replace hp' : w.suspended t' = some p' := by simpa [Function.update_of_ne he] using hp'
    refine (h.intact t' p' hp').congr fun x hx => ?_
    rw [hm]
    exact stackAllocate_outside (fun hx' => hb.reserved x hx' ⟨t', p', hp', hx⟩) fun hx' => hs.reserved x hx' ⟨t', p', hp', hx⟩

theorem inv_init (h : (system code e procs).init w) : Inv e w :=
  ⟨⟨h.2, h.1 _, fun t p hp => by simp [h.1] at hp, fun t p hp => by simp [h.1] at hp, fun t p hp => by simp [h.1] at hp,
    fun t p _ _ hp => by simp [h.1] at hp⟩, fun t p hp => by simp [h.1] at hp⟩

/-- The switch step, as far as it goes. -/
theorem Inv.done (h : Inv e w) {t : Word} {p : Suspension} {kept : Set Word} (hp : w.suspended t = some p)
    (hc : w.AtSwitch code e t kept) : ∃ s', steps code 27 w.machine = some s' ∧ Done e w.machine w.current t s' := by
  obtain ⟨b, hi⟩ := hc.installed
  exact switch_spec hi (h.call hp hc)

theorem inv_step {w' : World} (h : Inv e w) (hs : Step code e procs w w') : Inv e w' := by
  cases hs with
  | compute hm =>
    refine ⟨h.owned, fun t p hp => (h.intact t p hp).congr fun x hx => hm x ⟨t, p, hp, hx⟩⟩
  | fork _ ht hb hs hd hm => exact h.fork ht hb hs hd hm
  | switch hp hc hrun =>
    obtain ⟨s1, hs1, hd⟩ := h.done hp hc
    rw [hrun] at hs1
    cases hs1
    exact h.switch hp hc hd
  | @delete t =>
    refine ⟨h.owned.delete t, fun t' p hp => ?_⟩
    by_cases he : t' = t
    · simp [he] at hp
    · exact h.intact t' p (by simpa [Function.update_of_ne he] using hp)

theorem inv_of_reachable (h : (system code e procs).Reachable w) : Inv e w :=
  h.invariant (fun _ => inv_init) fun _ _ _ hi hs => inv_step hi hs

/-- A thread that is switched to goes on where it called `SWITCH`, however many threads have run in the meantime: all its
registers are as they were, and so is the part of its stack it relies on, except for the first of the two argument words of the
call it returns from. -/
theorem switch_resumes {t : Word} {p : Suspension} {kept : Set Word} (hr : (system code e procs).Reachable w)
    (hp : w.suspended t = some p) (hc : w.AtSwitch code e t kept) :
    ∃ s', steps code 27 w.machine = some s' ∧ Resumes p s' := by
  have hI := inv_of_reachable hr
  obtain ⟨s', hs', hd⟩ := hI.done hp hc
  exact ⟨s', hs', hd.resumes hI hp⟩

/-! A main thread at `0x100` that has forked a thread at `0x200` and is about to switch to it. -/

def twoProcedures : Procedures where
  threadRoot := 0x106c
  threadBegin := 0x2000
  threadFinish := 0x2004

def twoCode : Code := place 0x1000 (switchCode 0x9000 ++ threadRootCode)

def mainMemory : Memory := setWords (fun _ => 0) 0x20000 [(0, 0x1500), (4, 0x100), (8, 0x200)]

def mainOnly : World where
  machine := { regs := fun r => if r = .esp then 0x20000 else 0, mem := mainMemory, pc := 0x1000 }
  current := 0x100
  suspended _ := none

def forkedMemory : Memory := stackAllocate twoProcedures mainMemory 0x200 0x10000 0x3000 7

def twoThreads : World where
  machine := { mainOnly.machine with mem := forkedMemory }
  current := 0x100
  suspended := Function.update (fun _ => none) 0x200 (some (forked forkedMemory 0x200 0x10000))

theorem twoThreads_apart : Disjoint (block 0x200) (span 0x10000 stackBytes) := disjoint_span (by decide) (by decide)

theorem twoThreads_reachable : (system twoCode 0x9000 twoProcedures).Reachable twoThreads := by
  have hfree {A : Set Word} (h1 : Disjoint (block 0x100) A) (h2 : Disjoint (span 0x9000 4) A) :
      Free 0x9000 mainOnly.current mainOnly.suspended A := ⟨fun _ _ h => Option.some_ne_none _ h.choose_spec.choose_spec.1.symm, h1, h2⟩
  have hsave : Disjoint (span 0x9000 4) (block mainOnly.current) := disjoint_span (by decide) (by decide)
  refine .step (.init (s := mainOnly) ⟨fun _ => rfl, hsave⟩) ?_
  exact @Step.fork _ _ _ mainOnly twoThreads.machine 0x200 0x10000 0x3000 7 rfl (by decide)
    (hfree (disjoint_span (by decide) (by decide)) (disjoint_span (by decide) (by decide)))
    (hfree (disjoint_span (by decide) (by decide)) (disjoint_span (by decide) (by decide))) twoThreads_apart rfl

theorem twoThreads_atSwitch : twoThreads.AtSwitch twoCode 0x9000 0x200 (span 0x20000 12) := by
  have hb : Disjoint (block 0x200) (span 0x20000 12) := disjoint_span (by decide) (by decide)
  have hs : Disjoint (span 0x10000 stackBytes) (span 0x20000 12) := disjoint_span (by decide) (by decide)
  have hframe {d v : Word} (hd : d.toNat + 4 ≤ 12) (hm : (d, v) ∈ ([(0, 0x1500), (4, 0x100), (8, 0x200)] : List (Word × Word))) :
      word forkedMemory (0x20000 + d) = v := by
    have hout : word forkedMemory (0x20000 + d) = word mainMemory (0x20000 + d) := word_congr fun x hx =>
      stackAllocate_outside (Set.disjoint_right.mp (disjoint_word hb hd) hx) (Set.disjoint_right.mp (disjoint_word hs hd) hx)
    rw [hout, mainMemory]
    exact word_setWords _ _ (by decide) hm
  constructor
  case installed =>
    obtain ⟨b, hi, _⟩ := Installed.append.mp (installed_place 0x1000 (l := switchCode 0x9000 ++ threadRootCode) (by decide))
    exact ⟨b, hi⟩
  case old => exact hframe (by decide) (List.mem_cons_of_mem _ List.mem_cons_self)
  case new => exact hframe (by decide) (List.mem_cons_of_mem _ (List.mem_cons_of_mem _ List.mem_cons_self))
  case frame => exact Set.Subset.rfl
  case free =>
    refine ⟨?_, disjoint_span (by decide) (by decide), disjoint_span (by decide) (by decide)⟩
    rintro x hx ⟨t, p, hp, hm⟩
    by_cases ht : t = 0x200
    · subst ht
      simp only [twoThreads, Function.update_self, Option.some.injEq] at hp
      subst hp
      rcases hm with hm | hm
      · exact Set.disjoint_left.mp hb hm hx
      · exact Set.disjoint_left.mp hs (firstStackTop_subset hm) hx
    · have hn : Function.update (fun _ => none) 0x200 (some (forked forkedMemory 0x200 0x10000)) t = none :=
        Function.update_of_ne ht _ _
      exact Option.some_ne_none p (hp.symm.trans hn)

/-- The main thread is suspended. -/
def mainSuspended : Word → Option Suspension :=
  Function.update (Function.update twoThreads.suspended 0x200 none) 0x100 (some ⟨twoThreads.machine, span 0x20000 12⟩)

/-- The forked thread has been switched to, and calls `SWITCH` to go back to the main thread. -/
def switchingBack (mem : Memory) : World where
  machine :=
    { regs := fun r => if r = .esp then 0x17000 else 1
      mem := setWords mem 0x17000 [(0, 0x3100), (4, 0x200), (8, 0x100)]
      pc := 0x1000 }
  current := 0x200
  suspended := mainSuspended

theorem of_mainSuspended {t : Word} {p : Suspension} (h : mainSuspended t = some p) :
    t = 0x100 ∧ p = ⟨twoThreads.machine, span 0x20000 12⟩ := by
  unfold mainSuspended at h
  by_cases ht : t = 0x100
  · rw [ht, Function.update_self, Option.some.injEq] at h
    exact ⟨ht, h.symm⟩
  · rw [Function.update_of_ne ht] at h
    by_cases ht' : t = 0x200
    · rw [ht', Function.update_self] at h
      cases h
    · have hnone : twoThreads.suspended t = none := Function.update_of_ne ht' _ fun _ => none
      rw [Function.update_of_ne ht', hnone] at h
      cases h

theorem mainSuspended_outside {x : Word} (h : Reserved mainSuspended x) : x ∉ span 0x17000 12 := by
  obtain ⟨t, p, hp, hx⟩ := h
  obtain ⟨rfl, rfl⟩ := of_mainSuspended hp
  have hobject : Disjoint (block 0x100) (span 0x17000 12) := disjoint_span (by decide) (by decide)
  have hframe : Disjoint (span 0x17000 12) (span 0x20000 12) := disjoint_span (by decide) (by decide)
  rcases hx with hx | hx
  · exact Set.disjoint_left.mp hobject hx
  · exact Set.disjoint_right.mp hframe hx

theorem switchingBack_reachable {s : State} (hs : steps twoCode 27 twoThreads.machine = some s) :
    (system twoCode 0x9000 twoProcedures).Reachable (switchingBack s.mem) := by
  refine .step (.step twoThreads_reachable (.switch rfl twoThreads_atSwitch hs)) ?_
  refine @Step.compute _ _ _ _ (switchingBack s.mem).machine fun x hx => ?_
  have hwords : ∀ p ∈ ([(0, 0x3100), (4, 0x200), (8, 0x100)] : List (Word × Word)), p.1.toNat + 4 ≤ 12 := by
    simp
  exact setWords_outside s.mem 0x17000 hwords (mainSuspended_outside hx)

theorem switchingBack_atSwitch (mem : Memory) : (switchingBack mem).AtSwitch twoCode 0x9000 0x100 (span 0x17000 12) := by
  have hframe {d v : Word} (hm : (d, v) ∈ ([(0, 0x3100), (4, 0x200), (8, 0x100)] : List (Word × Word))) :
      word (switchingBack mem).machine.mem (0x17000 + d) = v := word_setWords _ _ (by decide) hm
  constructor
  case installed => exact twoThreads_atSwitch.installed
  case old => exact hframe (List.mem_cons_of_mem _ List.mem_cons_self)
  case new => exact hframe (List.mem_cons_of_mem _ (List.mem_cons_of_mem _ List.mem_cons_self))
  case frame => exact Set.Subset.rfl
  case free =>
    have hobject : Disjoint (block 0x200) (span 0x17000 12) := disjoint_span (by decide) (by decide)
    exact ⟨fun x hx hr => mainSuspended_outside hr hx, hobject, disjoint_span (by decide) (by decide)⟩

/-- The main thread switches to the forked one, and when that switches back it is where it was. -/
theorem switch_resumes_two : ∃ s, steps twoCode 27 twoThreads.machine = some s ∧ Resumes (forked forkedMemory 0x200 0x10000) s ∧
    ∃ s', steps twoCode 27 (switchingBack s.mem).machine = some s' ∧ Resumes ⟨twoThreads.machine, span 0x20000 12⟩ s' := by
  obtain ⟨s, hs, hforked⟩ := switch_resumes twoThreads_reachable rfl twoThreads_atSwitch
  exact ⟨s, hs, hforked, switch_resumes (switchingBack_reachable hs) rfl (switchingBack_atSwitch s.mem)⟩

/-- The registers of a new thread. -/
theorem Resumes.starts {m : Memory} {t stack func arg : Word} (hd : Disjoint (block t) (span stack stackBytes)) {s' : State}
    (h : Resumes (forked (stackAllocate procs m t stack func arg) t stack) s') : Starts procs func arg s' := by
  have hw {r : I386.Reg} {v : Word} (hr : r ≠ .esp) (hv : (offset r, v) ∈ stateWords procs func arg) : s'.regs r = v :=
    (h.regs r hr).trans (stackAllocate_word hv)
  refine ⟨h.pc.trans ?_, hw (by decide) ?_, hw (by decide) ?_, hw (by decide) ?_, hw (by decide) ?_⟩
  · show word (stackAllocate procs m t stack func arg) (field (stackAllocate procs m t stack func arg) t .esp) = _
    rw [stackAllocate_stackTop hd, stackAllocate_return hd]
  all_goals simp [stateWords, offset]

/-- The first switch to a forked thread, however late it comes, starts `ThreadRoot`, which calls `ThreadBegin`, then the forked
procedure with its argument, then `ThreadFinish`, in this order and nothing else, and does not stop before. -/
theorem fork_runs {m : Memory} {t stack func arg : Word} {kept : Set Word} (hr : (system code e procs).Reachable w)
    (hL : Linked code procs func) (hd : Disjoint (block t) (span stack stackBytes))
    (hp : w.suspended t = some (forked (stackAllocate procs m t stack func arg) t stack)) (hc : w.AtSwitch code e t kept) :
    ∃ s', steps code 27 w.machine = some s' ∧
      ∀ r, Relation.ReflTransGen (Trace.Step code (params func) 8 (· = procs.threadFinish)) ⟨s', []⟩ r →
        (∃ b, r.calls <+: [(procs.threadBegin, arg), (func, arg), (procs.threadFinish, b)]) ∧
          (r.machine.pc = procs.threadFinish ∧ r.calls.length = 3 ∨
            ∃ r', Trace.Step code (params func) 8 (· = procs.threadFinish) r r') := by
  have hI := inv_of_reachable hr
  obtain ⟨s', hs', hdone⟩ := hI.done hp hc
  refine ⟨s', hs', fun r hrun => ?_⟩
  obtain ⟨a1, a2, a3, a4, a5, a6, hA⟩ := hL.rootAt
  have hS := (hdone.resumes hI hp).starts hd
  have hP : Phase procs func arg a1 a2 a3 a4 a5 r := by
    induction hrun with
    | refl => exact .entry (Or.inl hS.pc) hS.startup hS.arg ⟨hS.initial, hS.whenDone⟩
    | tail _ hst ih => exact ih.step hA hL hst
  refine ⟨hP.calls, ?_⟩
  rcases hP.progress hA hL with ⟨b, hb, hpc⟩ | hgo
  · exact Or.inl ⟨hpc, by rw [hb]; rfl⟩
  · exact Or.inr hgo

theorem fork_runs_two : ∃ s', steps twoCode 27 twoThreads.machine = some s' ∧
    ∀ r, Relation.ReflTransGen (Trace.Step twoCode (params 0x3000) 8 (· = twoProcedures.threadFinish)) ⟨s', []⟩ r →
      (∃ b, r.calls <+: [(0x2000, 7), (0x3000, 7), (0x2004, b)]) ∧
        (r.machine.pc = twoProcedures.threadFinish ∧ r.calls.length = 3 ∨
          ∃ r', Trace.Step twoCode (params 0x3000) 8 (· = twoProcedures.threadFinish) r r') := by
  refine fork_runs twoThreads_reachable ?_ twoThreads_apart rfl twoThreads_atSwitch
  refine ⟨?_, rfl, rfl, rfl, by decide, by decide, by decide⟩
  exact ⟨_, installed_drop (a := 0x1000) (l := switchCode 0x9000 ++ threadRootCode) (by decide) 27 (by decide)⟩

end

end ContextSwitch

end Nachos
