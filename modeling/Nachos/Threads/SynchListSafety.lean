import Nachos.Threads.ConditionSafety

/-!
# A synchronized list is a queue

When threads use the lock and the condition only inside `SynchList`, what is removed is what was appended, in the same order, and
no item is left on the list with nobody about to look at it: while a consumer waits, there are at most as many items as consumers
that were signalled and have not looked at the list since.
-/

namespace Nachos

namespace Synch

variable {T : Type}

/-- The operations on the list, and those that do not touch it. -/
def listOps : Op T → Bool
  | .none => true
  | .yield => true
  | .fork _ => true
  | .finish => true
  | .append _ => true
  | .removeFront => true
  | _ => false

/-- The `Acquire` is one of `SynchList`. -/
def AcquireFrom.ofList : AcquireFrom T → Bool
  | .user => false
  | .wait _ .user => false
  | _ => true

/-- The `Release` is one of `SynchList`. -/
def ReleaseFrom.ofList : ReleaseFrom → Bool
  | .user => false
  | .wait _ .user => false
  | _ => true

/-- The `Wait` is one of `SynchList`. -/
def WaitFrom.ofList : WaitFrom → Bool
  | .user => false
  | .removeFront => true

/-- The statements that the operations on the list come to. -/
def Pc.ofList : Pc T → Bool
  | .user => true
  | .acquireP f => f.ofList
  | .acquireHolder f => f.ofList
  | .releaseAssert f => f.ofList
  | .releaseHolder f => f.ofList
  | .releaseV f => f.ofList
  | .waitAssert f => f.ofList
  | .waitNew f => f.ofList
  | .waitAppend _ f => f.ofList
  | .waitP _ f => f.ofList
  | .waitDelete _ f => f.ofList
  | .signal => false
  | .broadcast _ => false
  | .append _ => true
  | .removeFront _ => true

/-- The statements between the test of the list and the `Append` to `waitQueue`. -/
def Pc.sawEmpty : Pc T → Bool
  | .waitAssert _ => true
  | .waitNew _ => true
  | .waitAppend _ _ => true
  | _ => false

/-- Thread `t` was signalled, and has not looked at the list since. -/
def Signalled (v : View T) (t : Tid) : Prop :=
  (∃ s, (v.pc t).bind Pc.stage = some (s, .waiting) ∧ s ∉ v.monitor.waitQueue) ∨
    (∃ s, (v.pc t).bind Pc.stage = some (s, .done)) ∨ v.pc t = some (.removeFront true)

/-- While a consumer waits, there are at most as many items as signalled consumers. -/
def Attended (v : View T) : Prop :=
  ∃ signalled : List Tid, signalled.Nodup ∧ (∀ t, t ∈ signalled ↔ Signalled v t) ∧
    (v.monitor.waitQueue ≠ [] → v.monitor.list.length ≤ signalled.length)

/-- The invariant of the list. -/
structure Listed (v : View T) : Prop where
  pcs : ∀ t pc, v.pc t = some pc → pc.ofList = true
  fifo : v.monitor.appended = v.monitor.removed ++ v.monitor.list
  sawEmpty : ∀ t pc, v.pc t = some pc → pc.sawEmpty = true → v.monitor.list = []
  attended : Attended v

namespace Attended

variable {v v' : View T}

/-- The signalled consumers stay the same. -/
theorem keep (h : Attended v) (hs : ∀ t, Signalled v' t ↔ Signalled v t)
    (hb : v'.monitor.waitQueue ≠ [] → v'.monitor.list = [] ∨
      v.monitor.waitQueue ≠ [] ∧ v'.monitor.list.length ≤ v.monitor.list.length) : Attended v' := by
  obtain ⟨signalled, hnd, hmem, hle⟩ := h
  refine ⟨signalled, hnd, fun t => (hmem t).trans (hs t).symm, ?_⟩
  intro hq
  rcases hb hq with hnil | ⟨hq', hlen⟩
  · rw [hnil]
    exact Nat.zero_le _
  · exact hlen.trans (hle hq')

/-- One more is signalled, for one more item. -/
theorem add (h : Attended v) {t : Tid} (ht : ¬Signalled v t) (hs : ∀ t', Signalled v' t' ↔ t' = t ∨ Signalled v t')
    (hq : v.monitor.waitQueue ≠ []) (hlen : v'.monitor.list.length ≤ v.monitor.list.length + 1) : Attended v' := by
  obtain ⟨signalled, hnd, hmem, hle⟩ := h
  refine ⟨t :: signalled, List.nodup_cons.2 ⟨fun h => ht ((hmem t).1 h), hnd⟩, ?_, ?_⟩
  · intro t'
    rw [List.mem_cons, hmem, hs]
  · intro _
    rw [List.length_cons]
    exact hlen.trans (Nat.succ_le_succ (hle hq))

/-- One has looked at the list, which was empty, or has taken an item. -/
theorem drop (h : Attended v) {t : Tid} (ht : Signalled v t) (hs : ∀ t', Signalled v' t' ↔ t' ≠ t ∧ Signalled v t')
    (hb : v'.monitor.waitQueue ≠ [] → v'.monitor.list = [] ∨
      v.monitor.waitQueue ≠ [] ∧ v'.monitor.list.length + 1 ≤ v.monitor.list.length) : Attended v' := by
  obtain ⟨signalled, hnd, hmem, hle⟩ := h
  refine ⟨signalled.erase t, hnd.erase t, ?_, ?_⟩
  · intro t'
    rw [hnd.mem_erase_iff, hmem, hs]
  · intro hq
    rw [List.length_erase_of_mem ((hmem t).2 ht)]
    rcases hb hq with hnil | ⟨hq', hlen⟩
    · rw [hnil]
      exact Nat.zero_le _
    · exact Nat.le_sub_one_of_lt (Nat.lt_of_succ_le (hlen.trans (hle hq')))

end Attended

section Signalled

variable {v v' : View T} {t : Tid} {o : Option (Pc T)}

/-- Whether a thread is signalled depends on where it is, and on whether its own semaphore is on the queue. -/
theorem signalled_congr {t' : Tid} (hpc : v'.pc t' = v.pc t')
    (hq : ∀ s, (v.pc t').bind Pc.stage = some (s, .waiting) → (s ∈ v'.monitor.waitQueue ↔ s ∈ v.monitor.waitQueue)) :
    Signalled v' t' ↔ Signalled v t' := by
  unfold Signalled
  rw [hpc]
  refine or_congr (exists_congr fun s => and_congr_right fun hs => not_congr (hq s hs)) Iff.rfl

/-- A thread that moves within its stage, and not out of or into the loop of `RemoveFront` as a signalled one. -/
theorem signalled_move (hpc : v'.pc = Function.update v.pc t o) (hst : o.bind Pc.stage = (v.pc t).bind Pc.stage)
    (hl : o = some (.removeFront true) ↔ v.pc t = some (.removeFront true)) (hq : v'.monitor.waitQueue = v.monitor.waitQueue)
    (t' : Tid) : Signalled v' t' ↔ Signalled v t' := by
  rcases eq_or_ne t' t with rfl | hne
  · unfold Signalled
    rw [hpc, Function.update_self, hst, hl, hq]
  · refine signalled_congr ?_ fun s _ => by rw [hq]
    rw [hpc, Function.update_of_ne hne]

/-- As `signalled_move`, from one statement to another. -/
theorem signalled_goto {pc pc' : Pc T} (h : v.pc t = some pc) (hpc : v'.pc = Function.update v.pc t (some pc'))
    (hst : pc'.stage = pc.stage) (hl : pc ≠ .removeFront true) (hl' : pc' ≠ .removeFront true)
    (hq : v'.monitor.waitQueue = v.monitor.waitQueue) (t' : Tid) : Signalled v' t' ↔ Signalled v t' := by
  refine signalled_move hpc ?_ ?_ hq t'
  · rw [h]
    exact hst
  · rw [h]
    exact ⟨fun e => absurd (Option.some.inj e) hl', fun e => absurd (Option.some.inj e) hl⟩

/-- What a thread at `pc` has to say of it. -/
theorem signalled_at {pc : Pc T} (h : v.pc t = some pc) : Signalled v t ↔
    (∃ s, pc.stage = some (s, .waiting) ∧ s ∉ v.monitor.waitQueue) ∨ (∃ s, pc.stage = some (s, .done)) ∨ pc = .removeFront true := by
  unfold Signalled
  rw [h]
  exact or_congr Iff.rfl (or_congr Iff.rfl ⟨fun e => Option.some.inj e, congrArg some⟩)

/-- Only thread `t` moves, and the queue stays the same for the others. -/
theorem signalled_update (hpc : v'.pc = Function.update v.pc t o)
    (hq : ∀ t' ≠ t, ∀ s, (v.pc t').bind Pc.stage = some (s, .waiting) → (s ∈ v'.monitor.waitQueue ↔ s ∈ v.monitor.waitQueue))
    {t' : Tid} (hne : t' ≠ t) : Signalled v' t' ↔ Signalled v t' :=
  signalled_congr (by rw [hpc, Function.update_of_ne hne]) (hq t' hne)

theorem signalled_other (hpc : v'.pc = Function.update v.pc t o) (hq : v'.monitor.waitQueue = v.monitor.waitQueue) {t' : Tid}
    (hne : t' ≠ t) : Signalled v' t' ↔ Signalled v t' := signalled_update hpc (fun _ _ _ _ => by rw [hq]) hne

end Signalled

namespace Listed

variable {v v' : View T} {t : Tid} {o : Option (Pc T)}

/-- A thread moves; the list stays as it is. -/
theorem move (hL : Listed v) (hpc : v'.pc = Function.update v.pc t o) (hof : ∀ pc, o = some pc → pc.ofList = true)
    (hsaw : ∀ pc, o = some pc → pc.sawEmpty = true → v.monitor.list = []) (hlist : v'.monitor.list = v.monitor.list)
    (happ : v'.monitor.appended = v.monitor.appended) (hrem : v'.monitor.removed = v.monitor.removed) (hatt : Attended v') :
    Listed v' := by
  refine ⟨?_, by rw [hlist, happ, hrem]; exact hL.fifo, ?_, hatt⟩
  · intro t' pc h
    rw [hpc] at h
    rcases View.move_pc_cases h with ⟨-, h⟩ | ⟨-, h⟩
    · exact hof pc h
    · exact hL.pcs t' pc h
  · intro t' pc h hs
    rw [hlist]
    rw [hpc] at h
    rcases View.move_pc_cases h with ⟨-, h⟩ | ⟨-, h⟩
    · exact hsaw pc h hs
    · exact hL.sawEmpty t' pc h hs

/-- A thread goes from one statement to another; neither the list nor the queue is touched, nor whether it is signalled. -/
theorem goto (hL : Listed v) {pc pc' : Pc T} (h : v.pc t = some pc) (hpc : v'.pc = Function.update v.pc t (some pc'))
    (hof : pc.ofList = true → pc'.ofList = true) (hsaw : pc'.sawEmpty = true → v.monitor.list = [])
    (hsig : ∀ t', Signalled v' t' ↔ Signalled v t') (hq : v'.monitor.waitQueue = v.monitor.waitQueue)
    (hlist : v'.monitor.list = v.monitor.list) (happ : v'.monitor.appended = v.monitor.appended)
    (hrem : v'.monitor.removed = v.monitor.removed) : Listed v' := by
  refine hL.move hpc ?_ ?_ hlist happ hrem (hL.attended.keep hsig fun hne => Or.inr ⟨?_, ?_⟩)
  · intro pc₁ h₁
    cases h₁
    exact hof (hL.pcs t pc h)
  · intro pc₁ h₁ hs
    cases h₁
    exact hsaw hs
  · rwa [hq] at hne
  · rw [hlist]

/-- A semaphore is made: its owner was not signalled, and is not. -/
theorem waitNew (hL : Listed v) {f : WaitFrom} {s : SemId} (h : v.pc t = some (.waitNew f)) :
    Listed ((v.move t (some (.waitAppend s f)) v.monitor).setValue s (some 0)) := by
  refine hL.goto h rfl id (fun _ => hL.sawEmpty t _ h rfl) ?_ rfl rfl rfl rfl
  intro t'
  rcases eq_or_ne t' t with rfl | hne
  · rw [signalled_at h, signalled_at (Function.update_self t' (some (Pc.waitAppend s f)) v.pc)]
    refine ⟨?_, ?_⟩
    · rintro (⟨s', h₁, -⟩ | ⟨s', h₁⟩ | h₁) <;> cases h₁
    · rintro (⟨s', h₁, -⟩ | ⟨s', h₁⟩ | h₁) <;> cases h₁
  · exact signalled_other (by rfl) (by rfl) hne

/-- It is put on the queue: its owner is not signalled yet, and there is no item. -/
theorem waitAppend (hL : Listed v) (hW : Waiting v) {f : WaitFrom} {s : SemId} (h : v.pc t = some (.waitAppend s f)) :
    Listed (v.move t (some (.releaseAssert (.wait s f)))
      ({ v.monitor with waitQueue := v.monitor.waitQueue ++ [s] }.record (.waits t s))) := by
  have hnil : v.monitor.list = [] := hL.sawEmpty t _ h rfl
  have hst : (v.pc t).bind Pc.stage = some (s, .created) := Waiting.stage_at h rfl
  refine hL.move rfl ?_ ?_ rfl rfl rfl (hL.attended.keep ?_ fun _ => Or.inl hnil)
  · intro pc h₁
    cases h₁
    have hof := hL.pcs t _ h
    cases f
    · cases hof
    · rfl
  · intro pc h₁ hs
    cases h₁
    cases hs
  · intro t'
    rcases eq_or_ne t' t with rfl | hne
    · rw [signalled_at h, signalled_at (Function.update_self t' (some (Pc.releaseAssert (.wait s f))) v.pc)]
      refine ⟨?_, ?_⟩
      · rintro (⟨s', h₁, hs'⟩ | ⟨s', h₁⟩ | h₁) <;> cases h₁
        exact absurd (List.mem_append_right _ (List.mem_singleton_self s)) hs'
      · rintro (⟨s', h₁, -⟩ | ⟨s', h₁⟩ | h₁) <;> cases h₁
    · refine signalled_update rfl ?_ hne
      intro t₁ hne₁ s₁ h₁
      have hs₁ : s₁ ≠ s := by
        rintro rfl
        exact hne₁ (hW.unique t t₁ s₁ _ _ hst h₁)
      refine ⟨fun hmem => (List.mem_append.1 hmem).resolve_right fun hmem => hs₁ (List.mem_singleton.1 hmem), ?_⟩
      intro hmem
      exact List.mem_append_left _ hmem

/-- The `P` of a signalled consumer goes through: it stays signalled. -/
theorem waitP (hL : Listed v) (hW : Waiting v) {f : WaitFrom} {s : SemId} {x : Int} (h : v.pc t = some (.waitP s f))
    (hx : v.value s = some x) (h0 : x ≠ 0) :
    Listed ((v.move t (some (.acquireP (.wait s f))) v.monitor).setValue s (some (x - 1))) := by
  have hq : s ∉ v.monitor.waitQueue := by
    rcases hW.stage t s _ (Waiting.stage_at (r := some (s, .waiting)) h rfl) with ⟨-, hval, -⟩ | ⟨hq, -⟩
    · exact absurd (Option.some.inj (hx.symm.trans hval)) h0
    · exact hq
  refine hL.goto h rfl ?_ (fun hs => by cases hs) ?_ rfl rfl rfl rfl
  · intro hof
    cases f
    · cases hof
    · rfl
  · intro t'
    rcases eq_or_ne t' t with rfl | hne
    · rw [signalled_at h, signalled_at (Function.update_self t' (some (Pc.acquireP (.wait s f))) v.pc)]
      exact ⟨fun _ => Or.inl ⟨s, rfl, hq⟩, fun _ => Or.inr (Or.inl ⟨s, rfl⟩)⟩
    · exact signalled_other (by rfl) (by rfl) hne

/-- `Wait` returns to the test of the list. -/
theorem waitDelete (hL : Listed v) {f : WaitFrom} {s : SemId} (h : v.pc t = some (.waitDelete s f)) :
    Listed ((v.move t (some f.next) v.monitor).setValue s none) := by
  have hof := hL.pcs t _ h
  cases f with
  | user => cases hof
  | removeFront =>
    refine hL.goto h rfl (fun _ => rfl) (fun hs => by cases hs) ?_ rfl rfl rfl rfl
    intro t'
    rcases eq_or_ne t' t with rfl | hne
    · rw [signalled_at h, signalled_at (Function.update_self t' (some (WaitFrom.next .removeFront)) v.pc)]
      exact ⟨fun _ => Or.inr (Or.inl ⟨s, rfl⟩), fun _ => Or.inr (Or.inr rfl)⟩
    · exact signalled_other (by rfl) (by rfl) hne

/-- An item is appended, and a consumer signalled for it, if there is one. -/
theorem append (hL : Listed v) (hW : Waiting v) {o : Option Tid} (hO : Owned v o) {item : T} {w : Option SemId} {m : Monitor T}
    (h : v.pc t = some (.append item))
    (hs : Signals t { v.monitor with list := v.monitor.list ++ [item], appended := v.monitor.appended ++ [item] } w m) :
    Listed ((v.move t (some (.releaseAssert .append)) m).bump w) := by
  have hlist : m.list = v.monitor.list ++ [item] ∧ m.appended = v.monitor.appended ++ [item] ∧
      m.removed = v.monitor.removed := by
    cases hs <;> exact ⟨rfl, rfl, rfl⟩
  have hq : v.monitor.waitQueue = w.toList ++ m.waitQueue := (signals_logs hs).1
  have hpc : ((v.move t (some (.releaseAssert .append)) m).bump w).pc = Function.update v.pc t (some (.releaseAssert .append)) :=
    View.bump_pc _ _
  have hm : ((v.move t (some (.releaseAssert .append)) m).bump w).monitor = m := View.bump_monitor _ _
  -- the thread itself is not signalled, before and after
  have hself : ¬Signalled v t := by
    rw [signalled_at h]
    rintro (⟨s', h₁, -⟩ | ⟨s', h₁⟩ | h₁) <;> cases h₁
  have hself' : ¬Signalled ((v.move t (some (.releaseAssert .append)) m).bump w) t := by
    have hat : ((v.move t (some (.releaseAssert .append)) m).bump w).pc t = some (.releaseAssert .append) := by
      rw [hpc, Function.update_self]
    rw [signalled_at hat]
    rintro (⟨s', h₁, -⟩ | ⟨s', h₁⟩ | h₁) <;> cases h₁
  refine ⟨?_, ?_, ?_, ?_⟩
  · intro t' pc h₁
    rw [hpc] at h₁
    rcases View.move_pc_cases h₁ with ⟨-, h₁⟩ | ⟨-, h₁⟩
    · cases h₁
      rfl
    · exact hL.pcs t' pc h₁
  · rw [hm, hlist.1, hlist.2.1, hlist.2.2, hL.fifo, List.append_assoc]
  · intro t' pc h₁ hsaw
    -- nobody else is between the test and the `Append` to `waitQueue`: the lock is held by `t`
    rw [hpc] at h₁
    rcases View.move_pc_cases h₁ with ⟨-, h₁⟩ | ⟨hne, h₁⟩
    · cases h₁
      cases hsaw
    · have hholding : pc.holding = true := by
        have hof := hL.pcs t' pc h₁
        cases pc with
        | waitAssert f =>
          cases f
          · cases hof
          · rfl
        | waitNew f => rfl
        | waitAppend s f => rfl
        | _ => cases hsaw
      exact absurd (Option.some.inj ((hO.holding t' pc h₁ hholding).symm.trans (hO.holding t _ h rfl))) hne
  · cases w with
    | none =>
      refine hL.attended.keep ?_ ?_
      · intro t'
        rcases eq_or_ne t' t with rfl | hne
        · exact iff_of_false hself' hself
        · refine signalled_update hpc ?_ hne
          intro _ _ s _
          rw [hm, hq]
          exact Iff.rfl
      · intro hne
        have hnil : m.waitQueue = [] := by
          cases hs with
          | none hheld hnil => exact hnil
        rw [hm, hnil] at hne
        exact absurd rfl hne
    | some s =>
      have hq' : v.monitor.waitQueue = s :: m.waitQueue := hq
      have hnd : (s :: m.waitQueue).Nodup := hq' ▸ hW.nodup
      obtain ⟨t₀, hst₀⟩ := hW.queued s (by rw [hq']; exact List.mem_cons_self)
      have hne₀ : t₀ ≠ t := by
        rintro rfl
        cases (Waiting.stage_at (r := none) h rfl).symm.trans hst₀
      have hsig₀ : Signalled ((v.move t (some (.releaseAssert .append)) m).bump (some s)) t₀ := by
        refine Or.inl ⟨s, ?_, ?_⟩
        · rw [hpc, Function.update_of_ne hne₀]
          exact hst₀
        · rw [hm]
          exact (List.nodup_cons.1 hnd).1
      refine hL.attended.add (t := t₀) ?_ ?_ ?_ ?_
      · rintro (⟨s', h₁, hs'⟩ | ⟨s', h₁⟩ | h₁)
        · rw [hst₀] at h₁
          cases h₁
          exact hs' (by rw [hq']; exact List.mem_cons_self)
        · cases hst₀.symm.trans h₁
        · cases hst₀.symm.trans (Waiting.stage_at (r := none) h₁ rfl)
      · intro t'
        rcases eq_or_ne t' t₀ with rfl | hne
        · exact iff_of_true hsig₀ (Or.inl rfl)
        · rw [or_iff_right hne]
          rcases eq_or_ne t' t with rfl | hne'
          · exact iff_of_false hself' hself
          · refine signalled_congr (by rw [hpc, Function.update_of_ne hne']) ?_
            intro s' h₁
            have hs' : s' ≠ s := by
              rintro rfl
              exact hne (hW.unique t₀ t' s' _ _ hst₀ h₁)
            rw [hm, hq']
            exact ⟨fun hmem => List.mem_cons_of_mem _ hmem, fun hmem => (List.mem_cons.1 hmem).resolve_left hs'⟩
      · rw [hq']
        exact List.cons_ne_nil _ _
      · rw [hm, hlist.1, List.length_append]
        exact Nat.le_refl _

/-- A consumer finds no item; it is not signalled any more, if it was. -/
theorem removeEmpty (hL : Listed v) {again : Bool} (h : v.pc t = some (.removeFront again)) (hl : v.monitor.list = []) :
    Listed (v.move t (some (.waitAssert .removeFront)) v.monitor) := by
  have hself' : ¬Signalled (v.move t (some (.waitAssert .removeFront)) v.monitor) t := by
    rw [signalled_at (Function.update_self t (some (Pc.waitAssert .removeFront)) v.pc)]
    rintro (⟨s', h₁, -⟩ | ⟨s', h₁⟩ | h₁) <;> cases h₁
  have hother : ∀ {t'}, t' ≠ t → (Signalled (v.move t (some (.waitAssert .removeFront)) v.monitor) t' ↔ Signalled v t') :=
    fun hne => signalled_other (by rfl) (by rfl) hne
  refine hL.move rfl ?_ (fun _ _ _ => hl) rfl rfl rfl ?_
  · intro pc h₁
    cases h₁
    rfl
  · cases again with
    | false =>
      have hself : ¬Signalled v t := by
        rw [signalled_at h]
        rintro (⟨s', h₁, -⟩ | ⟨s', h₁⟩ | h₁) <;> cases h₁
      refine hL.attended.keep ?_ fun _ => Or.inl hl
      intro t'
      rcases eq_or_ne t' t with rfl | hne
      · exact iff_of_false hself' hself
      · exact hother hne
    | true =>
      refine hL.attended.drop (t := t) (Or.inr (Or.inr h)) ?_ fun _ => Or.inl hl
      intro t'
      rcases eq_or_ne t' t with rfl | hne
      · exact iff_of_false hself' fun h => h.1 rfl
      · exact (hother hne).trans (and_iff_right hne).symm

/-- A consumer takes the first item; it is not signalled any more, if it was. -/
theorem removeFront (hL : Listed v) {again : Bool} {item : T} {rest : List T} (h : v.pc t = some (.removeFront again))
    (hl : v.monitor.list = item :: rest) :
    Listed (v.move t (some (.releaseAssert .removeFront))
      { v.monitor with list := rest, removed := v.monitor.removed ++ [item] }) := by
  have hself' : ¬Signalled (v.move t (some (.releaseAssert .removeFront))
      { v.monitor with list := rest, removed := v.monitor.removed ++ [item] }) t := by
    rw [signalled_at (Function.update_self t (some (Pc.releaseAssert .removeFront)) v.pc)]
    rintro (⟨s', h₁, -⟩ | ⟨s', h₁⟩ | h₁) <;> cases h₁
  have hother : ∀ {t'}, t' ≠ t → (Signalled (v.move t (some (.releaseAssert .removeFront))
      { v.monitor with list := rest, removed := v.monitor.removed ++ [item] }) t' ↔ Signalled v t') :=
    fun hne => signalled_other (by rfl) (by rfl) hne
  have hlen : v.monitor.list.length = rest.length + 1 := by
    rw [hl]
    rfl
  refine ⟨?_, ?_, ?_, ?_⟩
  · intro t' pc h₁
    rcases View.move_pc_cases h₁ with ⟨-, h₁⟩ | ⟨-, h₁⟩
    · cases h₁
      rfl
    · exact hL.pcs t' pc h₁
  · show v.monitor.appended = v.monitor.removed ++ [item] ++ rest
    rw [hL.fifo, hl, List.append_assoc]
    rfl
  · intro t' pc h₁ hsaw
    rcases View.move_pc_cases h₁ with ⟨-, h₁⟩ | ⟨-, h₁⟩
    · cases h₁
      cases hsaw
    · cases hl.symm.trans (hL.sawEmpty t' pc h₁ hsaw)
  · cases again with
    | false =>
      have hself : ¬Signalled v t := by
        rw [signalled_at h]
        rintro (⟨s', h₁, -⟩ | ⟨s', h₁⟩ | h₁) <;> cases h₁
      refine hL.attended.keep ?_ fun hne => Or.inr ⟨hne, ?_⟩
      · intro t'
        rcases eq_or_ne t' t with rfl | hne
        · exact iff_of_false hself' hself
        · exact hother hne
      · rw [hlen]
        exact Nat.le_succ _
    | true =>
      refine hL.attended.drop (t := t) (Or.inr (Or.inr h)) ?_ fun hne => Or.inr ⟨hne, hlen.ge⟩
      intro t'
      rcases eq_or_ne t' t with rfl | hne
      · exact iff_of_false hself' fun h => h.1 rfl
      · exact (hother hne).trans (and_iff_right hne).symm

/-- As `goto`, within a stage and outside the loop of `RemoveFront`. -/
theorem pass (hL : Listed v) {pc pc' : Pc T} (h : v.pc t = some pc) (hpc : v'.pc = Function.update v.pc t (some pc'))
    (hof : pc.ofList = true → pc'.ofList = true) (hst : pc'.stage = pc.stage) (hl : pc ≠ .removeFront true)
    (hl' : pc' ≠ .removeFront true) (hsaw : pc'.sawEmpty = true → v.monitor.list = [])
    (hq : v'.monitor.waitQueue = v.monitor.waitQueue) (hlist : v'.monitor.list = v.monitor.list)
    (happ : v'.monitor.appended = v.monitor.appended) (hrem : v'.monitor.removed = v.monitor.removed) : Listed v' :=
  hL.goto h hpc hof hsaw (signalled_goto h hpc hst hl hl' hq) hq hlist happ hrem

/-- Whatever a thread does with the list, it stays in order and attended. -/
theorem step (hL : Listed v) (hW : Waiting v) {o : Option Tid} (hO : Owned v o) (hstep : Step listOps t v v') : Listed v' := by
  cases hstep with
  | start h hop hb =>
    rename_i op pc
    have hgo : pc.ofList = true ∧ pc.stage = none ∧ pc ≠ .removeFront true ∧ pc.sawEmpty = false := by
      cases op <;> cases hop <;> cases hb <;> exact ⟨rfl, rfl, (fun e => by cases e), rfl⟩
    refine hL.pass h rfl (fun _ => hgo.1) hgo.2.1 (fun e => by cases e) hgo.2.2.1 ?_ rfl rfl rfl rfl
    intro hs
    cases hgo.2.2.2.symm.trans hs
  | @fork t' h hnew =>
    refine hL.move rfl (fun pc h₁ => by cases h₁; rfl) (fun pc h₁ hs => by cases h₁; cases hs) rfl rfl rfl ?_
    refine hL.attended.keep (signalled_move rfl (by rw [hnew]; rfl) ?_ rfl) fun hne => Or.inr ⟨hne, Nat.le_refl _⟩
    rw [hnew]
    exact ⟨(fun e => by cases e), fun e => by cases e⟩
  | finish h =>
    refine hL.move rfl (fun pc h₁ => by cases h₁) (fun pc h₁ => by cases h₁) rfl rfl rfl ?_
    refine hL.attended.keep (signalled_move rfl (by rw [h]; rfl) ?_ rfl) fun hne => Or.inr ⟨hne, Nat.le_refl _⟩
    rw [h]
    exact ⟨(fun e => by cases e), fun e => by cases e⟩
  | acquireP h hx h0 =>
    rename_i f x
    exact hL.pass h rfl id (by cases f <;> rfl) (fun e => by cases e) (fun e => by cases e) (fun hs => by cases hs) rfl rfl rfl rfl
  | acquireHolder h =>
    rename_i f
    refine hL.pass h rfl ?_ ?_ (fun e => by cases e) ?_ ?_ rfl rfl rfl rfl
    · intro hof
      cases f with
      | wait s w =>
        cases w
        · cases hof
        · rfl
      | _ => rfl
    · cases f <;> rfl
    · intro e
      cases f <;> cases e
    · intro hs
      cases f <;> cases hs
  | releaseAssert h held =>
    rename_i f
    exact hL.pass h rfl id (by cases f <;> rfl) (fun e => by cases e) (fun e => by cases e) (fun hs => by cases hs) rfl rfl rfl rfl
  | releaseHolder h =>
    rename_i f
    exact hL.pass h rfl id (by cases f <;> rfl) (fun e => by cases e) (fun e => by cases e) (fun hs => by cases hs) rfl rfl rfl rfl
  | releaseV h hx =>
    rename_i f x
    refine hL.pass h rfl ?_ ?_ (fun e => by cases e) ?_ ?_ rfl rfl rfl rfl
    · intro hof
      cases f with
      | wait s w =>
        cases w
        · cases hof
        · rfl
      | _ => rfl
    · cases f <;> rfl
    · intro e
      cases f <;> cases e
    · intro hs
      cases f <;> cases hs
  | waitAssert h held =>
    exact hL.pass h rfl id rfl (fun e => by cases e) (fun e => by cases e) (fun _ => hL.sawEmpty t _ h rfl) rfl rfl rfl rfl
  | waitNew h hs => exact hL.waitNew h
  | waitAppend h hq => exact hL.waitAppend hW h
  | waitP h hx h0 => exact hL.waitP hW h hx h0
  | waitDelete h => exact hL.waitDelete h
  | signal h hs => cases hL.pcs t _ h
  | broadcastEnd h hq => cases hL.pcs t _ h
  | broadcast h hq hs => cases hL.pcs t _ h
  | append h hi hs => exact hL.append hW hO h hs
  | removeEmpty h hl => exact hL.removeEmpty h hl
  | removeFront h hl => exact hL.removeFront h hl

end Listed

theorem listed_new : Listed (View.new (T := T)) := by
  have hpc : ∀ t pc, (View.new (T := T)).pc t = some pc → pc = .user := by
    intro t pc h
    have h' : (if t = mainThread then some Pc.user else none) = some pc := h
    split at h'
    · exact (Option.some.inj h').symm
    · cases h'
  refine ⟨?_, rfl, fun _ _ _ _ => rfl, [], List.nodup_nil, ?_, fun h => absurd rfl h⟩
  · intro t pc h
    rw [hpc t pc h]
    rfl
  · intro t
    refine iff_of_false List.not_mem_nil ?_
    cases h : (View.new (T := T)).pc t with
    | none =>
      unfold Signalled
      rw [h]
      rintro (⟨s', h₁, -⟩ | ⟨s', h₁⟩ | h₁) <;> cases h₁
    | some pc =>
      rw [signalled_at h, hpc t pc h]
      rintro (⟨s', h₁, -⟩ | ⟨s', h₁⟩ | h₁) <;> cases h₁

/-- In every reachable state the list is in order and attended. -/
theorem listed_of_reachable {v : View T} (hv : (system listOps).Reachable v) : Listed v := by
  refine hv.invariant ?_ ?_
  · rintro v rfl
    exact listed_new
  · rintro v v' hv hL ⟨t, hstep⟩
    obtain ⟨o, hO⟩ := owned_of_reachable hv
    exact hL.step (waiting_of_reachable hv) hO hstep

theorem Signals.items {t : Tid} {m m' : Monitor T} {o : Option SemId} (hs : Signals t m o m') :
    m'.list = m.list ∧ m'.appended = m.appended ∧ m'.removed = m.removed := by
  cases hs <;> exact ⟨rfl, rfl, rfl⟩

/-- Items are appended and removed one at a time, by a thread that holds the lock. -/
theorem Step.items {ops : Op T → Bool} {v v' : View T} {o : Option Tid} {t : Tid} (hO : Owned v o) (hstep : Step ops t v v') :
    v'.monitor.list = v.monitor.list ∧ v'.monitor.appended = v.monitor.appended ∧ v'.monitor.removed = v.monitor.removed ∨
    v.monitor.lockHolder = some t ∧ ((∃ item, v'.monitor.list = v.monitor.list ++ [item] ∧
        v'.monitor.appended = v.monitor.appended ++ [item] ∧ v'.monitor.removed = v.monitor.removed) ∨
      ∃ item, v.monitor.list = item :: v'.monitor.list ∧ v'.monitor.appended = v.monitor.appended ∧
        v'.monitor.removed = v.monitor.removed ++ [item]) := by
  cases hstep with
  | signal h hs =>
    rw [View.bump_monitor]
    exact Or.inl hs.items
  | broadcastEnd h hq =>
    rename_i again
    cases again <;> exact Or.inl ⟨rfl, rfl, rfl⟩
  | broadcast h hq hs =>
    rename_i again w m
    rw [View.bump_monitor]
    have hm := hs.items
    cases again <;> exact Or.inl hm
  | append h hi hs =>
    rename_i item w m
    rw [View.bump_monitor]
    exact Or.inr ⟨hO.holding t _ h rfl, Or.inl ⟨item, hs.items⟩⟩
  | removeFront h hl => exact Or.inr ⟨hO.holding t _ h rfl, Or.inr ⟨_, hl, rfl, rfl⟩⟩
  | _ => exact Or.inl ⟨rfl, rfl, rfl⟩

/-- The code of the list fails only at the `Append` of an item that is on it. -/
theorem list_error [DecidableEq T] {v : View T} {o : Option Tid} {t : Tid} {pc : Pc T} {i : Input T} {e : Fault} (hL : Listed v)
    (hW : Waiting v) (hO : Owned v o) (hpc : v.pc t = some pc) (hcode : code listOps t v.monitor pc i = .error e) :
    e = .assertFailed ∧ ∃ item, pc = .append item ∧ item ∈ v.monitor.list := by
  have hof := hL.pcs _ _ hpc
  obtain ⟨he, hwhy⟩ := code_error hcode
  refine ⟨he, ?_⟩
  rcases hwhy with ⟨hchecks, hnot⟩ | ⟨s, f, rfl, hs⟩ | h
  · -- the statements of the list that check the lock come after its `Acquire`
    refine absurd (hO.holding _ pc hpc ?_) hnot
    cases pc with
    | releaseAssert f =>
      cases f with
      | user => cases hof
      | _ => rfl
    | waitAssert f =>
      cases f with
      | user => cases hof
      | removeFront => rfl
    | append item => rfl
    | signal => cases hof
    | broadcast again => cases hof
    | _ => cases hchecks
  · obtain ⟨hnot, -⟩ := hW.stage _ s .created (Waiting.stage_at hpc rfl)
    exact absurd hs hnot
  · exact h

/-! ## The items that the operations carry -/

/-- The item that a thread in `SynchList::Append` has not put on the list. -/
def Pc.pending : Pc T → Option T
  | .acquireP (.append item) | .acquireHolder (.append item) | .append item => some item
  | _ => none

/-- The item that a statement removes from the list. -/
def Pc.removes (m : Monitor T) : Pc T → Option T
  | .removeFront _ => m.list.head?
  | _ => none

/-- Whether a thread in `SynchList::RemoveFront` has removed its item. -/
def Pc.removing : Pc T → Option Bool
  | .acquireP .removeFront | .acquireHolder .removeFront => some false
  | .acquireP (.wait _ .removeFront) | .acquireHolder (.wait _ .removeFront) => some false
  | .waitAssert .removeFront | .waitNew .removeFront | .waitAppend _ .removeFront => some false
  | .releaseAssert (.wait _ .removeFront) | .releaseHolder (.wait _ .removeFront) | .releaseV (.wait _ .removeFront) => some false
  | .waitP _ .removeFront | .waitDelete _ .removeFront | .removeFront _ => some false
  | .releaseAssert .removeFront | .releaseHolder .removeFront | .releaseV .removeFront | .user => some true
  | _ => none

section Codes

variable {t : Tid} {m m' : Monitor T} {x : Input T} {pc pc' : Pc T} {call : Call (Pc T)}

/-- An item stays pending until it is appended, and nothing else is appended. -/
theorem Codes.pending (h : Codes t m x pc m' call pc') : pc'.pending = pc.pending ∧ m'.appended = m.appended ∨
    ∃ item, pc = .append item ∧ pc'.pending = none ∧ m'.appended = m.appended ++ [item] := by
  cases h with
  | acquireP f => cases f <;> exact Or.inl ⟨rfl, rfl⟩
  | acquireHolder f => cases f <;> exact Or.inl ⟨rfl, rfl⟩
  | releaseV f => cases f <;> exact Or.inl ⟨rfl, rfl⟩
  | waitDelete s f => cases f <;> exact Or.inl ⟨rfl, rfl⟩
  | signal hs => exact Or.inl ⟨rfl, hs.items.2.1⟩
  | @broadcastEnd again hq => cases again <;> exact Or.inl ⟨rfl, rfl⟩
  | @broadcast again o m' hq hs =>
    have happended := hs.items.2.1
    cases again <;> exact Or.inl ⟨rfl, happended⟩
  | @append item o m' hi hs => exact Or.inr ⟨item, rfl, rfl, hs.items.2.1⟩
  | _ => exact Or.inl ⟨rfl, rfl⟩

/-- Nothing is removed but by `list->RemoveFront()`. -/
theorem Codes.removed (h : Codes t m x pc m' call pc') : m'.removed = m.removed ++ (pc.removes m).toList := by
  have hsame : m.removed = m.removed ++ (none : Option T).toList := (List.append_nil _).symm
  cases h with
  | signal hs => exact hs.items.2.2.trans hsame
  | @broadcastEnd again hq => cases again <;> exact hsame
  | @broadcast again o m' hq hs =>
    have hremoved := hs.items.2.2
    cases again <;> exact hremoved.trans hsame
  | append hi hs => exact hs.items.2.2.trans hsame
  | @removeEmpty again hl =>
    show m.removed = m.removed ++ m.list.head?.toList
    rw [hl]
    exact hsame
  | @removeFront again item rest hl =>
    show m.removed ++ [item] = m.removed ++ m.list.head?.toList
    rw [hl]
    rfl
  | _ => exact hsame

/-- A thread in `RemoveFront` stays there, until it has removed an item. -/
theorem Codes.removing (h : Codes t m x pc m' call pc') {b : Bool} (hb : pc.removing = some b) :
    pc'.removing = some (b || (pc.removes m).isSome) := by
  have hsame : ∀ {b' : Bool}, some b' = some b → some b' = some (b || (none : Option T).isSome) := by
    intro b' h
    rw [h, Option.isSome_none, Bool.or_false]
  cases h with
  | removeEmpty hl =>
    cases hb
    show some false = some (false || m.list.head?.isSome)
    rw [hl]
    rfl
  | removeFront hl =>
    cases hb
    show some true = some (false || m.list.head?.isSome)
    rw [hl]
    rfl
  | signal hs => cases hb
  | broadcastEnd hq => cases hb
  | broadcast hq hs => cases hb
  | append hi hs => cases hb
  | acquireP f =>
    rcases f with _ | _ | _ | ⟨s, _ | _⟩ <;> first | exact hsame hb | cases hb
  | acquireHolder f =>
    rcases f with _ | _ | _ | ⟨s, _ | _⟩ <;> first | exact hsame hb | cases hb
  | @releaseAssert f held =>
    rcases f with _ | _ | _ | ⟨s, _ | _⟩ <;> first | exact hsame hb | cases hb
  | releaseHolder f =>
    rcases f with _ | _ | _ | ⟨s, _ | _⟩ <;> first | exact hsame hb | cases hb
  | releaseV f =>
    rcases f with _ | _ | _ | ⟨s, _ | _⟩ <;> first | exact hsame hb | cases hb
  | @waitAssert f held => cases f <;> first | exact hsame hb | cases hb
  | waitNew f => cases f <;> first | exact hsame hb | cases hb
  | @waitAppend f s hq => cases f <;> first | exact hsame hb | cases hb
  | waitP s f => cases f <;> first | exact hsame hb | cases hb
  | waitDelete s f => cases f <;> first | exact hsame hb | cases hb

end Codes

/-- `RemoveFront` appends nothing. -/
theorem Pc.pending_of_removing {pc : Pc T} {b : Bool} (h : pc.removing = some b) : pc.pending = none := by
  cases pc with
  | acquireP f => cases f <;> first | rfl | cases h
  | acquireHolder f => cases f <;> first | rfl | cases h
  | append item => cases h
  | _ => rfl

end Synch

namespace Kernel

variable {T : Type} [DecidableEq T]

/-- What holds of a synchronized list. -/
structure SynchListSafe (k : Kernel (Synch.client T Synch.listOps)) : Prop where
  /-- What was removed is a prefix of what was appended, and the rest is on the list. -/
  fifo : k.shared.appended = k.shared.removed ++ k.shared.list
  /-- The order is that of the critical sections: one item at a time goes to the end of the list or leaves its front, and the thread
  that does it holds the lock. -/
  in_order : ∀ ch k', k.AllowedStep ch → k.step ch = .ok k' →
    k'.shared.list = k.shared.list ∧ k'.shared.appended = k.shared.appended ∧ k'.shared.removed = k.shared.removed ∨
    k.shared.lockHolder = some k.currentThread ∧ ((∃ item, k'.shared.list = k.shared.list ++ [item] ∧
        k'.shared.appended = k.shared.appended ++ [item] ∧ k'.shared.removed = k.shared.removed) ∨
      ∃ item, k.shared.list = item :: k'.shared.list ∧ k'.shared.appended = k.shared.appended ∧
        k'.shared.removed = k.shared.removed ++ [item])
  /-- While a consumer waits, there are at most as many items as consumers signalled that have not looked at the list since. -/
  attended : k.shared.waitQueue ≠ [] → ∃ signalled : List Tid, signalled.Nodup ∧
    (∀ t, t ∈ signalled ↔ Synch.Signalled k.view t) ∧ k.shared.list.length ≤ signalled.length
  /-- The machine stops only when there is nothing to run, or at the `Append` of an item that is on the list; so `RemoveFront` takes
  nothing from an empty list. -/
  aborts : ∀ ch e, k.AllowedStep ch → k.step ch = .error e → e = .halted ∨
    e = .assertFailed ∧ ∃ item rest, k.stack k.currentThread = .code (.append item) :: rest ∧ item ∈ k.shared.list

/-- A synchronized list is a queue with no stranded item, in every reachable state. -/
theorem synchList_safe {k : Kernel (Synch.client T Synch.listOps)} (hk : (system (Synch.boot Synch.listOps)).Reachable k) :
    k.SynchListSafe := by
  have hv := view_reachable hk
  have hL := Synch.listed_of_reachable hv
  have hW := Synch.waiting_of_reachable hv
  obtain ⟨o, hO⟩ := Synch.owned_of_reachable hv
  refine ⟨hL.fifo, ?_, ?_, ?_⟩
  · intro ch k' hallowed hstep
    rcases view_step hk hallowed hstep with heq | hs
    · have hm : k'.shared = k.shared := congrArg Synch.View.monitor heq
      rw [hm]
      exact Or.inl ⟨rfl, rfl, rfl⟩
    · exact hs.items hO
  · intro hq
    obtain ⟨signalled, hnd, hmem, hle⟩ := hL.attended
    exact ⟨signalled, hnd, hmem, hle hq⟩
  · intro ch e hallowed he
    rcases (step_ends (good_of_reachable hk) hallowed).of_error he with hstops | ⟨pc, rest, hst, hcode⟩
    · rcases hstops with h | ⟨-, a, hreach, hmiss⟩
      · exact Or.inl h
      · exact absurd hmiss (Synch.not_missing ((abs_reachable hk).steps hreach))
    · obtain ⟨he, item, rfl, hi⟩ := Synch.list_error hL hW hO (view_pc_code hst) hcode
      exact Or.inr ⟨he, item, rest, hst, hi⟩

/-- A run in which threads 1 and 2 wait for items, and the main thread appends one, for which thread 1 is signalled. -/
def twoConsumers : Option (Kernel (Synch.client Nat Synch.listOps)) :=
  let go (op : Synch.Op Nat) (fresh : SemId) : Choice (Synch.client Nat Synch.listOps) := { input := { op, fresh }, due := [] }
  let consumer (t : Tid) := [go .none t, go .none t, go .removeFront t] ++ List.replicate 13 (go .none t)
  (Synch.boot Synch.listOps).kernel.execute
    ([go .none 0, go (.fork 1) 0, go .none 0, go (.fork 2) 0, go .none 0, go .yield 0] ++ consumer 1 ++ consumer 2 ++
      [go .none 0, go .none 0, go (.append 5) 0] ++ List.replicate 4 (go .none 0))

theorem synchList_safe_twoConsumers : ∃ k : Kernel (Synch.client Nat Synch.listOps), k.shared.waitQueue = [2] ∧
    k.shared.list = [5] ∧ k.SynchListSafe := by
  have hrun : (twoConsumers.map fun k => (k.shared.waitQueue, k.shared.list)) = some ([2], [5]) := by decide +kernel
  obtain ⟨k, hk, hh⟩ := Option.map_eq_some_iff.1 hrun
  obtain ⟨hq, hl⟩ := Prod.mk.inj hh
  exact ⟨k, hq, hl, synchList_safe (reachable_of_execute (.init rfl) hk)⟩

end Kernel

end Nachos
