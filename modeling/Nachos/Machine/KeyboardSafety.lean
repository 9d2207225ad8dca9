import Nachos.Machine.Keyboard
import Nachos.Threads.GuardedSafety

/-!
# What is typed arrives

Either a poll is scheduled, or there is a token: the semaphore counts one, or one thread is past `P` and has not fetched the
character. The character that `incoming` holds is what there is a token for. A byte 255 reads as `EOF`, and then nothing schedules the
next poll; so this is lost unless that byte is the last.
-/

namespace Nachos

open Loop Transition

namespace Keyboard

open Guarded

/-! ## The lock -/

/-- The lock that a thread holds at a statement. -/
def Pc.lock : Pc → Option Nat
  | .user | .done _ _ => none
  | .wait | .getChar | .release _ _ => some Keyboard.lock

/-- The code waits and fetches inside a section of the lock. -/
def sections : Sections code where
  holds := Pc.lock
  call := by
    intro t own own' pc pc' x call h
    cases pc with
    | user =>
      cases x with
      | fork t' =>
        cases h
        exact ⟨rfl, fun t₁ pc₁ e => by cases e; rfl⟩
      | getChar => cases h
      | _ =>
        cases h
        exact ⟨rfl, fun t₁ pc₁ e => nomatch e⟩
    | release n ch => cases h
    | _ =>
      cases h
      exact ⟨rfl, fun t₁ pc₁ e => nomatch e⟩
  operation := by
    intro t own own' pc x i op hop next h
    cases pc with
    | user =>
      cases x with
      | getChar =>
        cases h
        exact Or.inl ⟨rfl, rfl, fun _ => rfl⟩
      | _ => cases h
    | release n ch =>
      cases h
      exact Or.inr ⟨rfl, rfl, fun _ => rfl⟩
    | _ => cases h

/-- What a poll does: nothing, or the device's `CallBack` when one is scheduled. -/
theorem of_poll {m m' : Console} {ready : Bool} {ss : List SemId} (h : poll m ready = .ok (m', ss)) :
    m' = m ∧ ss = [] ∨ m.consoleInput.scheduled ≠ 0 ∧ m.consoleInput.incoming = EOF ∧ m'.got = m.got ∧
      (m'.consoleInput = { m.consoleInput with scheduled := m.consoleInput.scheduled - 1 + 1 } ∧ m'.endOfFile = m.endOfFile ∧ ss = [] ∨
        m.consoleInput.file = [] ∧ m'.consoleInput = { m.consoleInput with scheduled := m.consoleInput.scheduled - 1 } ∧
          m'.endOfFile = true ∧ ss = [waitFor] ∨
        ∃ b file, m.consoleInput.file = b :: file ∧ ss = [waitFor] ∧ m'.endOfFile = m.endOfFile ∧
          m'.consoleInput = { incoming := b.toInt8, scheduled := m.consoleInput.scheduled - 1, file }) := by
  unfold poll at h
  split at h
  · cases h
    exact Or.inl ⟨rfl, rfl⟩
  · rename_i hs
    obtain ⟨⟨c, avail⟩, hc, h⟩ := of_bind_ok h
    cases h
    unfold ConsoleInput.callBack at hc
    obtain ⟨hin, hc⟩ := of_assert_bind hc
    refine Or.inr ⟨hs, hin, rfl, ?_⟩
    split at hc
    · cases hc
      exact Or.inl ⟨rfl, Bool.or_false _, rfl⟩
    · dsimp only at hc
      split at hc
      · rename_i hfile
        cases hc
        refine Or.inr (Or.inl ⟨hfile, rfl, ?_, rfl⟩)
        simp [show m.consoleInput.file = [] from hfile]
      · rename_i b file hfile
        cases hc
        refine Or.inr (Or.inr ⟨b, file, hfile, rfl, ?_, rfl⟩)
        simp [show m.consoleInput.file = b :: file from hfile]

/-- A poll with nothing buffered goes through. -/
theorem poll_of {m : Console} (h : m.consoleInput.incoming = EOF) (ready : Bool) : ∃ r, poll m ready = .ok r := by
  unfold poll
  split
  · exact ⟨_, rfl⟩
  · unfold ConsoleInput.callBack
    dsimp only
    rw [assert_of h, ok_bind]
    split
    · exact ⟨_, rfl⟩
    · split <;> exact ⟨_, rfl⟩

/-- The semaphore of the console. -/
def uses : Uses code where
  used := fun s => s = waitFor
  call := by
    intro t own own' pc pc' x call h s
    cases pc with
    | user => cases x <;> cases h <;> exact ⟨nofun, nofun⟩
    | wait =>
      cases h
      refine ⟨?_, nofun⟩
      intro h
      rcases h with h | h <;> cases h
      rfl
    | release n ch => cases h
    | _ =>
      cases h
      exact ⟨nofun, nofun⟩
  device := by
    intro own own' ready ss h s hs
    rcases of_poll h with ⟨-, rfl⟩ | ⟨-, -, -, ⟨-, -, rfl⟩ | ⟨-, -, -, rfl⟩ | ⟨b, file, -, rfl, -, -⟩⟩
    · cases hs
    · cases hs
    · exact List.mem_singleton.1 hs
    · exact List.mem_singleton.1 hs

/-! ## The invariant -/

/-- The thread is past `P`, and has not fetched its character. -/
def fetching : Place Empty Pc → Bool
  | .outside .getChar => true
  | _ => false

/-- Whether there is a token: the semaphore counts one, or a thread has taken it and not fetched its character. -/
inductive Token (v : View code) : Bool → Prop where
  | none (hf : ∀ t, fetching (v.place t) = false) (hv : v.value waitFor = some 0) : Token v false
  | raised (hf : ∀ t, fetching (v.place t) = false) (hv : v.value waitFor = some 1) : Token v true
  | taken {t : Tid} (hf : fetching (v.place t) = true) (hv : v.value waitFor = some 0) : Token v true

/-- How far the console is with the bytes that are typed, and whether there is a token then. Polling ceases behind a byte that reads as
`EOF`, or behind the end of the file, for which there is one more token. -/
inductive Stage (typed : List UInt8) (m : Console) : Bool → Prop where
  | polling (fetched : List UInt8) (ht : typed = fetched ++ m.consoleInput.file) (hg : m.got.map Prod.snd = fetched.map UInt8.toInt8)
      (hi : m.consoleInput.incoming = EOF) (hs : m.consoleInput.scheduled = 1) (he : m.endOfFile = false) : Stage typed m false
  | arrived (fetched : List UInt8) (b : UInt8) (ht : typed = fetched ++ b :: m.consoleInput.file)
      (hg : m.got.map Prod.snd = fetched.map UInt8.toInt8) (hi : m.consoleInput.incoming = b.toInt8)
      (hs : m.consoleInput.scheduled = 0) (he : m.endOfFile = false) : Stage typed m true
  | ended (hf : m.consoleInput.file = []) (hg : m.got.map Prod.snd = typed.map UInt8.toInt8) (hi : m.consoleInput.incoming = EOF)
      (hs : m.consoleInput.scheduled = 0) (he : m.endOfFile = true) : Stage typed m true
  | ceased (hf : m.consoleInput.file = []) (hg : m.got.map Prod.snd = typed.map UInt8.toInt8) (hi : m.consoleInput.incoming = EOF)
      (hs : m.consoleInput.scheduled = 0) (he : m.endOfFile = false) : Stage typed m false
  | finished (hf : m.consoleInput.file = []) (hg : m.got.map Prod.snd = typed.map UInt8.toInt8 ++ [EOF])
      (hi : m.consoleInput.incoming = EOF) (hs : m.consoleInput.scheduled = 0) (he : m.endOfFile = true) : Stage typed m false

/-- A thread waits in `P` for the semaphore of the console, returns from the operations on the lock to where it should, and returns
what it has got. -/
inductive Fits (got : List (Tid × Int8)) (t : Tid) : Place Empty Pc → Prop where
  | gone : Fits got t .gone
  | user : Fits got t (.outside .user)
  | wait : Fits got t (.outside .wait)
  | inP : Fits got t (.inP waitFor .getChar)
  | getChar : Fits got t (.outside .getChar)
  | release {n : Nat} {ch : Int8} (h : got[n]? = some (t, ch)) : Fits got t (.outside (.release n ch))
  | done {n : Nat} {ch : Int8} (h : got[n]? = some (t, ch)) : Fits got t (.outside (.done n ch))
  | acquiring {i : Nat} {pc : Synch.Pc Empty} {next : Option Empty → Pc} {item : Option Empty} (hnext : ∀ item, next item = .wait) :
      Fits got t (.inside i pc next item)
  | releasing {i : Nat} {pc : Synch.Pc Empty} {next : Option Empty → Pc} {item : Option Empty} {n : Nat} {ch : Int8}
      (h : got[n]? = some (t, ch)) (hnext : ∀ item, next item = .done n ch) : Fits got t (.inside i pc next item)

/-- The invariant. -/
structure InStep (typed : List UInt8) (v : View code) : Prop where
  stage : ∃ token, Token v token ∧ Stage typed v.memory.own token
  fits : ∀ t, Fits v.memory.own.got t (v.place t)
  served : v.memory.handlerFailed = false

section InStep

variable {typed : List UInt8} {v v' : View code} {t : Tid}

theorem Fits.append {got : List (Tid × Int8)} {p : Place Empty Pc} (h : Fits got t p) (new : List (Tid × Int8)) :
    Fits (got ++ new) t p := by
  have hmono {n : Nat} {ch : Int8} (h : got[n]? = some (t, ch)) : (got ++ new)[n]? = some (t, ch) := by
    obtain ⟨hn, -⟩ := List.getElem?_eq_some_iff.1 h
    rwa [List.getElem?_append_left hn]
  cases h with
  | gone => exact .gone
  | user => exact .user
  | wait => exact .wait
  | inP => exact .inP
  | getChar => exact .getChar
  | release h => exact .release (hmono h)
  | done h => exact .done (hmono h)
  | acquiring hnext => exact .acquiring hnext
  | releasing h hnext => exact .releasing (hmono h) hnext

/-- Nothing that tells whether there is a token has changed. -/
theorem Token.congr {token : Bool} (h : Token v token) (hf : ∀ t, fetching (v'.place t) = fetching (v.place t))
    (hv : v'.value waitFor = v.value waitFor) : Token v' token := by
  cases h with
  | none hf₁ hv₁ => exact .none (fun t => (hf t).trans (hf₁ t)) (hv.trans hv₁)
  | raised hf₁ hv₁ => exact .raised (fun t => (hf t).trans (hf₁ t)) (hv.trans hv₁)
  | taken hf₁ hv₁ => exact .taken ((hf _).trans hf₁) (hv.trans hv₁)

theorem of_fetching {p : Place Empty Pc} (h : fetching p = true) : p = .outside .getChar := by
  unfold fetching at h
  split at h
  · rfl
  · cases h

theorem fetching_go {p : Place Empty Pc} (h : fetching p = fetching (v.place t)) (t' : Tid) :
    fetching ((v.go t p).place t') = fetching (v.place t') :=
  View.go_place_all v (P := fun t' q => fetching q = fetching (v.place t')) h (fun _ _ => rfl) t'

theorem InStep.fits_go (hI : InStep typed v) {p : Place Empty Pc} (new : List (Tid × Int8))
    (hp : Fits (v.memory.own.got ++ new) t p) (t' : Tid) : Fits (v.memory.own.got ++ new) t' ((v.go t p).place t') :=
  View.go_place_all v (P := Fits (v.memory.own.got ++ new)) hp (fun t' _ => (hI.fits t').append new) t'

/-- A step that touches neither the console nor the semaphore. -/
theorem InStep.goto (hI : InStep typed v) {p : Place Empty Pc} (hf : fetching p = fetching (v.place t))
    (hp : Fits v.memory.own.got t p) : InStep typed (v.go t p) := by
  obtain ⟨token, htoken, hstage⟩ := hI.stage
  refine ⟨⟨token, htoken.congr (fetching_go hf) rfl, hstage⟩, ?_, hI.served⟩
  intro t'
  have hfits := hI.fits_go (t := t) (p := p) [] (by rwa [List.append_nil]) t'
  rwa [List.append_nil] at hfits

/-- The console is all that the invariant looks at in the memory. -/
theorem InStep.setMonitor (hI : InStep typed v) (monitor : Nat → Synch.Monitor Empty) :
    InStep typed { v with memory := { v.memory with monitor } } := by
  obtain ⟨token, htoken, hstage⟩ := hI.stage
  exact ⟨⟨token, htoken.congr (fun _ => rfl) rfl, hstage⟩, hI.fits, hI.served⟩

/-- `P` goes through: the token is taken. -/
theorem InStep.take (hI : InStep typed v) {x : Int} (hx : v.value waitFor = some x) (h0 : x ≠ 0) :
    InStep typed ((v.go t (.outside .getChar)).setValue waitFor (some (x - 1))) := by
  obtain ⟨token, htoken, hstage⟩ := hI.stage
  have hfits := hI.fits_go (t := t) [] .getChar
  rw [List.append_nil] at hfits
  cases htoken with
  | none hf₁ hv => exact absurd (Option.some.inj (hx.symm.trans hv)) h0
  | raised hf₁ hv =>
    obtain rfl : x = 1 := Option.some.inj (hx.symm.trans hv)
    refine ⟨⟨true, .taken (t := t) ?_ (View.setValue_self _ _ _), hstage⟩, hfits, hI.served⟩
    rw [View.setValue_place, View.go_place_self]
    rfl
  | taken hf₁ hv => exact absurd (Option.some.inj (hx.symm.trans hv)) h0

/-- A byte reads as `EOF` only if it is 255. -/
theorem toInt8_eq_EOF {b : UInt8} (h : b.toInt8 = EOF) : b = 255 := by
  have h' : b.toInt8.toUInt8 = EOF.toUInt8 := congrArg Int8.toUInt8 h
  exact h'

/-- `GetChar` takes what has arrived out of the device. -/
theorem Stage.fetch {m : Console} (h : Stage typed m true) (h255 : 255 ∉ typed.dropLast) (t : Tid) :
    Stage typed (m.getChar t).2 false := by
  have hgot : (m.getChar t).2.got.map Prod.snd = m.got.map Prod.snd ++ [m.consoleInput.incoming] := List.map_append
  cases h with
  | arrived fetched b ht hg hi hs he =>
    have hg' : (m.getChar t).2.got.map Prod.snd = (fetched ++ [b]).map UInt8.toInt8 := by
      rw [hgot, hg, hi, List.map_append]
      rfl
    by_cases hb : b.toInt8 = EOF
    · -- the next poll is not scheduled, so nothing may be left
      have hlast : m.consoleInput.file = [] := by
        by_contra hne
        refine h255 ?_
        rw [ht, toInt8_eq_EOF hb, List.dropLast_append_of_ne_nil (List.cons_ne_nil _ _), List.dropLast_cons_of_ne_nil hne]
        exact List.mem_append_right _ List.mem_cons_self
      refine .ceased hlast ?_ rfl ?_ he
      · rw [hg', ht, hlast]
      · show (if m.consoleInput.incoming ≠ EOF then _ else _) = 0
        rw [if_neg (not_not.2 (hi.trans hb)), hs]
    · refine .polling (fetched ++ [b]) ?_ hg' rfl ?_ he
      · rw [List.append_assoc]
        exact ht
      · show (if m.consoleInput.incoming ≠ EOF then _ else _) = 1
        rw [if_pos fun h => hb (hi.symm.trans h), hs]
  | ended hf hg hi hs he =>
    refine .finished hf ?_ rfl ?_ he
    · rw [hgot, hg, hi]
    · show (if m.consoleInput.incoming ≠ EOF then _ else _) = 0
      rw [if_neg (not_not.2 hi), hs]

/-- The character is fetched, and with it the token is gone. -/
theorem InStep.fetch (hI : InStep typed v) (hH : Held sections v) (h255 : 255 ∉ typed.dropLast) (h : v.place t = .outside .getChar) :
    InStep typed ((v.setOwn (v.memory.own.getChar t).2).go t
      (.outside (.release v.memory.own.got.length (v.memory.own.getChar t).1))) := by
  have hf : fetching (v.place t) = true := by
    rw [h]
    rfl
  have hlast : (v.memory.own.got ++ [(t, (v.memory.own.getChar t).1)])[v.memory.own.got.length]? =
      some (t, (v.memory.own.getChar t).1) := List.getElem?_concat_length
  obtain ⟨token, htoken, hstage⟩ := hI.stage
  cases htoken with
  | none hf₁ hv => cases hf.symm.trans (hf₁ t)
  | raised hf₁ hv => cases hf.symm.trans (hf₁ t)
  | @taken t₁ hf₁ hv =>
    have hnone : ∀ t', fetching ((v.go t (.outside (.release v.memory.own.got.length (v.memory.own.getChar t).1))).place t') = false := by
      refine View.go_place_all v (P := fun _ q => fetching q = false) rfl ?_
      intro t' hne
      cases hf' : fetching (v.place t') with
      | false => rfl
      | true => exact absurd (hH.unique (Or.inl h) (Or.inl (of_fetching hf')) rfl rfl) hne
    exact ⟨⟨false, .none hnone hv, hstage.fetch h255 t⟩, hI.fits_go _ (.release hlast), hI.served⟩

/-- Whatever a thread does, the console stays in step. -/
theorem InStep.step (hI : InStep typed v) (hH : Held sections v) (h255 : 255 ∉ typed.dropLast) (h : Step t v v') : InStep typed v' := by
  have hfits := hI.fits t
  cases h with
  | @call _ pc pc' x own call h hcode hcalls =>
    rw [h] at hfits
    cases pc with
    | user =>
      have hf : fetching (v.place t) = false := by
        rw [h]
        rfl
      have hstay : InStep typed (v.go t (.outside .user)) := hI.goto hf.symm .user
      cases x with
      | none =>
        cases hcode
        exact hcalls.of_quiet rfl ▸ hstay
      | yield =>
        cases hcode
        exact hcalls.of_quiet rfl ▸ hstay
      | fork t' =>
        cases hcode
        obtain ⟨hne, hgone, hv⟩ := hcalls.of_fork
        have hgone' : (v.go t (.outside .user)).place t' = .gone := (View.go_place_other v hne _).trans hgone
        exact hv ▸ hstay.goto (congrArg fetching hgone').symm .user
      | finish =>
        cases hcode
        have hgo : InStep typed (v.go t .gone) := hI.goto hf.symm .gone
        exact hcalls.of_finish ▸ hgo
      | getChar => cases hcode
    | wait =>
      have hf : fetching (v.place t) = false := by
        rw [h]
        rfl
      cases hcode
      rcases hcalls.of_p with ⟨x, hx, h0, hv⟩ | hv
      · exact hv ▸ hI.take hx h0
      · have hgo : InStep typed (v.go t (.inP waitFor .getChar)) := hI.goto hf.symm .inP
        exact hv ▸ hgo
    | getChar =>
      cases hcode
      rw [hcalls.of_quiet rfl]
      exact hI.fetch hH h255 h
    | release n ch => cases hcode
    | done n ch =>
      cases hcode
      have hgo : InStep typed (v.go t (.outside .user)) := hI.goto (by rw [h]; rfl) .user
      exact hcalls.of_quiet rfl ▸ hgo
  | @enter pc x own i op hop next h hcode =>
    rw [h] at hfits
    cases pc with
    | user =>
      cases x with
      | getChar =>
        cases hcode
        exact InStep.goto (v := v) hI (by rw [h]; rfl) (.acquiring fun _ => rfl)
      | _ => cases hcode
    | release n ch =>
      cases hcode
      cases hfits with
      | release hgot => exact InStep.goto (v := v) hI (by rw [h]; rfl) (.releasing hgot fun _ => rfl)
    | _ => cases hcode
  | @within i pc pc' next item x m call h hcodes =>
    rw [h] at hfits
    have hm := hI.setMonitor (Function.update v.memory.monitor i m)
    refine InStep.goto (p := .inside i pc' next _) hm (by rw [h]; rfl) ?_
    cases hfits with
    | acquiring hnext => exact .acquiring hnext
    | releasing hgot hnext => exact .releasing hgot hnext
  | @leave i next item h =>
    rw [h] at hfits
    cases hfits with
    | acquiring hnext =>
      rw [hnext]
      exact hI.goto (by rw [h]; rfl) .wait
    | releasing hgot hnext =>
      rw [hnext]
      exact hI.goto (by rw [h]; rfl) (.done hgot)
  | @take s pc x h hx h0 =>
    rw [h] at hfits
    cases hfits
    exact hI.take hx h0

/-- The semaphore is raised, when there was no token. -/
theorem Token.raise {m : Console} (h : Token v false) : Token ((v.setOwn m).raise [waitFor]) true := by
  cases h with
  | none hf hv =>
    refine .raised hf ?_
    show Function.update v.value waitFor ((v.value waitFor).map (· + 1)) waitFor = some 1
    rw [Function.update_self, hv]
    rfl

theorem InStep.handles (hI : InStep typed v) (h : Handles v v') : InStep typed v' := by
  obtain ⟨token, htoken, hstage⟩ := hI.stage
  cases h with
  | @served ready m ss h =>
    rcases of_poll h with ⟨rfl, rfl⟩ | ⟨hsched, hin, hgot, hpoll⟩
    · exact hI
    · cases hstage with
      | polling fetched ht hg hi hs he =>
        have hfits (ss : List SemId) (t : Tid) : Fits ((v.setOwn m).raise ss).memory.own.got t (((v.setOwn m).raise ss).place t) := by
          rw [View.raise_memory, View.raise_place, View.setOwn_own, hgot]
          exact hI.fits t
        rcases hpoll with ⟨hc, hend, rfl⟩ | ⟨hfile, hc, hend, rfl⟩ | ⟨b, file, hfile, rfl, hend, hc⟩
        · refine ⟨⟨false, htoken.congr (fun _ => rfl) rfl, .polling fetched ?_ ?_ ?_ ?_ (hend.trans he)⟩, hfits [], hI.served⟩
          · show typed = fetched ++ m.consoleInput.file
            rw [hc]
            exact ht
          · show m.got.map Prod.snd = _
            rw [hgot]
            exact hg
          · show m.consoleInput.incoming = EOF
            rw [hc]
            exact hi
          · show m.consoleInput.scheduled = 1
            rw [hc, hs]
        · refine ⟨⟨true, htoken.raise, .ended ?_ ?_ ?_ ?_ hend⟩, hfits _, hI.served⟩
          · show m.consoleInput.file = []
            rw [hc]
            exact hfile
          · show m.got.map Prod.snd = _
            rw [hgot, hg, ht, hfile, List.append_nil]
          · show m.consoleInput.incoming = EOF
            rw [hc]
            exact hi
          · show m.consoleInput.scheduled = 0
            rw [hc, hs]
        · refine ⟨⟨true, htoken.raise, .arrived fetched b ?_ ?_ ?_ ?_ (hend.trans he)⟩, hfits _, hI.served⟩
          · show typed = fetched ++ b :: m.consoleInput.file
            rw [hc, ht, hfile]
          · show m.got.map Prod.snd = _
            rw [hgot]
            exact hg
          · show m.consoleInput.incoming = b.toInt8
            rw [hc]
          · show m.consoleInput.scheduled = 0
            rw [hc, hs]
      | arrived fetched b ht hg hi hs => exact absurd hs hsched
      | ended hf hg hi hs => exact absurd hs hsched
      | ceased hf hg hi hs => exact absurd hs hsched
      | finished hf hg hi hs => exact absurd hs hsched
  | @failed ready e h =>
    have hnot (hin : v.memory.own.consoleInput.incoming = EOF) :
        InStep typed { v with memory := { v.memory with handlerFailed := true } } := by
      obtain ⟨r, hr⟩ := poll_of hin ready
      cases hr.symm.trans h
    cases hstage with
    | polling fetched ht hg hi hs => exact hnot hi
    | arrived fetched b ht hg hi hs =>
      have hidle : poll v.memory.own ready = .ok (v.memory.own, []) := if_pos hs
      cases hidle.symm.trans h
    | ended hf hg hi hs => exact hnot hi
    | ceased hf hg hi hs => exact hnot hi
    | finished hf hg hi hs => exact hnot hi

end InStep

theorem inStep_start (typed : List UInt8) :
    InStep typed (View.start (g := code) (.new typed) .user fun s => if s = waitFor then some 0 else none) := by
  refine ⟨⟨false, .none ?_ rfl, .polling [] rfl rfl rfl rfl rfl⟩, ?_, rfl⟩
  · intro t
    show fetching (if t = mainThread then .outside .user else .gone) = false
    split <;> rfl
  · intro t
    show Fits [] t (if t = mainThread then .outside .user else .gone)
    split
    · exact .user
    · exact .gone

theorem inStep_of_reachable {typed : List UInt8} (h255 : 255 ∉ typed.dropLast) {a : Abs (Guarded.client code)}
    (ha : (Abs.system (boot typed)).Reachable a) : InStep typed (view a) :=
  invariant (inStep_start typed) (fun _ _ _ ha _ hstep hI => hI.step (held_of_reachable sections rfl ha) h255 hstep)
    (fun _ _ hh hI => hI.handles hh) ha

end Keyboard

namespace Kernel

open Keyboard

variable {typed : List UInt8} {k : Kernel (Guarded.client Keyboard.code)}

/-- The calls of `GetChar` and of `ConsoleInput::CallBack` have gone through. -/
structure InputServed (k : Kernel (Guarded.client Keyboard.code)) : Prop where
  /-- A call of `GetChar` returns the character that its thread has got, and each number was given out once. -/
  returns : ∀ t n ch, k.guarded.place t = .outside (.done n ch) → k.shared.own.got[n]? = some (t, ch)
  /-- The `ASSERT` of `ConsoleInput::CallBack` has not failed. -/
  served : k.shared.handlerFailed = false
  /-- No other `ASSERT` fails. -/
  aborts : ∀ ch e, k.AllowedStep ch → k.step ch = .error e → e = .halted

/-- What is typed arrives: `fetched` are the bytes that were fetched, and `buffered` is what is in the device. -/
structure InputFaithful (typed fetched buffered : List UInt8) (k : Kernel (Guarded.client Keyboard.code)) : Prop extends
    InputServed k where
  /-- Every byte typed was fetched, is in the device, or is still to be read from the host. -/
  bytes : typed = fetched ++ buffered ++ k.shared.own.consoleInput.file
  /-- The characters got are the bytes fetched, in order. -/
  got : k.shared.own.got.map Prod.snd = fetched.map UInt8.toInt8
  /-- At most one byte is in the device, in `incoming`. -/
  incoming : buffered = [] ∧ k.shared.own.consoleInput.incoming = EOF ∨
    ∃ b, buffered = [b] ∧ k.shared.own.consoleInput.incoming = b.toInt8
  /-- As long as there are bytes to be fetched, one is in the device, a poll is scheduled, or the semaphore is positive. -/
  polled : fetched ≠ typed → buffered ≠ [] ∨ 0 < k.shared.own.consoleInput.scheduled ∨ ∃ x, k.guarded.value waitFor = some x ∧ 0 < x

/-- The host has come to the end of the file: all that was typed has been got, and `EOF` once behind it, or will be. -/
structure InputEnded (typed : List UInt8) (k : Kernel (Guarded.client Keyboard.code)) : Prop extends InputServed k where
  file : k.shared.own.consoleInput.file = []
  incoming : k.shared.own.consoleInput.incoming = EOF
  got : k.shared.own.got.map Prod.snd = typed.map UInt8.toInt8 ∨ k.shared.own.got.map Prod.snd = typed.map UInt8.toInt8 ++ [EOF]

/-- When no byte but the last is 255, in every reachable state: what is typed arrives as long as the host has not reported the end of the
file, which it does by a read of no bytes, and `EOF` arrives once behind it. -/
theorem input_faithful (h255 : 255 ∉ typed.dropLast) (hk : (system (boot typed)).Reachable k) :
    (k.shared.own.endOfFile = false → ∃ fetched buffered, k.InputFaithful typed fetched buffered) ∧
      (k.shared.own.endOfFile = true → k.InputEnded typed) := by
  have ha := abs_reachable hk
  have hI := inStep_of_reachable h255 ha
  have hreturns (t : Tid) (n : Nat) (ch : Int8) (hp : k.guarded.place t = .outside (.done n ch)) :
      k.shared.own.got[n]? = some (t, ch) := by
    have hfits := hI.fits t
    have hp' : (Guarded.view k.abs).place t = .outside (.done n ch) := hp
    rw [hp'] at hfits
    cases hfits with
    | done h => exact h
  have haborts (ch : Choice (Guarded.client Keyboard.code)) (e : Fault) (hallowed : k.AllowedStep ch) (he : k.step ch = .error e) :
      e = .halted := by
    rcases guarded_fails (U := uses) (ne_none_of_used 0) hk hallowed he with h | ⟨pc, -, hcode⟩ | h
    · exact h
    · cases pc with
      | user =>
        generalize ch.input.own = x at hcode
        cases x <;> cases hcode
      | _ => cases hcode
    · exact absurd h (not_operationFails (Guarded.held_of_reachable sections rfl ha))
  have hserved : k.InputServed := ⟨hreturns, hI.served, haborts⟩
  obtain ⟨token, -, hstage⟩ := hI.stage
  have hstage' : Stage typed k.shared.own token := hstage
  cases hstage' with
  | polling fetched ht hg hi hs he =>
    refine ⟨fun _ => ⟨fetched, [], hserved, ?_, hg, Or.inl ⟨rfl, hi⟩, fun _ => Or.inr (Or.inl (by omega))⟩, ?_⟩
    · rwa [List.append_nil]
    · exact fun hend => Bool.noConfusion (he.symm.trans hend)
  | arrived fetched b ht hg hi hs he =>
    refine ⟨fun _ => ⟨fetched, [b], hserved, ?_, hg, Or.inr ⟨b, rfl, hi⟩, fun _ => Or.inl (List.cons_ne_nil _ _)⟩, ?_⟩
    · rwa [List.append_assoc]
    · exact fun hend => Bool.noConfusion (he.symm.trans hend)
  | ended hf hg hi hs he =>
    exact ⟨fun hend => Bool.noConfusion (he.symm.trans hend), fun _ => ⟨hserved, hf, hi, Or.inl hg⟩⟩
  | ceased hf hg hi hs he =>
    refine ⟨fun _ => ⟨typed, [], hserved, ?_, hg, Or.inl ⟨rfl, hi⟩, fun h => absurd rfl h⟩, ?_⟩
    · rw [hf, List.append_nil, List.append_nil]
    · exact fun hend => Bool.noConfusion (he.symm.trans hend)
  | finished hf hg hi hs he =>
    exact ⟨fun hend => Bool.noConfusion (he.symm.trans hend), fun _ => ⟨hserved, hf, hi, Or.inr hg⟩⟩

/-- A run in which the main thread calls `GetChar` again and again; each time it sleeps until the host is ready, and returns with the
character. -/
def getChars (typed : List UInt8) (calls : Nat) : Option (Kernel (Guarded.client Keyboard.code)) :=
  let go (x : Keyboard.Input) (due : List (Handler (Guarded.client Keyboard.code))) : Choice (Guarded.client Keyboard.code) :=
    { input := { own := x, fresh := 0 }, due }
  let call := [go .none [], go .getChar []] ++ List.replicate 5 (go .none []) ++ [go .none [.device true]] ++ List.replicate 11 (go .none [])
  (boot typed).kernel.execute (List.replicate calls call).flatten

/-- What is seen of the console: the characters got, what is left at the host and whether it has come to the end, `incoming`, the polls
scheduled, and the semaphore. -/
structure Summary where
  got : List Int8
  file : List UInt8
  endOfFile : Bool
  incoming : Int8
  scheduled : Nat
  value : Option Int
  deriving DecidableEq

def summary (k : Kernel (Guarded.client Keyboard.code)) : Summary where
  got := k.shared.own.got.map Prod.snd
  file := k.shared.own.consoleInput.file
  endOfFile := k.shared.own.endOfFile
  incoming := k.shared.own.consoleInput.incoming
  scheduled := k.shared.own.consoleInput.scheduled
  value := k.guarded.value waitFor

/-- Two bytes arrive in two calls. Behind the end of a file of one byte, the second call gets `EOF`. -/
theorem input_faithful_sixtyFive :
    (∃ k : Kernel (Guarded.client Keyboard.code), summary k = ⟨[65, 66], [], false, EOF, 1, some 0⟩ ∧
      ∃ fetched buffered, k.InputFaithful [65, 66] fetched buffered) ∧
    ∃ k : Kernel (Guarded.client Keyboard.code), summary k = ⟨[65, EOF], [], true, EOF, 0, some 0⟩ ∧ k.InputEnded [65] := by
  have hrun : (getChars [65, 66] 2).map summary = some ⟨[65, 66], [], false, EOF, 1, some 0⟩ := by decide +kernel
  have hrun' : (getChars [65] 2).map summary = some ⟨[65, EOF], [], true, EOF, 0, some 0⟩ := by decide +kernel
  obtain ⟨k, hk, hsummary⟩ := Option.map_eq_some_iff.1 hrun
  obtain ⟨k', hk', hsummary'⟩ := Option.map_eq_some_iff.1 hrun'
  have hend : k.shared.own.endOfFile = false := congrArg Summary.endOfFile hsummary
  have hend' : k'.shared.own.endOfFile = true := congrArg Summary.endOfFile hsummary'
  exact ⟨⟨k, hsummary, (input_faithful (by decide) (reachable_of_execute (.init rfl) hk)).1 hend⟩,
    k', hsummary', (input_faithful (by decide) (reachable_of_execute (.init rfl) hk')).2 hend'⟩

/-- With bytes left at the host, no poll scheduled and the semaphore at 0, a byte is in the device. -/
theorem InputFaithful.in_device {typed fetched buffered : List UInt8} (hF : k.InputFaithful typed fetched buffered)
    (hfile : k.shared.own.consoleInput.file ≠ []) (hsched : k.shared.own.consoleInput.scheduled = 0)
    (hvalue : k.guarded.value waitFor = some 0) : buffered ≠ [] := by
  have hne : fetched ≠ typed := by
    intro heq
    have hlength := congrArg List.length hF.bytes
    rw [heq, List.length_append, List.length_append] at hlength
    have := List.length_pos_iff.2 hfile
    omega
  rcases hF.polled hne with hb | hs | ⟨x, hx, h0⟩
  · exact hb
  · omega
  · obtain rfl := Option.some.inj (hvalue.symm.trans hx)
    exact absurd h0 (lt_irrefl 0)

/-- When 255 and then 65 are typed, nothing polls for the 65 after the first `GetChar`. -/
theorem not_faithful_twoFiftyFive : ¬∀ k, (system (boot [255, 65])).Reachable k →
    ∃ fetched buffered, k.InputFaithful [255, 65] fetched buffered := by
  intro h
  have hrun : (getChars [255, 65] 1).map summary = some ⟨[EOF], [65], false, EOF, 0, some 0⟩ := by decide +kernel
  obtain ⟨k, hk, hsummary⟩ := Option.map_eq_some_iff.1 hrun
  have hfile : k.shared.own.consoleInput.file = [65] := congrArg Summary.file hsummary
  obtain ⟨fetched, buffered, hF⟩ := h k (reachable_of_execute (.init rfl) hk)
  refine hF.in_device (by rw [hfile]; exact List.cons_ne_nil _ _) (congrArg Summary.scheduled hsummary) (congrArg Summary.value hsummary) ?_
  have hlength := congrArg List.length ((congrArg Summary.got hsummary).symm.trans hF.got)
  have hbytes := congrArg List.length hF.bytes
  rw [List.length_map] at hlength
  rw [hfile, List.length_append, List.length_append, ← hlength] at hbytes
  exact List.length_eq_zero_iff.1 (by simpa using hbytes)

/-- When one byte is typed and the file ends behind it, the second `GetChar` returns a character that was not typed. -/
theorem not_faithful_endOfFile : ¬∀ k, (system (boot [65])).Reachable k → ∃ fetched buffered, k.InputFaithful [65] fetched buffered := by
  intro h
  have hrun : (getChars [65] 2).map summary = some ⟨[65, EOF], [], true, EOF, 0, some 0⟩ := by decide +kernel
  obtain ⟨k, hk, hsummary⟩ := Option.map_eq_some_iff.1 hrun
  obtain ⟨fetched, buffered, hF⟩ := h k (reachable_of_execute (.init rfl) hk)
  have hlength := congrArg List.length ((congrArg Summary.got hsummary).symm.trans hF.got)
  have hbytes := congrArg List.length hF.bytes
  rw [List.length_map] at hlength
  rw [List.length_append, List.length_append, ← hlength] at hbytes
  simp only [List.length_cons, List.length_nil] at hbytes
  omega

end Kernel

end Nachos
