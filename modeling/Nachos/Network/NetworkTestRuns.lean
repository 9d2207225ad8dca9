import Nachos.Network.NetworkTestSafety

/-!
# The greetings are exchanged

Every message is in one place: not sent, lost, on the wire, in the network input of the machine that it is for, in its mail box, or read.
The count of these places is the invariant (`Exchange`) of the runs of both machines.
-/

namespace Nachos

namespace NetworkTest

open Loop Bytes PostOffice Wire Transition

variable {h : Fin 2} {s s' : Host} {b : Option Kind}

/-! ## Where the messages are -/

/-- Where the messages are: those on the wire, and those in the network inputs. Together with those in boxes, read or lost they are the
messages that have been sent. -/
structure Exchange (w : World) (flight : List Message) (buffered : Fin 2 → Option Kind) : Prop where
  wire : List.Forall₂ Says flight w.flight
  hosts : ∀ h, Sound h (w.hosts h) (buffered h)
  count : ∀ h k, flight.count (h, k) + (buffered h).toList.count k + ((w.hosts h).boxes k.box).length + (w.hosts h).pc.hasRead k +
    w.lost.count (h, k) = (w.hosts (far h)).pc.hasSent k

/-- How much can still happen. -/
def World.work (w : World) : Nat := ((List.finRange 2).map fun h => (w.hosts h).work).sum + 2 * w.flight.length

variable {w w' : World} {flight flight' : List Message} {buffered : Fin 2 → Option Kind}

theorem work_eq (h : Fin 2) (w : World) : w.work = (w.hosts h).work + (w.hosts (far h)).work + 2 * w.flight.length := by
  have hsum : ((List.finRange 2).map fun h => (w.hosts h).work).sum = (w.hosts 0).work + (w.hosts (far 0)).work := rfl
  unfold World.work
  rw [hsum]
  rcases eq_or_eq_far 0 h with rfl | rfl
  · rfl
  · rw [far_far, Nat.add_comm (w.hosts 0).work]

@[simp] theorem set_hosts (w : World) (h : Fin 2) (s : Host) : (w.set h s).hosts h = s := by simp [World.set]

@[simp] theorem set_hosts_far (w : World) (h : Fin 2) (s : Host) : (w.set h s).hosts (far h) = w.hosts (far h) := by
  simp [World.set, far_ne]

@[simp] theorem set_lost (w : World) (h : Fin 2) (s : Host) : (w.set h s).lost = w.lost := rfl

/-- One machine has changed, and what is between the machines. -/
theorem Exchange.set (hE : Exchange w flight buffered) {packets : List Datagram} {lost : List (Fin 2 × Kind)}
    (hwire : List.Forall₂ Says flight' packets) (hs : Sound h s b)
    (hreceived : ∀ k, flight'.count (h, k) + b.toList.count k + (s.boxes k.box).length + s.pc.hasRead k + lost.count (h, k) =
      (w.hosts (far h)).pc.hasSent k)
    (hsent : ∀ k, flight'.count (far h, k) + (buffered (far h)).toList.count k + ((w.hosts (far h)).boxes k.box).length +
      (w.hosts (far h)).pc.hasRead k + lost.count (far h, k) = s.pc.hasSent k) :
    Exchange { w.set h s with flight := packets, lost := lost } flight' (Function.update buffered h b) := by
  refine ⟨hwire, ?_, ?_⟩
  · intro h'
    rcases eq_or_eq_far h h' with rfl | rfl
    · dsimp only
      rw [set_hosts, Function.update_self]
      exact hs
    · dsimp only
      rw [set_hosts_far, Function.update_of_ne (far_ne h)]
      exact hE.hosts (far h)
  · intro h' k
    rcases eq_or_eq_far h h' with rfl | rfl
    · dsimp only
      rw [set_hosts, set_hosts_far, Function.update_self]
      exact hreceived k
    · dsimp only
      rw [far_far, set_hosts, set_hosts_far, Function.update_of_ne (far_ne h)]
      exact hsent k

theorem count_message (h : Fin 2) (k k' : Kind) : [(h, k)].count (h, k') = if k' = k then 1 else 0 := by
  by_cases hk : k' = k
  · simp [hk]
  · simp [hk, Ne.symm hk]

theorem count_some (k k' : Kind) : (some k).toList.count k' = if k' = k then 1 else 0 := by
  by_cases hk : k' = k
  · simp [hk]
  · simp [hk, Ne.symm hk]

theorem count_far (h : Fin 2) (k k' : Kind) : [(far h, k)].count (h, k') = 0 := by simp [far_ne]

theorem count_of_far (h : Fin 2) (k k' : Kind) : [(h, k)].count (far h, k') = 0 := by simp [(far_ne h).symm]

/-- A statement of the test keeps the count. -/
theorem Exchange.did (hE : Exchange w flight buffered) {lost : Bool} {sent : Option Datagram}
    (hdid : Did h (w.hosts h) (buffered h) lost s sent) :
    ∃ flight', Exchange { w.set h s with
        flight := w.flight ++ sent.toList
        lost := if lost then w.lost ++ ((w.hosts h).pc.sends.map fun k => (far h, k)).toList else w.lost } flight'
      (Function.update buffered h (buffered h)) := by
  have hreceived := hE.count h
  have hsent := hE.count (far h)
  rw [far_far] at hsent
  cases hdid with
  | @sends k d _ hsends hd hs _ hboxes hread hhas =>
    rw [hsends]
    cases lost with
    | true =>
      refine ⟨flight, hE.set ?_ hs ?_ ?_⟩
      · exact (List.append_nil w.flight).symm ▸ hE.wire
      · intro k'
        simp only [if_true, Option.map_some, Option.toList_some, List.count_append, count_far]
        rw [hboxes, hread k', ← hreceived k']
        omega
      · intro k'
        simp only [if_true, Option.map_some, Option.toList_some, List.count_append, count_message]
        rw [hhas k', ← hsent k']
        omega
    | false =>
      refine ⟨flight ++ [(far h, k)], hE.set ?_ hs ?_ ?_⟩
      · exact List.rel_append hE.wire (.cons hd .nil)
      · intro k'
        simp only [Bool.false_eq_true, if_false, List.count_append, count_far]
        rw [hboxes, hread k', ← hreceived k']
        omega
      · intro k'
        simp only [Bool.false_eq_true, if_false, List.count_append, count_message]
        rw [hhas k', ← hsent k']
        omega
  | returns hsends hs _ hboxes hread hhas =>
    rw [hsends, Option.map_none, Option.toList_none, List.append_nil, Option.toList_none, List.append_nil, ite_self]
    refine ⟨flight, hE.set hE.wire hs ?_ ?_⟩
    · intro k'
      rw [hboxes, hread k', ← hreceived k']
    · intro k'
      rw [hhas k', ← hsent k']
  | reads hsends hs _ hboxes hread hhas =>
    rw [hsends, Option.map_none, Option.toList_none, List.append_nil, Option.toList_none, List.append_nil, ite_self]
    refine ⟨flight, hE.set hE.wire hs ?_ ?_⟩
    · intro k'
      rw [hread k', ← hreceived k', hboxes k']
      omega
    · intro k'
      rw [hhas k', ← hsent k']

theorem Sound.buffered_none (hs : Sound h s b) (hempty : s.networkIn.inHdr.length = 0) : b = none := by
  cases b with
  | none => rfl
  | some k =>
    obtain ⟨-, d, -, hbuffered⟩ := hs.full k rfl
    rw [hbuffered.inHdr] at hempty
    exact absurd hempty (Nat.succ_ne_zero _)

/-- A packet on the wire is a message for the machine that its socket name names. -/
theorem Exchange.packet (hE : Exchange w flight buffered) {d : Datagram} {before after : List Datagram}
    (hflight : w.flight = before ++ d :: after) (hname : d.toName = socketName (hostName h)) :
    ∃ k l l', Says (h, k) d ∧ flight = l ++ (h, k) :: l' ∧ List.Forall₂ Says (l ++ l') (before ++ after) := by
  have hwire := hE.wire
  rw [hflight] at hwire
  have hbefore := List.forall₂_take_append _ _ _ hwire
  obtain ⟨m, l', hd, hafter, hl'⟩ := List.forall₂_cons_right_iff.1 (List.forall₂_drop_append _ _ _ hwire)
  obtain ⟨h', k⟩ := m
  have hhost : h' = h := socketName_injective h' h (hd.toName.symm.trans hname)
  subst hhost
  refine ⟨k, _, l', hd, ?_, List.rel_append hbefore hafter⟩
  rw [← hl', List.take_append_drop]

/-- Every step keeps the count, and there is less left to do. -/
theorem Exchange.step (hE : Exchange w flight buffered) (hstep : Step w h w') :
    (∃ flight' buffered', Exchange w' flight' buffered') ∧ w'.work < w.work := by
  have hreceived := hE.count h
  have hsent := hE.count (far h)
  rw [far_far] at hsent
  rw [work_eq h w', work_eq h w]
  cases hstep with
  | @main s lost junk wireJunk sent hmain =>
    obtain ⟨r, hr, -, hdid⟩ := main_of (hE.hosts h) lost junk wireJunk
    have hdid := hdid _ _ (Except.ok.inj (hr.symm.trans hmain))
    obtain ⟨flight', hE'⟩ := hE.did hdid
    refine ⟨⟨flight', _, hE'⟩, ?_⟩
    dsimp only
    rw [set_hosts, set_hosts_far, List.length_append]
    cases hdid with
    | sends _ _ _ hwork => cases lost <;> simp <;> omega
    | returns _ _ hwork => simp; omega
    | reads _ _ hwork => simp; omega
  | sendInt hint =>
    obtain ⟨hs, hpc, hboxes, hwork⟩ := sendInt_of (hE.hosts h) hint
    refine ⟨⟨flight, _, hE.set hE.wire hs ?_ ?_⟩, ?_⟩
    · intro k
      rw [hboxes, hpc]
      exact hreceived k
    · intro k
      rw [hpc]
      exact hsent k
    · rw [set_hosts, set_hosts_far]
      show _ + 2 * w.flight.length < _
      omega
  | @poll s junk d before after hflight hname hempty hpoll =>
    obtain ⟨k, l, l', hd, rfl, hwire⟩ := hE.packet hflight hname
    have hs := hE.hosts h
    have hnone := hs.buffered_none hempty
    rw [hnone] at hs hreceived
    obtain ⟨s', hs', hsound, hpc, hboxes, hwork⟩ := poll_of hs hd junk
    cases hs'.symm.trans hpoll
    refine ⟨⟨l ++ l', _, hE.set hwire hsound ?_ ?_⟩, ?_⟩
    · intro k'
      have hcount := hreceived k'
      rw [List.count_append, ← List.singleton_append, List.count_append, count_message, Option.toList_none, List.count_nil] at hcount
      rw [hboxes, hpc, set_lost, List.count_append, count_some, ← hcount]
      omega
    · intro k'
      have hcount := hsent k'
      rw [List.count_append, ← List.singleton_append, List.count_append, count_of_far, Nat.zero_add] at hcount
      rw [hpc, List.count_append]
      exact hcount
    · dsimp only
      rw [set_hosts, set_hosts_far, hflight, List.length_append, List.length_append, List.length_cons]
      omega
  | @deliver s junk hdeliver =>
    obtain ⟨r, hr, -, hsome⟩ := deliver_of (hE.hosts h) junk
    obtain ⟨k, hk, hsound, hpc, hwork, hboxes⟩ := hsome _ (Except.ok.inj (hr.symm.trans hdeliver))
    rw [hk] at hreceived
    refine ⟨⟨flight, _, hE.set hE.wire hsound ?_ ?_⟩, ?_⟩
    · intro k'
      rw [hpc, hboxes k', ← hreceived k', count_some, Option.toList_none, List.count_nil]
      omega
    · intro k'
      rw [hpc]
      exact hsent k'
    · rw [set_hosts, set_hosts_far]
      show _ + 2 * w.flight.length < _
      omega

theorem Exchange.start (junk : Fin 2 → Host) : Exchange (start junk) [] fun _ => none where
  wire := .nil
  hosts h := Sound.start (junk h)
  count _ k := by cases k <;> rfl

/-- Nothing that can happen fails. -/
theorem Exchange.not_faults (hE : Exchange w flight buffered) : ¬Faults w := by
  rintro ⟨h, e, ⟨lost, junk, wireJunk, hmain⟩ | ⟨junk, d, hmem, hname, hpoll⟩ | ⟨junk, hdeliver⟩⟩
  · obtain ⟨r, hr, -⟩ := main_of (hE.hosts h) lost junk wireJunk
    cases hr.symm.trans hmain
  · obtain ⟨before, after, hflight⟩ := List.append_of_mem hmem
    obtain ⟨k, l, l', hd, -⟩ := hE.packet hflight hname
    have hs := hE.hosts h
    by_cases hempty : (w.hosts h).networkIn.inHdr.length = 0
    · rw [hs.buffered_none hempty] at hs
      obtain ⟨s', hs', -⟩ := poll_of hs hd junk
      cases hs'.symm.trans hpoll
    · unfold Host.poll Wire.NetworkInput.callBack at hpoll
      rw [if_pos hempty] at hpoll
      cases hpoll
  · obtain ⟨r, hr, -⟩ := deliver_of (hE.hosts h) junk
    cases hr.symm.trans hdeliver

/-! ## When nothing can happen -/

theorem main_sleeps (hsleeps : Sleeps s) (lost : Bool) (junk wireJunk : Buf) : s.main (hostName h) lost junk wireJunk = .ok none := by
  unfold Host.main
  cases hsleeps with
  | interrupt hpc hsent => rcases hpc with hpc | hpc <;> rw [hpc] <;> simp [Host.wait, hsent] <;> rfl
  | hello hpc hempty =>
    rw [hpc]
    change (s.collect .acknowledge Kind.hello.box >>= _) = _
    rw [collect_empty _ _ hempty]
    rfl
  | ack hpc hempty =>
    rw [hpc]
    change (s.collect .done Kind.ack.box >>= _) = _
    rw [collect_empty _ _ hempty]
    rfl
  | done hpc => rw [hpc]; rfl

/-- Unless nothing can happen, something can happen that loses no packet. -/
theorem Exchange.lossless (hE : Exchange w flight buffered) (hw : ¬Stuck w) : ∃ h w', Step w h w' ∧ w'.lost = w.lost := by
  unfold Stuck at hw
  push Not at hw
  obtain ⟨h, w', hstep⟩ := hw
  cases hstep with
  | @main s lost junk wireJunk sent hmain =>
    obtain ⟨r, hr, hnone, -⟩ := main_of (hE.hosts h) false junk wireJunk
    cases r with
    | none => cases (main_sleeps (hnone rfl) lost junk wireJunk).symm.trans hmain
    | some r => exact ⟨h, _, .main hr, rfl⟩
  | sendInt hint => exact ⟨h, _, .sendInt hint, rfl⟩
  | poll hflight hname hempty hpoll => exact ⟨h, _, .poll hflight hname hempty hpoll, rfl⟩
  | deliver hdeliver => exact ⟨h, _, .deliver hdeliver, rfl⟩

/-- When nothing can happen, both threads sleep or are done, and no message is on its way. -/
theorem Exchange.stuck (hE : Exchange w flight buffered) (hw : Stuck w) :
    flight = [] ∧ ∀ h, Sleeps (w.hosts h) ∧ buffered h = none ∧ (w.hosts h).sendInts = 0 := by
  have hnone : ∀ h, buffered h = none := by
    intro h
    obtain ⟨r, hr, hnone, -⟩ := deliver_of (hE.hosts h) fun _ => 0
    cases r with
    | none => exact hnone rfl
    | some s => exact absurd (.deliver hr) (hw h _)
  refine ⟨?_, fun h => ⟨?_, hnone h, ?_⟩⟩
  · cases hflight : w.flight with
    | nil =>
      have hwire := hE.wire
      rw [hflight] at hwire
      exact List.forall₂_nil_right_iff.1 hwire
    | cons d after =>
      have hwire := hE.wire
      rw [hflight] at hwire
      obtain ⟨⟨h, k⟩, l, hd, -, -⟩ := List.forall₂_cons_right_iff.1 hwire
      have hs := hE.hosts h
      rw [hnone h] at hs
      obtain ⟨s, hpoll, -⟩ := poll_of hs hd fun _ => 0
      have hstep : Step w h { w.set h s with flight := [] ++ after } := .poll hflight hd.toName (hs.empty rfl).1 hpoll
      exact absurd hstep (hw h _)
  · obtain ⟨r, hr, hsleeps, -⟩ := main_of (hE.hosts h) false (fun _ => 0) fun _ => 0
    cases r with
    | none => exact hsleeps rfl
    | some r => exact absurd (.main hr) (hw h _)
  · by_contra hne
    have hint : (w.hosts h).sendInt = some _ := if_neg hne
    exact hw h _ (.sendInt hint)

/-- A thread that sleeps when nothing can happen waits for a message. -/
theorem Sound.waiting (hs : Sound h s b) (hsleeps : Sleeps s) (hints : s.sendInts = 0) :
    s.pc = .receive ∧ (s.boxes Kind.hello.box).length = 0 ∨ s.pc = .receiveAck ∧ (s.boxes Kind.ack.box).length = 0 ∨ s.pc = .done := by
  cases hsleeps with
  | interrupt hpc hsent =>
    have hwaits := hs.waits
    rw [if_pos hpc, hints, hsent] at hwaits
    cases hwaits
  | hello hpc hempty => exact .inl ⟨hpc, by rw [hempty]; rfl⟩
  | ack hpc hempty => exact .inr (.inl ⟨hpc, by rw [hempty]; rfl⟩)
  | done hpc => exact .inr (.inr hpc)

/-- When nothing can happen, a machine is done unless its greeting, the greeting for it or the acknowledgement for it was lost. -/
theorem Exchange.done_iff (hE : Exchange w flight buffered) (hw : Stuck w) (h : Fin 2) :
    (w.hosts h).pc = .done ↔
      w.lost.count (h, .hello) = 0 ∧ w.lost.count (far h, .hello) = 0 ∧ w.lost.count (h, .ack) = 0 := by
  obtain ⟨rfl, hat⟩ := hE.stuck hw
  have hhello := hE.count h .hello
  have hack := hE.count h .ack
  have hfar := hE.count (far h) .hello
  rw [(hat h).2.1, List.count_nil, Option.toList_none, List.count_nil] at hhello hack
  rw [(hat (far h)).2.1, List.count_nil, Option.toList_none, List.count_nil, far_far] at hfar
  have hnear := (hE.hosts h).waiting (hat h).1 (hat h).2.2
  have hother := (hE.hosts (far h)).waiting (hat (far h)).1 (hat (far h)).2.2
  rcases hnear with ⟨hpc, hbox⟩ | ⟨hpc, hbox⟩ | hpc <;> rcases hother with ⟨hpc', hbox'⟩ | ⟨hpc', hbox'⟩ | hpc' <;>
    simp [hpc, hpc', Pc.hasRead, Pc.hasSent, Pc.rank] at hhello hack hfar ⊢ <;> omega

/-! ## The test -/

/-- The lines that a machine prints, when it is not cut short. -/
def lines (h : Fin 2) : List UInt8 := line data (hostName (far h)) 1 ++ line ack (hostName (far h)) 1

theorem transcript_isPrefix (h : Fin 2) (p : Pc) : transcript h p <+: lines h := by
  unfold transcript lines
  cases p <;> simp [Pc.hasRead, Pc.rank]

/-- The messages are accounted for. -/
def Exchanging (w : World) : Prop := ∃ flight buffered, Exchange w flight buffered

theorem exchanging_step (w : World) (h : Fin 2) (w' : World) (hw : Exchanging w) (hstep : Step w h w') :
    Exchanging w' ∧ w'.work < w.work := by
  obtain ⟨flight, buffered, hE⟩ := hw
  exact hE.step hstep

theorem exchanging_start (junk : Fin 2 → Host) : Exchanging (start junk) := ⟨_, _, .start junk⟩

/-- What holds of every state of a run. -/
theorem exchanging_of_run {junk : Fin 2 → Host} {hs : List (Fin 2)} (hrun : Run Step (start junk) hs w) : Exchanging w :=
  hrun.invariant (fun w h w' hw hstep => (exchanging_step w h w' hw hstep).1) (exchanging_start junk)

/-- The two-machine test is safe, in whatever order the packets arrive and whichever of them are lost: nothing fails; a machine prints the
greeting of the other one and its acknowledgement, in this order and each at most once; and one that is done has printed both, and knows
that its own greeting has been printed. -/
theorem exchange_safe {junk : Fin 2 → Host} {hs : List (Fin 2)} (hrun : Run Step (start junk) hs w) :
    ¬Faults w ∧ ∀ h, (w.hosts h).printed <+: lines h ∧ ((w.hosts h).pc = .done →
      (w.hosts h).printed = lines h ∧ line data (hostName h) 1 <+: (w.hosts (far h)).printed) := by
  obtain ⟨flight, buffered, hE⟩ := exchanging_of_run hrun
  refine ⟨hE.not_faults, fun h => ⟨(hE.hosts h).printed ▸ transcript_isPrefix h _, fun hdone => ⟨?_, ?_⟩⟩⟩
  · rw [(hE.hosts h).printed, hdone]
    rfl
  · -- the acknowledgement that was read has been sent, and before that the greeting was read
    have hack := hE.count h .ack
    have hread : (w.hosts h).pc.hasRead .ack = 1 := by rw [hdone]; rfl
    have hsent : 1 ≤ (w.hosts (far h)).pc.hasSent .ack := by omega
    rw [(hE.hosts (far h)).printed]
    unfold transcript
    rw [far_far]
    cases hpc : (w.hosts (far h)).pc <;> simp [hpc, Pc.hasSent, Pc.hasRead, Pc.rank] at hsent ⊢

/-- A run has at most 48 steps. When nothing can happen any more, a machine is done if and only if neither greeting and not the
acknowledgement for it was lost. -/
theorem exchange_ends {junk : Fin 2 → Host} {hs : List (Fin 2)} (hrun : Run Step (start junk) hs w) :
    hs.length ≤ 48 ∧ (Stuck w → ∀ h, (w.hosts h).pc = .done ↔
      (h, .hello) ∉ w.lost ∧ (far h, .hello) ∉ w.lost ∧ (h, .ack) ∉ w.lost) := by
  refine ⟨?_, fun hstuck h => ?_⟩
  · have hlength := hrun.length_le exchanging_step (exchanging_start junk)
    have hwork : (start junk).work = 48 := rfl
    omega
  · obtain ⟨flight, buffered, hE⟩ := exchanging_of_run hrun
    rw [hE.done_iff hstuck h, List.count_eq_zero, List.count_eq_zero, List.count_eq_zero]

/-- There is a run to the end in which nothing is lost. -/
theorem exists_lossless (junk : Fin 2 → Host) : ∃ hs w, Run Step (start junk) hs w ∧ w.lost = [] ∧ Stuck w := by
  have hstep : ∀ (w : World) (h : Fin 2) (w' : World), Exchanging w ∧ w.lost = [] → Step w h w' ∧ w'.lost = w.lost →
      (Exchanging w' ∧ w'.lost = []) ∧ w'.work < w.work := by
    rintro w h w' ⟨hw, hlost⟩ ⟨hstep, hsame⟩
    obtain ⟨hw', hwork⟩ := exchanging_step w h w' hw hstep
    exact ⟨⟨hw', hsame.trans hlost⟩, hwork⟩
  obtain ⟨hs, w, hrun, ⟨⟨flight, buffered, hE⟩, hlost⟩, hlast⟩ := Run.exists_last hstep ⟨exchanging_start junk, rfl⟩
  refine ⟨hs, w, hrun.mono fun _ _ _ hstep => hstep.1, hlost, ?_⟩
  by_contra hstuck
  obtain ⟨h, w', hstep⟩ := hE.lossless hstuck
  exact hlast h w' hstep

/-- A machine whose memory is full of zeros. -/
def zeros : Host where
  pc := .send
  outPktHdr := ⟨0, 0, 0⟩
  inPktHdr := ⟨0, 0, 0⟩
  outMailHdr := ⟨0, 0, 0⟩
  inMailHdr := ⟨0, 0, 0⟩
  buffer := ⟨fun _ => 0⟩
  printed := []
  networkOut := .new
  sendInts := 0
  messageSent := 0
  networkIn := ⟨⟨0, 0, 0⟩, ⟨fun _ => 0⟩⟩
  messageAvailable := 0
  packet := ⟨fun _ => 0⟩
  boxes := fun _ => []

theorem exchange_ends_lossless : ∃ hs w, Run Step (start fun _ => zeros) hs w ∧ hs.length ≤ 48 ∧ ∀ h, (w.hosts h).pc = .done := by
  obtain ⟨hs, w, hrun, hlost, hstuck⟩ := exists_lossless fun _ => zeros
  obtain ⟨hlength, hdone⟩ := exchange_ends hrun
  refine ⟨hs, w, hrun, hlength, fun h => (hdone hstuck h).2 ?_⟩
  rw [hlost]
  exact ⟨List.not_mem_nil, List.not_mem_nil, List.not_mem_nil⟩

theorem exchange_safe_lossless : ∃ hs w, Run Step (start fun _ => zeros) hs w ∧ w.lost = [] ∧ ¬Faults w ∧
    ∀ h, (w.hosts h).printed <+: lines h := by
  obtain ⟨hs, w, hrun, hlost, -⟩ := exists_lossless fun _ => zeros
  obtain ⟨hfaults, hprinted⟩ := exchange_safe hrun
  exact ⟨hs, w, hrun, hlost, hfaults, fun h => (hprinted h).1⟩

end NetworkTest

end Nachos
