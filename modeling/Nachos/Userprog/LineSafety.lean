import Nachos.Prelude.Transition
import Nachos.Userprog.Arguments

/-!
# Line buffers and lines (threads/kernel.cc)

What a user types can be longer than the buffer of a call, and longer than what a call takes: `ReadNum` has a buffer of 20 characters
and no bound, `ReadChar` takes 10 characters of a longer line. `Read` from the console has no buffer.
-/

namespace Nachos

open Bytes Loop Input FileSystemObject

namespace System

variable {C : FileSystemClass} {s s' : System C} {fresh : Fresh}

/-! ## Stores into line buffers -/

/-- How a store goes wrong: behind the end of a buffer, or through a pointer that was never set. -/
def StoreFault (f : Fault) : Prop := f = .outOfBounds ∨ f = .wildPointer

instance (f : Fault) : Decidable (StoreFault f) := inferInstanceAs (Decidable (_ ∨ _))

/-- No store of the call goes wrong. `ReadNum` stores while it enters the line; what it does then is to read the buffer. -/
def StoresInside (s : System C) (fresh : Fresh) : SyscallCode → Prop
  | .readNum => ∀ f, s.readNumLine fresh = .error f → ¬StoreFault f
  | code => ∀ f, s.systemCall fresh code = .error f → ¬StoreFault f

/-- The console has a buffer that is large enough for what the call stores. -/
def LineFits (s : System C) : SyscallCode → Prop
  | .readNum => ∃ k ≤ 20, s.typed.get k = newline
  | .read => s.fileSystem.listFile 0 = none -- the call is rejected
  | _ => True

theorem readNum_storesInside : s.StoresInside fresh .readNum ↔ s.LineFits .readNum := by
  have hstop : front endsNum 21 s.typed < 21 ↔ ∃ k ≤ 20, s.typed.get k = newline := by
    rw [front_lt_iff]
    exact exists_congr fun k => and_congr Nat.lt_succ_iff decide_eq_true_iff
  unfold StoresInside LineFits
  dsimp only
  rw [readNumLine_eq, ← hstop]
  split
  · rename_i hlt
    exact iff_of_true nofun hlt
  · rename_i hlt
    exact iff_of_false (fun h => h _ rfl (by decide)) hlt

theorem readChar_storesInside : s.StoresInside fresh .readChar := by
  intro f h
  rw [show s.systemCall fresh .readChar = s.readChar fresh from rfl, readChar_eq] at h
  cases h

theorem readString_storesInside (hl : (s.machine.registers Reg.loadReg).toNat < 32) : s.StoresInside fresh .readString := by
  intro f h
  rcases (readString_ends fresh).of_error h with ⟨-, rfl⟩ | hf
  · decide
  · rcases hf hl with rfl | ⟨rfl, -⟩ <;> decide

/-- `Read` from the console stores through `buffer`, which nothing has set. -/
theorem read_storesInside (h0 : (s.readRegister 6).toInt = 0) : s.StoresInside fresh .read ↔ s.LineFits .read := by
  have hslot : s.fileSystem.listFile.slot 0 = .ok (0, s.fileSystem.listFile 0) := FileTable.slot_of 0
  have hread : s.systemCall fresh .read = match s.fileSystem.listFile 0 with
      | none => .ok (s.writeRegister 2 (-1))
      | some _ => .error .wildPointer := by
    change s.fileRead fresh = _
    unfold fileRead
    simp only [h0, hslot]
    cases s.fileSystem.listFile 0 <;> rfl
  unfold StoresInside LineFits
  dsimp only
  rw [hread]
  cases s.fileSystem.listFile 0 with
  | none => exact iff_of_true nofun rfl
  | some entry => exact iff_of_false (fun h => h _ rfl (by decide)) nofun

/-- For every input and every size: no store of the four calls goes wrong exactly if, for `ReadNum`, a newline is among the first 21
characters, and, for `Read` from the console, the console is not open. -/
theorem stores_inside_iff (hload : s.readRegister Reg.loadReg = 0) {code : SyscallCode}
    (hcode : code ∈ [SyscallCode.readNum, .readChar, .readString, .read]) (h0 : code = .read → (s.readRegister 6).toInt = 0) :
    s.StoresInside fresh code ↔ s.LineFits code := by
  have hl : (s.machine.registers Reg.loadReg).toNat < 32 := by
    change (s.readRegister Reg.loadReg).toNat < 32
    rw [hload]
    decide
  simp only [List.mem_cons, List.not_mem_nil, or_false] at hcode
  rcases hcode with rfl | rfl | rfl | rfl
  · exact readNum_storesInside
  · exact iff_of_true readChar_storesInside trivial
  · exact iff_of_true (readString_storesInside hl) trivial
  · exact read_storesInside (h0 rfl)

/-- A user types a line without an end into a number; a program reads from the console. -/
theorem not_stores_inside : (calls (stub Name)).Reachable (Stub.calling 46 0 0 0 fun _ => 0).fileSystem ∧
    ¬{ Stub.calling 46 0 0 0 (fun _ => 0) with consoleIn := fun _ => 49 }.StoresInside .zero .readNum ∧
    ¬(Stub.calling 7 0 100 0 fun _ => 0).StoresInside .zero .read :=
  ⟨Stub.reachable_started, fun h => h .outOfBounds rfl (.inl rfl), fun h => h .wildPointer rfl (.inr rfl)⟩

/-- A line of twenty characters fits, and one of twenty-one does not. -/
theorem stores_inside_twenty :
    { Stub.calling 46 0 0 0 (fun _ => 0) with consoleIn := fun j => if j < 20 then 49 else newline }.StoresInside .zero .readNum ∧
    ¬{ Stub.calling 46 0 0 0 (fun _ => 0) with consoleIn := fun j => if j < 21 then 49 else newline }.StoresInside .zero .readNum := by
  refine ⟨(stores_inside_iff rfl (by decide) (by nofun)).2 ⟨20, by decide, rfl⟩, fun h => ?_⟩
  obtain ⟨j, hj, hnewline⟩ := (stores_inside_iff rfl (by decide) (by nofun)).1 h
  have hline : (if j < 21 then (49 : UInt8) else newline) = newline := hnewline
  rw [if_pos (by omega)] at hline
  exact absurd hline (by decide)

/-! ## Lines -/

/-- A line that is typed, without its newline. -/
structure TypedLine (line : List UInt8) : Prop where
  text : ∀ c ∈ line, c ≠ 0 ∧ c ≠ 255 ∧ c ≠ newline
  short : line.length < 20

/-- The three calls that read a line, and the size that `ReadString` needs for one. -/
def Asks (s : System C) (code : SyscallCode) (line : List UInt8) : Prop :=
  code ∈ [SyscallCode.readNum, .readChar, .readString] ∧ s.readRegister 2 = code.number ∧
    (code = .readString → (line.length : Int) < (s.readRegister 5).toInt - 1)

section

variable {line : List UInt8} {rest : Stream' UInt8}

/-- `ReadNum` takes a line. -/
theorem readNum_typed (hline : TypedLine line) (ht : s.typed = line ++ₛ rest.cons newline) (h : s.readNum fresh = .ok s') :
    s'.typed = rest := by
  have hshort := hline.short
  have hfront : front endsNum 21 s.typed = line.length := by
    have hends : ∀ c ∈ line, endsNum c = false := fun c hc => decide_eq_false (hline.text c hc).2.2
    rw [ht, front_line hends rfl]
    omega
  rw [readNum_eq, readNumLine_eq, hfront, if_pos (by omega), ok_bind] at h
  obtain ⟨text, -, h⟩ := of_bind_ok h
  have hrest : (s.dropped (line.length + 1)).typed = rest := (congrArg _ ht).trans (drop_line line newline rest)
  split at h <;>
  · cases h
    exact hrest

/-- `ReadChar` takes a line of at most 9 characters. -/
theorem readChar_typed (hline : TypedLine line) (ht : s.typed = line ++ₛ rest.cons newline) (hshort : line.length ≤ 9)
    (h : s.readChar fresh = .ok s') : s'.typed = rest := by
  have htaken : taken endsChar 10 s.typed = line.length + 1 := by
    rw [ht]
    refine taken_line ?_ rfl (by omega)
    intro c hc
    have := hline.text c hc
    exact decide_eq_false (by tauto)
  rw [readChar_eq, htaken] at h
  cases h
  exact (congrArg _ ht).trans (drop_line line newline rest)

/-- `ReadString` takes a line for which it has the size. -/
theorem readString_typed (hline : TypedLine line) (ht : s.typed = line ++ₛ rest.cons newline)
    (hsize : (line.length : Int) < (s.readRegister 5).toInt - 1) (h : s.readString fresh = .ok s') : s'.typed = rest := by
  have htaken : taken endsString ((s.readRegister 5).toInt - 1).toNat s.typed = line.length + 1 := by
    rw [ht]
    refine taken_line ?_ rfl (by omega)
    intro c hc
    have := hline.text c hc
    exact decide_eq_false (by tauto)
  obtain ⟨⟨str, machine⟩, hcopy, h⟩ := of_bind_ok h
  have hbuffer := ((s.machine.user2System_ends _ _ _).of_ok hcopy).2.1
  dsimp only at h hbuffer
  rw [readString2KeyBoard_eq _ _ (by omega) (by omega)] at h
  obtain ⟨⟨count, machine'⟩, -, h⟩ := of_bind_ok h
  cases h
  refine Eq.trans ?_ (drop_line line newline rest)
  rw [← ht, ← htaken]
  rfl

/-- A call that reads a line takes exactly this line with its newline. -/
theorem asks_typed {code : SyscallCode} (hline : TypedLine line) (ht : s.typed = line ++ₛ rest.cons newline) (ha : s.Asks code line)
    (hshort : code = .readChar → line.length ≤ 9) (h : s.exceptionHandler .syscallException fresh = .ok s') : s'.typed = rest := by
  obtain ⟨hcode, hr, hsize⟩ := ha
  have hcases : ∀ code ∈ [SyscallCode.readNum, .readChar, .readString], code ∈ SyscallCode.cases := by decide
  rw [exceptionHandler_of (hcases code hcode) hr] at h
  obtain ⟨s₁, hcall, rfl⟩ := of_map_ok h
  change s₁.typed = rest
  simp only [List.mem_cons, List.not_mem_nil, or_false] at hcode
  rcases hcode with rfl | rfl | rfl
  · exact readNum_typed hline ht hcall
  · exact readChar_typed hline ht (hshort rfl) hcall
  · exact readString_typed hline ht (hsize rfl) hcall

end

end System

/-! ## Runs of calls and lines -/

/-- The system, and the lines that the calls to come are for. -/
structure Dialogue (C : FileSystemClass) where
  lines : List (List UInt8)
  system : System C

namespace Dialogue

variable {C : FileSystemClass}

/-- What will be typed is the lines that the calls to come are for. -/
def Synchronised (rest : Stream' UInt8) (t : Dialogue C) : Prop := t.system.typed = Input.lines newline t.lines rest

/-- Any lines are typed, and read by any of the three calls, one for each line; in between, the system does something else. `Allowed`
restricts which call answers which line. -/
def dialogues (C : FileSystemClass) (rest : Stream' UInt8) (Allowed : SyscallCode → List UInt8 → Prop) :
    Transition.System (Dialogue C) where
  init t := (∀ line ∈ t.lines, System.TypedLine line) ∧ t.Synchronised rest
  step t t' :=
    t'.lines = t.lines ∧ t'.system.typed = t.system.typed ∨
      ∃ line code fresh, t.lines = line :: t'.lines ∧ t.system.Asks code line ∧ Allowed code line ∧
        t.system.exceptionHandler .syscallException fresh = .ok t'.system

/-- In every run in which `ReadChar` gets lines of at most 9 characters, each call reads the line that is meant for it. -/
theorem synchronised {rest : Stream' UInt8} {t : Dialogue C}
    (h : (dialogues C rest fun code line => code = .readChar → line.length ≤ 9).Reachable t) : t.Synchronised rest := by
  refine (Transition.System.Reachable.invariant (I := fun t => (∀ line ∈ t.lines, System.TypedLine line) ∧ t.Synchronised rest)
    (fun _ h => h) ?_ h).2
  rintro t t' - ⟨hlines, hs⟩ (⟨hsame, htyped⟩ | ⟨line, code, fresh, hcons, hasks, hshort, hcall⟩)
  · unfold Synchronised at hs ⊢
    rw [hsame, htyped]
    exact ⟨hlines, hs⟩
  · unfold Synchronised at hs
    rw [hcons] at hlines hs
    exact ⟨fun l hl => hlines l (List.mem_cons_of_mem _ hl),
      System.asks_typed (hlines line (List.mem_cons_self ..)) hs hasks hshort hcall⟩

theorem typedLine_replicate {n : Nat} {c : UInt8} (hn : n < 20) (hc : c ≠ 0 ∧ c ≠ 255 ∧ c ≠ newline) :
    System.TypedLine (List.replicate n c) :=
  ⟨fun _ h => List.eq_of_mem_replicate h ▸ hc, by rwa [List.length_replicate]⟩

/-- A program that calls `ReadChar` after these lines have been typed. -/
def readingChar (lines : List (List UInt8)) : Dialogue (stub Name) where
  lines := lines
  system := { Stub.calling 49 0 0 0 (fun _ => 0) with consoleIn := Input.lines newline lines (Stream'.const newline) }

/-- A line of 10 characters leaves its newline for the next call. -/
theorem not_synchronised : ∃ t, (dialogues (stub Name) (Stream'.const newline) fun _ _ => True).Reachable t ∧
    ¬t.Synchronised (Stream'.const newline) := by
  obtain ⟨s', hcall, hhead⟩ : ∃ s', (readingChar [List.replicate 10 65, [53]]).system.exceptionHandler .syscallException .zero =
      .ok s' ∧ s'.typed.head = newline := ⟨_, rfl, rfl⟩
  have hlines : ∀ line ∈ [List.replicate 10 65, [53]], System.TypedLine line :=
    List.forall_mem_cons.2 ⟨typedLine_replicate (by decide) (by decide), List.forall_mem_singleton.2
      (typedLine_replicate (n := 1) (by decide) (by decide))⟩
  refine ⟨⟨[[53]], s'⟩, .step (.init (s := readingChar [List.replicate 10 65, [53]]) ⟨hlines, rfl⟩)
    (.inr ⟨List.replicate 10 65, .readChar, .zero, rfl, ⟨by decide, rfl, nofun⟩, trivial, hcall⟩), ?_⟩
  intro hs
  have hhead' : s'.typed.head = 53 := congrArg Stream'.head hs
  exact absurd (hhead.symm.trans hhead') (by decide)

/-- What a call leaves when it returns. -/
def called (s : System (stub Name)) : System (stub Name) := (s.exceptionHandler .syscallException .zero).toOption.getD s

theorem called_of_ok {s : System (stub Name)} (h : (s.exceptionHandler .syscallException .zero).isOk = true) :
    s.exceptionHandler .syscallException .zero = .ok (called s) := by
  unfold called
  cases hcall : s.exceptionHandler .syscallException .zero with
  | ok s' => rfl
  | error f =>
    rw [hcall] at h
    cases h

/-- A number, a character and a string are typed. -/
def threeLines : Dialogue (stub Name) := readingChar [[52, 50], [65], [72, 105]]

/-- The number has been read. -/
def numberRead : System (stub Name) := called (threeLines.system.writeRegister 2 46)

/-- The character has been read. -/
def characterRead : System (stub Name) := called (numberRead.writeRegister 2 49)

/-- Three calls read the three lines, between which the program sets its registers. -/
theorem synchronised_three : (threeLines.system.writeRegister 2 46).exceptionHandler .syscallException .zero = .ok numberRead ∧
    (numberRead.writeRegister 2 49).exceptionHandler .syscallException .zero = .ok characterRead ∧
    ∃ s', ((characterRead.writeRegister 2 44).writeRegister 5 10).exceptionHandler .syscallException .zero = .ok s' ∧
      Synchronised (Stream'.const newline) ⟨[], s'⟩ := by
  have hlines : ∀ line ∈ threeLines.lines, System.TypedLine line :=
    List.forall_mem_cons.2 ⟨⟨by simp [newline], by decide⟩, List.forall_mem_cons.2 ⟨⟨by simp [newline], by decide⟩,
      List.forall_mem_singleton.2 ⟨by simp [newline], by decide⟩⟩⟩
  have hnumber := called_of_ok (s := threeLines.system.writeRegister 2 46) (by decide +kernel)
  have hcharacter := called_of_ok (s := numberRead.writeRegister 2 49) (by decide +kernel)
  have hstring := called_of_ok (s := (characterRead.writeRegister 2 44).writeRegister 5 10) (by decide +kernel)
  refine ⟨hnumber, hcharacter, _, hstring, synchronised ?_⟩
  refine .step (s := ⟨[[72, 105]], (characterRead.writeRegister 2 44).writeRegister 5 10⟩) (.step (s := ⟨[[72, 105]], characterRead⟩)
    (.step (s := ⟨[[65], [72, 105]], numberRead.writeRegister 2 49⟩) (.step (s := ⟨[[65], [72, 105]], numberRead⟩)
      (.step (s := ⟨threeLines.lines, threeLines.system.writeRegister 2 46⟩) (.step (.init (s := threeLines) ⟨hlines, rfl⟩)
        (.inl ⟨rfl, rfl⟩)) (.inr ⟨[52, 50], .readNum, .zero, rfl, ⟨by decide, rfl, nofun⟩, nofun, hnumber⟩))
      (.inl ⟨rfl, rfl⟩)) (.inr ⟨[65], .readChar, .zero, rfl, ⟨by decide, rfl, nofun⟩, fun _ => by decide, hcharacter⟩))
    (.inl ⟨rfl, rfl⟩)) (.inr ⟨[72, 105], .readString, .zero, rfl, ⟨by decide, rfl, fun _ => ?_⟩, nofun, hstring⟩)
  exact show (2 : Int) < (10 : BitVec 32).toInt - 1 by decide

end Dialogue

end Nachos
