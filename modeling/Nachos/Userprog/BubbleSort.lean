import Nachos.Prelude.Exchange
import Nachos.Userprog.Process

/-!
# The sort program (test/bubble_sort.c)

The program asks for an order, a count and so many numbers, sorts these, and prints them.
-/

namespace Nachos

open Loop Input

namespace BubbleSort

/-- The strings of the program. -/
inductive Text where
  | title
  | ascending
  | descending
  | line
  | yourMode
  | tryAgain
  | count
  | wrongCount
  | nEquals
  | array
  | element
  | bracket
  | colon
  | sorted
  | comma
  | success

/-- What they are. -/
def Text.chars : Text → Name
  | title => ascii "\n=============== SORT PROGRAM =============\n"
  | ascending => ascii "||\tMode 1: ASC  \t\t\t||\n"
  | descending => ascii "||\tMode 2: DESC \t\t\t||\n"
  | line => ascii "==========================================\n"
  | yourMode => ascii "\tYour mode: "
  | tryAgain => ascii "Try again: "
  | count => ascii "==> Input the number of elements  (0 <= n <= 100):\nn = "
  | wrongCount => ascii "!!! n Has to be an integer between 1 and 100 (inclusive), please ry again\n"
  | nEquals => ascii "n = "
  | array => ascii "Array: \n"
  | element => ascii "Element ["
  | bracket => ascii "]"
  | colon => ascii ": "
  | sorted => ascii "\nSORTED ARRAY: "
  | comma => ascii ", "
  | success => ascii "\n==================== SORT SUCCESSFULLY !!! =========================\n"

/-- The variables of `main`. The counters do not overflow. -/
structure Vars where
  i : Int
  j : Int
  n : BitVec 32
  temp : BitVec 32
  mode : BitVec 32
  arr : Nat → BitVec 32

/-- `arr[k]`. -/
def Vars.load (v : Vars) (k : Int) : Except Fault (BitVec 32) := if 0 ≤ k ∧ k < 100 then .ok (v.arr k.toNat) else .error .outOfBounds

/-- `arr[k] = x`. -/
def Vars.store (v : Vars) (k : Int) (x : BitVec 32) : Except Fault Vars :=
  if 0 ≤ k ∧ k < 100 then .ok { v with arr := Function.update v.arr k.toNat x } else .error .outOfBounds

section

variable {C : FileSystemClass} (address : Text → BitVec 32)

open Command Process

/-- The loop that reads the mode. -/
def readMode : Statement C Vars :=
  .loop (test fun _ => .ok true) (block [
    readNum fun x v => .ok { v with mode := x },
    .ite (test fun v => .ok (v.mode ≠ 1 ∧ v.mode ≠ 2)) (printString (address .tryAgain)) .leave])

/-- Reading `n`. -/
def readCount : Statement C Vars := block [
  readNum fun x v => .ok { v with n := x },
  .loop (test fun v => .ok (v.n.toInt < 0 ∨ v.n.toInt > 100)) (block [
    printString (address .wrongCount),
    printString (address .nEquals),
    readNum fun x v => .ok { v with n := x }])]

/-- Reading the array. -/
def readArray : Statement C Vars :=
  forLoop (assign fun v => .ok { v with i := 0 }) (test fun v => .ok (v.i < v.n.toInt)) (assign fun v => .ok { v with i := v.i + 1 })
    (block [
      printString (address .element),
      printNum fun v => .ok (BitVec.ofInt 32 v.i),
      printString (address .bracket),
      printString (address .colon),
      readNum fun x v => v.store v.i x])

/-- Swap `arr[j]` and `arr[j+1]`. -/
def swap : Statement C Vars := block [
  assign fun v => do return { v with temp := ← v.load v.j },
  assign fun v => do v.store v.j (← v.load (v.j + 1)),
  assign fun v => v.store (v.j + 1) v.temp]

/-- The body of the inner loop. -/
def compare : Statement C Vars :=
  .ite (test fun v => .ok (v.mode = 1))
    (.ite (test fun v => do return (← v.load v.j).toInt > (← v.load (v.j + 1)).toInt) swap skip)
    (.ite (test fun v => .ok (v.mode = 2))
      (.ite (test fun v => do return (← v.load v.j).toInt < (← v.load (v.j + 1)).toInt) swap skip)
      skip)

/-- Bubble sort. -/
def bubbleSort : Statement C Vars :=
  forLoop (assign fun v => .ok { v with i := 0 }) (test fun v => .ok (v.i < v.n.toInt)) (assign fun v => .ok { v with i := v.i + 1 })
    (forLoop (assign fun v => .ok { v with j := 0 }) (test fun v => .ok (v.j < v.n.toInt - 1)) (assign fun v => .ok { v with j := v.j + 1 })
      compare)

/-- Print new order. -/
def printArray : Statement C Vars :=
  forLoop (assign fun v => .ok { v with i := 0 }) (test fun v => .ok (v.i < v.n.toInt)) (assign fun v => .ok { v with i := v.i + 1 })
    (block [
      .ite (test fun v => .ok (v.i ≠ 0)) (printString (address .comma)) skip,
      printNum fun v => v.load v.i])

/-- `main`. -/
def main : Statement C Vars := block [
  assign fun v => .ok { v with mode := 0 },
  printString (address .title),
  printString (address .ascending),
  printString (address .descending),
  printString (address .line),
  printString (address .yourMode),
  readMode address,
  printString (address .count),
  readCount address,
  printString (address .array),
  readArray address,
  bubbleSort,
  printString (address .sorted),
  printArray address,
  printString (address .success),
  halt]

end

end BubbleSort

end Nachos
