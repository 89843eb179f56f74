import Mathlib.Algebra.Group.Nat.Defs
import Mathlib.Logic.Function.Basic

/-!
The timer heap of sio_timer. The fields of the timers, which belong to the callers, are
maps from addresses. Reading a slot that is not allocated or was never written, and
writing outside of the allocation, give the result `none`.
-/
set_option autoImplicit false

namespace SimpleKit

abbrev TimerRef := Nat

/-- `heapNodes` is the allocated array, a slot being `none` until it is written. -/
structure TimerMgr where
  heapSize : Nat
  heapLength : Nat
  heapNodes : List (Option TimerRef)
  index : TimerRef → Nat
  expire : TimerRef → Nat

def timerNew (index expire : TimerRef → Nat) : TimerMgr where
  heapSize := 0
  heapLength := 0
  heapNodes := []
  index := index
  expire := expire

def TimerMgr.node (m : TimerMgr) (i : Nat) : Option TimerRef := m.heapNodes[i]?.join

def TimerMgr.store (m : TimerMgr) (i : Nat) (timer : TimerRef) : Option TimerMgr :=
  if i < m.heapNodes.length then some { m with heapNodes := m.heapNodes.set i (some timer) }
  else none

def TimerMgr.setIndex (m : TimerMgr) (timer : TimerRef) (i : Nat) : TimerMgr :=
  { m with index := Function.update m.index timer i }

/-- `timer` and `other`, which is in slot `i`, change places; the slot of `timer` is not
written yet. -/
def TimerMgr.shift (m : TimerMgr) (timer other : TimerRef) (i : Nat) : Option TimerMgr := do
  let m := m.setIndex other (m.index timer)
  let m ← m.store (m.index timer) other
  some (m.setIndex timer i)

def timerUpheap (timer : TimerRef) : Nat → TimerMgr → Option TimerMgr
  | 0, _ => none
  | fuel+1, m =>
    let parent := m.index timer >>> 1
    if parent = 0 then m.store (m.index timer) timer
    else do
      let p ← m.node parent
      if m.expire timer < m.expire p then
        timerUpheap timer fuel (← m.shift timer p parent)
      else m.store (m.index timer) timer

def TimerMgr.smaller (m : TimerMgr) (i min : Nat) : Option (Option Nat) :=
  if i ≤ m.heapLength then do
    let t ← m.node i
    some (if m.expire t < min then some (m.expire t) else none)
  else some none

def TimerMgr.minIndex (m : TimerMgr) (timer : TimerRef) : Option Nat := do
  let left := m.index timer <<< 1
  let right := (m.index timer <<< 1) + 1
  let l ← m.smaller left (m.expire timer)
  let r ← m.smaller right (l.getD (m.expire timer))
  some (if r.isSome then right else if l.isSome then left else m.index timer)

def timerDownheap (timer : TimerRef) : Nat → TimerMgr → Option TimerMgr
  | 0, _ => none
  | fuel+1, m => do
    let i ← m.minIndex timer
    if i ≠ m.index timer then
      timerDownheap timer fuel (← m.shift timer (← m.node i) i)
    else m.store (m.index timer) timer

/-- An index halves or at least grows in every round, so these bounds are never reached. -/
def timerAdjustHeap (timer : TimerRef) (m : TimerMgr) : Option TimerMgr :=
  let parent := m.index timer >>> 1
  if parent = 0 then timerDownheap timer (m.heapLength + 1) m
  else do
    let p ← m.node parent
    if m.expire timer < m.expire p then timerUpheap timer (m.index timer + 1) m
    else timerDownheap timer (m.heapLength + 1) m

/-- The realloc of `sio_timer_insert`: one more slot than timers, slot 0 being unused. -/
def TimerMgr.grow (m : TimerMgr) : TimerMgr :=
  if m.heapSize ≤ m.heapLength then
    { m with
      heapNodes := m.heapNodes ++ List.replicate (m.heapSize + 2 - m.heapNodes.length) none
      heapSize := m.heapSize + 1 }
  else m

def timerInsert (m : TimerMgr) (timer : TimerRef) : Option TimerMgr :=
  let m := m.grow
  let m := { m with heapLength := m.heapLength + 1 }
  timerAdjustHeap timer (m.setIndex timer m.heapLength)

def TimerMgr.refill (m : TimerMgr) (i : Nat) : Option TimerMgr := do
  let last ← m.node m.heapLength
  let m ← { m with heapLength := m.heapLength - 1 }.store i last
  timerAdjustHeap last (m.setIndex last i)

def timerRemove (m : TimerMgr) (timer : TimerRef) : Option TimerMgr :=
  if m.index timer = m.heapLength then some { m with heapLength := m.heapLength - 1 }
  else m.refill (m.index timer)

def timerModify (m : TimerMgr) (timer : TimerRef) : Option TimerMgr := timerAdjustHeap timer m

/-- Also the timer returned, or `none` for NULL. -/
def timerPop (m : TimerMgr) : Option (TimerMgr × Option TimerRef) :=
  if m.heapLength = 0 then some (m, none)
  else do
    let top ← m.node 1
    let m ← if m.heapLength = 1 then some { m with heapLength := 0 } else m.refill 1
    some (m, some top)

def timerTop (m : TimerMgr) : Option (Option TimerRef) :=
  if m.heapLength = 0 then some none else (m.node 1).map some

def timerSize (m : TimerMgr) : Nat := m.heapLength

end SimpleKit
