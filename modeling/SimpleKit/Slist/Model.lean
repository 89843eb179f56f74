import Mathlib.Logic.Function.Basic
import SimpleKit.Key

/-!
The skip list of simple_skiplist. Every level is kept as one map for each field of
slist_level; the scratch arrays level_rank and level_node are maps from indices and
are taken as long enough. Loops along a level carry a bound, and running out of it is
the result `none`; so is following a NULL pointer.
-/
set_option autoImplicit false

namespace SimpleKit

/-- Addresses of a slist_node. A node takes more than 16 bytes of a 64-bit space. -/
abbrev SlistPtr := Fin (2^60)

structure SlistLevel where
  next : SlistPtr → Option SlistPtr
  prev : SlistPtr → Option SlistPtr
  span : SlistPtr → UInt64

structure Slist (V : Type) where
  maxHeight : Nat
  curHeight : Nat
  numNodes : Nat
  iterator : Option SlistPtr
  riterator : Option SlistPtr
  head : SlistPtr
  tail : Option SlistPtr
  levelRank : Nat → UInt64
  levelNode : Nat → Option SlistPtr
  levels : Nat → SlistLevel
  key : SlistPtr → Key
  value : SlistPtr → V
  height : SlistPtr → Nat

variable {V : Type}

/-- `head` is where calloc puts the head, `garbage` what malloc leaves in level_rank. -/
def slistNew [Inhabited V] (height : Nat) (head : SlistPtr) (garbage : Nat → UInt64) : Slist V where
  maxHeight := (height + 1) % 2^32
  curHeight := 1
  numNodes := 0
  iterator := none
  riterator := none
  head := head
  tail := none
  levelRank := garbage
  levelNode := fun _ => none
  levels := fun _ => ⟨fun _ => none, fun _ => none, fun _ => 0⟩
  key := fun _ => default
  value := fun _ => default
  height := Function.update (fun _ => 0) head ((height + 1) % 2^32)

/-- `_slist_choose_height` from `height` on, `coins` being what `_slist_random` returns. -/
def chooseHeightFrom (maxHeight : Nat) : List Bool → Nat → Nat
  | [], height => height
  | coin :: coins, height =>
    if height < maxHeight ∧ coin then chooseHeightFrom maxHeight coins (height+1) else height

def slistChooseHeight (maxHeight : Nat) (coins : List Bool) : Nat :=
  chooseHeightFrom maxHeight coins 1

/-- A level holds at most every node, so this many steps reach its end. -/
def Slist.fuel (s : Slist V) : Nat := s.numNodes + 1

/-- The loop `while (next && compare(key, next->key) > 0)` at level `l`, with the sum of the
spans passed. -/
def Slist.seek (s : Slist V) (key : Key) (l : Nat) :
    Nat → SlistPtr → UInt64 → Option (SlistPtr × UInt64)
  | 0, _, _ => none
  | fuel+1, node, rank =>
    match (s.levels l).next node with
    | none => some (node, rank)
    | some n =>
      if 0 < slistKeyCompare key (s.key n) then
        s.seek key l fuel n (rank + (s.levels l).span node)
      else some (node, rank)

/-- The first loop of `slist_insert`, for the levels below `h`. -/
def slistDescend (key : Key) : Nat → SlistPtr → Slist V → Option (Slist V × SlistPtr)
  | 0, node, s => some (s, node)
  | l+1, node, s => do
    let rank := if l+1 = s.curHeight then 0 else s.levelRank (l+1)
    let x ← s.seek key l s.fuel node rank
    slistDescend key l x.1 { s with
      levelRank := Function.update s.levelRank l x.2
      levelNode := Function.update s.levelNode l (some x.1) }

/-- The scratch entries of the `n` levels from `cur_height` on, from the top down. -/
def slistPad : Nat → Slist V → Slist V
  | 0, s => s
  | n+1, s =>
    let l := s.curHeight + n
    slistPad n { s with
      levelNode := Function.update s.levelNode l (some s.head)
      levelRank := Function.update s.levelRank l 0 }

def SlistLevel.link (lv : SlistLevel) (new node : SlistPtr) (rank0 rank : UInt64) :
    SlistLevel where
  next := Function.update (Function.update lv.next new (lv.next node)) node (some new)
  prev :=
    let prev := Function.update lv.prev new (some node)
    match lv.next node with
    | some n => Function.update prev n (some new)
    | none => prev
  span := Function.update (Function.update lv.span new (lv.span node - (rank0 - rank + 1) + 1))
    node (rank0 - rank + 1)

/-- The loop that links the new node into the levels below `h`, from the top down. -/
def slistLink (new : SlistPtr) : Nat → Slist V → Option (Slist V)
  | 0, s => some s
  | l+1, s => do
    let node ← s.levelNode l
    slistLink new l { s with
      levels := Function.update s.levels l
        ((s.levels l).link new node (s.levelRank 0) (s.levelRank l)) }

def SlistLevel.addSpan (lv : SlistLevel) (node : SlistPtr) (n : UInt64) : SlistLevel :=
  { lv with span := Function.update lv.span node (lv.span node + n) }

/-- The loop that lengthens the spans over the new node, `n` levels from `l` up. -/
def slistBump : Nat → Nat → Slist V → Option (Slist V)
  | 0, _, s => some s
  | n+1, l, s => do
    let node ← s.levelNode l
    slistBump n (l+1) { s with
      levels := Function.update s.levels l ((s.levels l).addSpan node 1) }

def SlistLevel.clear (lv : SlistLevel) (node : SlistPtr) : SlistLevel where
  next := Function.update lv.next node none
  prev := Function.update lv.prev node none
  span := Function.update lv.span node 0

def slistNewNode (s : Slist V) (new : SlistPtr) (key : Key) (height : Nat) (value : V) : Slist V :=
  { s with
    levels := fun l => (s.levels l).clear new
    key := Function.update s.key new key
    value := Function.update s.value new value
    height := Function.update s.height new height }

/-- A node at least as high as the list raises it; a lower one lengthens the spans above it. -/
def slistRaise (height : Nat) (s : Slist V) : Option (Slist V) :=
  if s.curHeight ≤ height then some { s with curHeight := height }
  else slistBump (s.curHeight - height) height s

/-- The second half of `slist_insert`; `new` is the address calloc returns. -/
def slistAddNode (s : Slist V) (key : Key) (value : V) (height : Nat) (new : SlistPtr) :
    Option (Slist V) := do
  let s := slistPad (height - s.curHeight) s
  let s ← slistLink new height (slistNewNode s new key height value)
  let s ← slistRaise height s
  let tail := if (s.levels 0).next new = none then some new else s.tail
  some { s with tail, numNodes := s.numNodes + 1 }

def Slist.nextHasKey (s : Slist V) (node : SlistPtr) (key : Key) : Bool :=
  match (s.levels 0).next node with
  | some n => decide (slistKeyCompare key (s.key n) = 0)
  | none => false

def slistInsert (s : Slist V) (key : Key) (value : V) (coins : List Bool) (new : SlistPtr) :
    Option (Slist V × Int) := do
  let x ← slistDescend key s.curHeight s.head s
  if x.1.nextHasKey x.2 key then some (x.1, -1)
  else
    let height := slistChooseHeight x.1.maxHeight coins
    (slistAddNode x.1 key value height new).map fun s => (s, 0)

/-- The inner loop of `_slist_find_node` and of `slist_rank` at level `l`: where it stopped,
the sum of the spans passed and the node found. -/
def Slist.searchLevel (s : Slist V) (key : Key) (l : Nat) :
    Nat → SlistPtr → UInt64 → Option (SlistPtr × UInt64 × Option SlistPtr)
  | 0, _, _ => none
  | fuel+1, node, rank =>
    match (s.levels l).next node with
    | none => some (node, rank, none)
    | some n =>
      let ret := slistKeyCompare key (s.key n)
      if ret < 0 then some (node, rank, none)
      else if ret = 0 then some (node, rank + (s.levels l).span node, some n)
      else s.searchLevel key l fuel n (rank + (s.levels l).span node)

/-- The outer loop of both, for the levels below `h`. -/
def Slist.search (s : Slist V) (key : Key) :
    Nat → SlistPtr → UInt64 → Option (Option (SlistPtr × UInt64))
  | 0, _, _ => some none
  | l+1, node, rank => do
    let x ← s.searchLevel key l s.fuel node rank
    match x.2.2 with
    | some n => some (some (n, x.2.1))
    | none => s.search key l x.1 x.2.1

def slistFindNode (s : Slist V) (key : Key) : Option (Option SlistPtr) :=
  (s.search key s.curHeight s.head 0).map fun x => x.map Prod.fst

/-- The sum is a uint64_t that is returned as an int64_t. -/
def slistRank (s : Slist V) (key : Key) : Option Int :=
  (s.search key s.curHeight s.head 0).map fun x => x.elim (-1) fun x => x.2.toInt64.toInt

def SlistLevel.unlink (lv : SlistLevel) (node p : SlistPtr) : SlistLevel where
  next := Function.update lv.next p (lv.next node)
  prev := match lv.next node with
    | some n => Function.update lv.prev n (lv.prev node)
    | none => lv.prev
  span := Function.update lv.span p (lv.span p + (lv.span node - 1))

/-- The first loop of `_slist_erase_node`, for the levels below `h`. -/
def slistUnlink (node : SlistPtr) : Nat → SlistPtr → Slist V → Option (Slist V)
  | 0, _, s => some s
  | l+1, cur, s => do
    let x ← s.seek (s.key node) l s.fuel cur 0
    if (s.levels l).next x.1 = some node then
      let p ← (s.levels l).prev node
      slistUnlink node l x.1 { s with
        levels := Function.update s.levels l ((s.levels l).unlink node p) }
    else
      slistUnlink node l x.1 { s with
        levels := Function.update s.levels l ((s.levels l).addSpan x.1 (-1)) }

/-- The loop that lowers `cur_height`, from `h` down. -/
def slistShrink : Nat → Slist V → Slist V
  | 0, s => s
  | l+1, s =>
    if 1 < s.curHeight then
      if (s.levels l).next s.head = none then
        slistShrink l { s with curHeight := s.curHeight - 1 }
      else s
    else s

/-- `_slist_free_node`. Freed memory reads as zeros. -/
def slistFreeNode [Inhabited V] (s : Slist V) (node : SlistPtr) : Slist V :=
  { s with
    levels := fun l => (s.levels l).clear node
    key := Function.update s.key node default
    value := Function.update s.value node default
    height := Function.update s.height node 0 }

/-- `_slist_erase_node`. -/
def slistEraseNode [Inhabited V] (s : Slist V) (node : SlistPtr) : Option (Slist V) := do
  let s ← slistUnlink node s.curHeight s.head s
  let prev := (s.levels 0).prev node
  let s := slistShrink s.curHeight { s with
    tail := if s.tail = some node then (if some s.head = prev then none else prev) else s.tail }
  let s := { s with
    iterator := if s.iterator = some node then (s.levels 0).next node else s.iterator
    riterator := if s.riterator = some node then (if prev = some s.head then none else prev)
      else s.riterator }
  some { slistFreeNode s node with numNodes := s.numNodes - 1 }

/-- What `slist_erase`, `slist_pop_front` and `slist_pop_back` do with the node they pick. -/
def slistEraseAt [Inhabited V] (s : Slist V) : Option SlistPtr → Option (Slist V × Int)
  | none => some (s, -1)
  | some node => (slistEraseNode s node).map fun s => (s, 0)

def slistErase [Inhabited V] (s : Slist V) (key : Key) : Option (Slist V × Int) := do
  slistEraseAt s (← slistFindNode s key)

/-- The value stored through the out parameter, or `none` for -1. -/
def slistFind (s : Slist V) (key : Key) : Option (Option V) :=
  (slistFindNode s key).map fun node => node.map s.value

/-- The key and value stored through the out parameters, or `none` for -1. -/
def slistFront (s : Slist V) : Option (Key × V) :=
  ((s.levels 0).next s.head).map fun node => (s.key node, s.value node)

def slistPopFront [Inhabited V] (s : Slist V) : Option (Slist V × Int) :=
  slistEraseAt s ((s.levels 0).next s.head)

def slistBack (s : Slist V) : Option (Key × V) :=
  s.tail.map fun node => (s.key node, s.value node)

def slistPopBack [Inhabited V] (s : Slist V) : Option (Slist V × Int) := slistEraseAt s s.tail

def slistSize (s : Slist V) : Nat := s.numNodes

def slistBeginIterate (s : Slist V) : Slist V :=
  { s with iterator := (s.levels 0).next s.head }

def slistIterate (s : Slist V) : Slist V × Option (Key × V) :=
  match s.iterator with
  | none => (s, none)
  | some node =>
    ({ s with iterator := (s.levels 0).next node }, some (s.key node, s.value node))

def slistEndIterate (s : Slist V) : Slist V := { s with iterator := none }

def slistBeginRiterate (s : Slist V) : Slist V := { s with riterator := s.tail }

def slistRiterate (s : Slist V) : Slist V × Option (Key × V) :=
  match s.riterator with
  | none => (s, none)
  | some node =>
    let prev := (s.levels 0).prev node
    ({ s with riterator := if prev = some s.head then none else prev },
      some (s.key node, s.value node))

def slistEndRiterate (s : Slist V) : Slist V := { s with riterator := none }

end SimpleKit
