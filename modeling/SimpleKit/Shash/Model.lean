import Mathlib.Logic.Function.Basic
import SimpleKit.Key

/-!
The chained hash table of simple_hash, with its incremental rehash and its one
built-in iterator. The heap is kept as one map for each field of shash_node.
Loops over a chain carry a bound, and running out of it is the result `none`;
so is following a NULL `prev`.
-/
set_option autoImplicit false

namespace SimpleKit

/-- Addresses of a shash_node: an element of a calloc'ed bucket array, or a node of its own. -/
inductive ShashPtr where
  | bucket : Nat → Nat → ShashPtr
  | node : Nat → ShashPtr
  deriving DecidableEq, Repr

/-- `buckets0` and `buckets1` name bucket arrays, `none` being NULL. Node and array
addresses are handed out in order, so an address is never used twice. -/
structure Shash (V : Type) where
  numNode : Nat
  numBuckets0 : Nat
  numBuckets1 : Nat
  buckets0 : Nat
  buckets1 : Option Nat
  rehashBucket : Nat
  iteratorIndex : Nat
  iteratorBucket : Nat
  iterator : Option ShashPtr
  next : ShashPtr → Option ShashPtr
  prev : ShashPtr → Option ShashPtr
  key : ShashPtr → Key
  value : ShashPtr → V
  freshNode : Nat
  freshTable : Nat

def shashInitNumBuckets : Nat := 9
def shashMaxNumBuckets : Nat := 63

variable {V : Type}

/-- NULL, the value of zeroed memory, is the default of `V`. -/
def shashNew [Inhabited V] : Shash V where
  numNode := 0
  numBuckets0 := shashInitNumBuckets
  numBuckets1 := 0
  buckets0 := 0
  buckets1 := none
  rehashBucket := 0
  iteratorIndex := 0
  iteratorBucket := 0
  iterator := none
  next := fun _ => none
  prev := fun _ => none
  key := fun _ => default
  value := fun _ => default
  freshNode := 0
  freshTable := 1

def shashHashKey (key : Key) : Nat :=
  key.bytes.foldl (fun hash b => (hash * 33 + b.toNat) % 2^64) 0

def bucketIndex (hash numBuckets : Nat) : Nat := hash &&& ((1 <<< numBuckets) - 1)

def Shash.bucketFor (s : Shash V) (key : Key) : ShashPtr :=
  let hash := shashHashKey key
  let index := bucketIndex hash s.numBuckets0
  match s.buckets1 with
  | some table =>
    if index < s.rehashBucket then .bucket table (bucketIndex hash s.numBuckets1)
    else .bucket s.buckets0 index
  | none => .bucket s.buckets0 index

/-- A chain holds at most every node, so this many steps reach its end. -/
def Shash.fuel (s : Shash V) : Nat := s.numNode + 1

def Shash.link (s : Shash V) (node dst : ShashPtr) : Shash V :=
  { s with
    next := Function.update (Function.update s.next node (s.next dst)) dst (some node)
    prev := Function.update
      (match s.next dst with
        | some n => Function.update s.prev n (some node)
        | none => s.prev) node (some dst) }

/-- The search for the place of a migrated node. -/
def Shash.placeLoop (s : Shash V) (key : Key) : Nat → ShashPtr → Option ShashPtr
  | 0, _ => none
  | fuel+1, dst =>
    match s.next dst with
    | none => some dst
    | some n =>
      if shashKeyCompare key (s.key n) ≤ 0 then some dst else s.placeLoop key fuel n

/-- The migration loop: `node` and its successors go to the bucket array `table`. -/
def shashMoveLoop (table : Nat) : Nat → Option ShashPtr → Shash V → Option (Shash V)
  | _, none, s => some s
  | 0, some _, _ => none
  | fuel+1, some node, s => do
    let index := bucketIndex (shashHashKey (s.key node)) s.numBuckets1
    let dst ← s.placeLoop (s.key node) s.fuel (.bucket table index)
    shashMoveLoop table fuel (s.next node) (s.link node dst)

/-- The first half of `_shash_check_rehash`: start a rehash only with the iterator closed. -/
def shashStartRehash (s : Shash V) : Shash V :=
  if s.buckets1 = none ∧ s.iterator = none ∧ 1 <<< s.numBuckets0 ≤ s.numNode ∧
      s.numBuckets0 + 1 ≤ shashMaxNumBuckets then
    { s with
      numBuckets1 := s.numBuckets0 + 1
      buckets1 := some s.freshTable
      rehashBucket := 0
      next := fun p => match p with
        | .bucket table b => if table = s.freshTable then none else s.next (.bucket table b)
        | .node n => s.next (.node n)
      freshTable := s.freshTable + 1 }
  else s

/-- The end of a migration step: the bucket is emptied, and after the last one the new
array replaces the old. -/
def shashFinishBucket (s : Shash V) (table : Nat) : Shash V :=
  let s := { s with
    next := Function.update s.next (.bucket s.buckets0 s.rehashBucket) none
    rehashBucket := s.rehashBucket + 1 }
  if s.rehashBucket = 1 <<< s.numBuckets0 then
    { s with buckets0 := table, buckets1 := none, numBuckets0 := s.numBuckets1 }
  else s

def shashCheckRehash (s : Shash V) : Option (Shash V) :=
  let s := shashStartRehash s
  match s.buckets1, s.iterator with
  | some table, none => do
    let s ← shashMoveLoop table s.fuel (s.next (.bucket s.buckets0 s.rehashBucket)) s
    some (shashFinishBucket s table)
  | _, _ => some s

/-- The search of `shash_insert`: `none` inside means the key is already there. -/
def Shash.insertLoop (s : Shash V) (key : Key) : Nat → ShashPtr → Option (Option ShashPtr)
  | 0, _ => none
  | fuel+1, node =>
    match s.next node with
    | none => some (some node)
    | some n =>
      let ret := shashKeyCompare key (s.key n)
      if ret = 0 then some none
      else if ret < 0 then some (some node)
      else s.insertLoop key fuel n

def shashNewNode (s : Shash V) (key : Key) (value : V) : Shash V :=
  let node := ShashPtr.node s.freshNode
  { s with
    next := Function.update s.next node none
    prev := Function.update s.prev node none
    key := Function.update s.key node key
    value := Function.update s.value node value
    freshNode := s.freshNode + 1 }

def shashInsert (s : Shash V) (key : Key) (value : V) : Option (Shash V × Int) := do
  let s ← shashCheckRehash s
  match ← s.insertLoop key s.fuel (s.bucketFor key) with
  | none => some (s, -1)
  | some node =>
    let new := ShashPtr.node s.freshNode
    let s := (shashNewNode s key value).link new node
    some ({ s with numNode := s.numNode + 1 }, 0)

def Shash.findLoop (s : Shash V) (key : Key) : Nat → ShashPtr → Option (Option ShashPtr)
  | 0, _ => none
  | fuel+1, node =>
    match s.next node with
    | none => some none
    | some n =>
      let ret := shashKeyCompare key (s.key n)
      if ret = 0 then some (some n)
      else if ret < 0 then some none
      else s.findLoop key fuel n

def shashFindNode (s : Shash V) (key : Key) : Option (Option ShashPtr) :=
  s.findLoop key s.fuel (s.bucketFor key)

def Shash.scan (s : Shash V) (table : Nat) : Nat → Nat → Option (Nat × ShashPtr)
  | 0, _ => none
  | n+1, b =>
    match s.next (.bucket table b) with
    | some node => some (b, node)
    | none => s.scan table n (b+1)

def Shash.bucketsAt (s : Shash V) (i : Nat) : Option Nat :=
  if i = 0 then some s.buckets0 else s.buckets1

def Shash.numBucketsAt (s : Shash V) (i : Nat) : Nat :=
  if i = 0 then s.numBuckets0 else s.numBuckets1

/-- The outer loop of `shash_begin_iterate`, `n` arrays from `buckets[i]` on. -/
def shashBeginFrom : Nat → Nat → Shash V → Shash V
  | 0, _, s => { s with iterator := none }
  | n+1, i, s =>
    match s.bucketsAt i with
    | none => { s with iterator := none }
    | some table =>
      match s.scan table (1 <<< s.numBucketsAt i) 0 with
      | some (b, node) =>
        { s with iteratorIndex := i, iteratorBucket := b, iterator := some node }
      | none => shashBeginFrom n (i+1) s

def shashBeginIterate (s : Shash V) : Shash V := shashBeginFrom 2 0 s

/-- The outer loop of `shash_iterate`, `n` arrays from `buckets[i]` on. The bound
`numBuckets` was read once, for the array the iterator was in. -/
def shashIterateFrom (numBuckets : Nat) : Nat → Nat → Shash V → Shash V
  | 0, _, s => s
  | n+1, i, s =>
    match s.bucketsAt i with
    | none => s
    | some table =>
      match s.scan table (numBuckets - s.iteratorBucket) s.iteratorBucket with
      | some (b, node) =>
        { s with iteratorBucket := b, iterator := some node, iteratorIndex := i }
      | none =>
        shashIterateFrom numBuckets n (i+1) (if i = 0 then { s with iteratorBucket := 0 } else s)

def shashAdvance (s : Shash V) (node : ShashPtr) : Shash V :=
  let s := { s with iterator := s.next node }
  match s.iterator with
  | some _ => s
  | none =>
    let s := { s with iteratorBucket := s.iteratorBucket + 1 }
    shashIterateFrom (1 <<< s.numBucketsAt s.iteratorIndex) (2 - s.iteratorIndex) s.iteratorIndex s

/-- The key and value returned, or `none` for -1. -/
def shashIterate (s : Shash V) : Shash V × Option (Key × V) :=
  match s.iterator with
  | none => (s, none)
  | some node => (shashAdvance s node, some (s.key node, s.value node))

def shashEndIterate (s : Shash V) : Shash V := { s with iterator := none }

/-- Unlinks and frees `node`, whose predecessor `p` is not NULL. Freed memory reads as zeros. -/
def Shash.unlink [Inhabited V] (s : Shash V) (node p : ShashPtr) : Shash V :=
  { s with
    next := Function.update (Function.update s.next p (s.next node)) node none
    prev := Function.update
      (match s.next node with
        | some n => Function.update s.prev n (some p)
        | none => s.prev) node none
    key := Function.update s.key node default
    value := Function.update s.value node default
    numNode := s.numNode - 1 }

def shashErase [Inhabited V] (s : Shash V) (key : Key) : Option (Shash V × Int) := do
  let s ← shashCheckRehash s
  match ← shashFindNode s key with
  | none => some (s, -1)
  | some node =>
    let s := if s.iterator = some node then (shashIterate s).1 else s
    let p ← s.prev node
    some (s.unlink node p, 0)

/-- The value stored through the out parameter, or `none` for -1. -/
def shashFind (s : Shash V) (key : Key) : Option (Shash V × Option V) := do
  let s ← shashCheckRehash s
  let node ← shashFindNode s key
  some (s, node.map s.value)

def shashSize (s : Shash V) : Nat := s.numNode

end SimpleKit
