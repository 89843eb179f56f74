import Mathlib.Algebra.Group.Nat.Defs
import Mathlib.Logic.Function.Basic

/-!
The deque of simple_deque. Nodes are kept in a map from their addresses, and calloc answers
the address of a new one. Reading or freeing a node that is not allocated is the result `none`.
-/
set_option autoImplicit false

namespace SimpleKit

/-- Addresses of a sdeque_node. A node takes more than 16 bytes of a 64-bit space. -/
abbrev SdequePtr := Fin (2^60)

structure SdequeNode (V : Type) where
  value : V
  next : Option SdequePtr
  prev : Option SdequePtr

structure Sdeque (V : Type) where
  numNodes : UInt64
  head : Option SdequePtr
  tail : Option SdequePtr
  nodes : SdequePtr → Option (SdequeNode V)

variable {V : Type}

def sdequeNew : Sdeque V where
  numNodes := 0
  head := none
  tail := none
  nodes := fun _ => none

namespace Sdeque
variable (s : Sdeque V)

def setNode (node : SdequePtr) (n : Option (SdequeNode V)) : Sdeque V :=
  { s with nodes := Function.update s.nodes node n }

def setNext (node : SdequePtr) (next : Option SdequePtr) : Option (Sdeque V) :=
  (s.nodes node).map fun n => s.setNode node (some { n with next := next })

def setPrev (node : SdequePtr) (prev : Option SdequePtr) : Option (Sdeque V) :=
  (s.nodes node).map fun n => s.setNode node (some { n with prev := prev })

def free (node : SdequePtr) : Option (Sdeque V) :=
  (s.nodes node).map fun _ => s.setNode node none

end Sdeque

/-- `node` is where calloc puts the node. -/
def sdequePushFront (s : Sdeque V) (node : SdequePtr) (value : V) : Option (Sdeque V) := do
  let s := s.setNode node (some ⟨value, s.head, none⟩)
  let s ← match s.head with
    | some head => s.setPrev head (some node)
    | none => some { s with tail := some node }
  some { s with head := some node, numNodes := s.numNodes + 1 }

def sdequePopFront (s : Sdeque V) : Option (Sdeque V × Int) :=
  match s.head with
  | none => some (s, -1)
  | some node => do
    let n ← s.nodes node
    let s := { s with head := n.next }
    let s ← match s.head with
      | some head => s.setPrev head none
      | none => some { s with tail := none }
    let s ← s.free node
    some ({ s with numNodes := s.numNodes - 1 }, 0)

/-- The result, and what is stored in `*value` if `value` is not NULL. -/
def sdequeFront (s : Sdeque V) (value : Bool) : Option (Int × Option V) :=
  match s.head with
  | none => some (-1, none)
  | some node => if value then (s.nodes node).map fun n => (0, some n.value) else some (0, none)

def sdequePushBack (s : Sdeque V) (node : SdequePtr) (value : V) : Option (Sdeque V) := do
  let s := s.setNode node (some ⟨value, none, s.tail⟩)
  let s ← match s.tail with
    | none => some { s with head := some node }
    | some tail => s.setNext tail (some node)
  some { s with tail := some node, numNodes := s.numNodes + 1 }

def sdequePopBack (s : Sdeque V) : Option (Sdeque V × Int) :=
  match s.tail with
  | none => some (s, -1)
  | some node => do
    let n ← s.nodes node
    let s := { s with tail := n.prev }
    let s ← match s.tail with
      | some tail => s.setNext tail none
      | none => some { s with head := none }
    let s ← s.free node
    some ({ s with numNodes := s.numNodes - 1 }, 0)

def sdequeBack (s : Sdeque V) (value : Bool) : Option (Int × Option V) :=
  match s.tail with
  | none => some (-1, none)
  | some node => if value then (s.nodes node).map fun n => (0, some n.value) else some (0, none)

def sdequeSize (s : Sdeque V) : UInt64 := s.numNodes

inductive SdequeOp (V : Type) where
  | pushFront : SdequePtr → V → SdequeOp V
  | pushBack : SdequePtr → V → SdequeOp V
  | popFront : SdequeOp V
  | popBack : SdequeOp V
  | front : Bool → SdequeOp V
  | back : Bool → SdequeOp V
  | size : SdequeOp V

inductive SdequeRet (V : Type) where
  | void : SdequeRet V
  | code : Int → SdequeRet V
  | value : Int → Option V → SdequeRet V
  | size : Nat → SdequeRet V
  deriving DecidableEq, Repr

def sdequeStep (s : Sdeque V) : SdequeOp V → Option (Sdeque V × SdequeRet V)
  | .pushFront node value => (sdequePushFront s node value).map fun s => (s, .void)
  | .pushBack node value => (sdequePushBack s node value).map fun s => (s, .void)
  | .popFront => (sdequePopFront s).map fun x => (x.1, .code x.2)
  | .popBack => (sdequePopBack s).map fun x => (x.1, .code x.2)
  | .front value => (sdequeFront s value).map fun x => (s, .value x.1 x.2)
  | .back value => (sdequeBack s value).map fun x => (s, .value x.1 x.2)
  | .size => some (s, .size (sdequeSize s).toNat)

/-- calloc answers an address that is not in use. -/
def SdequeOk (s : Sdeque V) : SdequeOp V → Prop
  | .pushFront node _ => s.nodes node = none
  | .pushBack node _ => s.nodes node = none
  | _ => True

instance (s : Sdeque V) : (op : SdequeOp V) → Decidable (SdequeOk s op)
  | .pushFront node _ => inferInstanceAs (Decidable (s.nodes node = none))
  | .pushBack node _ => inferInstanceAs (Decidable (s.nodes node = none))
  | .popFront | .popBack | .front _ | .back _ | .size => .isTrue trivial

def sequenceEnd (end? : Option V) (value : Bool) : SdequeRet V :=
  match end? with
  | none => .value (-1) none
  | some v => .value 0 (if value then some v else none)

def sequenceStep (l : List V) : SdequeOp V → List V × SdequeRet V
  | .pushFront _ value => (value :: l, .void)
  | .pushBack _ value => (l ++ [value], .void)
  | .popFront => (l.tail, .code (if l.isEmpty then -1 else 0))
  | .popBack => (l.dropLast, .code (if l.isEmpty then -1 else 0))
  | .front value => (l, sequenceEnd l.head? value)
  | .back value => (l, sequenceEnd l.getLast? value)
  | .size => (l, .size l.length)

/-- Following the link `link` from a pointer visits these nodes in order and ends with NULL. -/
def Sdeque.Visits (s : Sdeque V) (link : SdequeNode V → Option SdequePtr) :
    Option SdequePtr → List SdequePtr → Prop
  | p, [] => p = none
  | p, node :: nodes => p = some node ∧ ∃ n, s.nodes node = some n ∧ s.Visits link (link n) nodes

structure Sdeque.Holds (s : Sdeque V) (l : List V) : Prop where
  nodes : ∃ nodes, s.Visits SdequeNode.next s.head nodes ∧
    s.Visits SdequeNode.prev s.tail nodes.reverse ∧
    nodes.map (fun node => (s.nodes node).map SdequeNode.value) = l.map some
  head_prev : ∀ node, s.head = some node → (s.nodes node).map SdequeNode.prev = some none
  tail_next : ∀ node, s.tail = some node → (s.nodes node).map SdequeNode.next = some none
  head : s.head = none ↔ l = []
  tail : s.tail = none ↔ l = []
  size : s.numNodes.toNat = l.length

end SimpleKit
