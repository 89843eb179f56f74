import Mathlib.Algebra.Order.Ring.Nat
import Mathlib.Data.Nat.Basic

set_option autoImplicit false

namespace Bytes

def ofNat : Nat → Nat → List UInt8
  | 0, _ => []
  | n+1, v => UInt8.ofNat v :: ofNat n (v/256)

def toNat : List UInt8 → Nat
  | [] => 0
  | b :: l => b.toNat + 256*toNat l

/-- Most significant first: the byte at position `i` of `n` has the weight `256^(n-1-i)`. -/
def bigEndian : Nat → Nat → List UInt8
  | 0, _ => []
  | n+1, v => UInt8.ofNat (v/256^n) :: bigEndian n v

def copy (dst : List UInt8) (offset : Nat) (bytes : List UInt8) : List UInt8 :=
  dst.take offset ++ bytes ++ dst.drop (offset + bytes.length)

def read (src : List UInt8) (offset n : Nat) : List UInt8 := (src.drop offset).take n

@[simp] theorem length_ofNat (n v : Nat) : (ofNat n v).length = n := by
  induction n generalizing v with
  | zero => rfl
  | succ n ih => rw [ofNat, List.length_cons, ih]

theorem toNat_ofNat (n v : Nat) : toNat (ofNat n v) = v % 256^n := by
  induction n generalizing v with
  | zero => simp [ofNat, toNat, Nat.mod_one]
  | succ n ih =>
    rw [ofNat, toNat, ih, UInt8.toNat_ofNat', Nat.pow_succ' (n := n)]
    exact Nat.mod_mul.symm

theorem toNat_lt (l : List UInt8) : toNat l < 256^l.length := by
  induction l with
  | nil => simp [toNat]
  | cons b l ih =>
    have hb := b.toNat_lt
    rw [toNat, List.length_cons, Nat.pow_succ']
    omega

theorem ofNat_toNat (l : List UInt8) : ofNat l.length (toNat l) = l := by
  induction l with
  | nil => rfl
  | cons b l ih =>
    have hb := b.toNat_lt
    have hdiv : (b.toNat + 256*toNat l)/256 = toNat l := by omega
    have hmod : UInt8.ofNat (b.toNat + 256*toNat l) = b := by
      rw [← UInt8.toNat_inj, UInt8.toNat_ofNat']
      omega
    rw [List.length_cons, toNat, ofNat, hdiv, hmod, ih]

theorem bigEndian_succ (n v : Nat) :
    bigEndian (n+1) v = bigEndian n (v/256) ++ [UInt8.ofNat v] := by
  induction n with
  | zero => simp only [bigEndian, Nat.pow_zero, Nat.div_one, List.nil_append]
  | succ n ih =>
    have hdiv : v/256^(n+1) = v/256/256^n := by
      rw [Nat.pow_succ', Nat.div_div_eq_div_mul]
    rw [bigEndian, ih, hdiv, bigEndian, List.cons_append]

theorem reverse_ofNat (n v : Nat) : (ofNat n v).reverse = bigEndian n v := by
  induction n generalizing v with
  | zero => rfl
  | succ n ih => rw [ofNat, List.reverse_cons, ih, bigEndian_succ]

theorem copy_append {a r bytes : List UInt8} {offset : Nat} (ha : a.length = offset) :
    copy (a ++ r) offset bytes = (a ++ bytes) ++ r.drop bytes.length := by
  rw [copy, List.take_left' ha, ← ha, List.drop_length_add_append]

theorem read_append {a b r : List UInt8} {offset n : Nat} (ha : a.length = offset)
    (hb : b.length = n) : read (a ++ (b ++ r)) offset n = b := by
  rw [read, List.drop_left' ha, List.take_left' hb]

@[simp] theorem length_read (src : List UInt8) (offset n : Nat) :
    (read src offset n).length = min n (src.length - offset) := by
  rw [read, List.length_take, List.length_drop]

theorem read_add (src : List UInt8) (offset m n : Nat) :
    read src offset m ++ read src (offset + m) n = read src offset (m+n) := by
  rw [read, read, read, List.take_add, List.drop_drop]

end Bytes
