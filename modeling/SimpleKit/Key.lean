import Mathlib.Algebra.Group.Nat.Defs
import Mathlib.Data.List.Lex
import Mathlib.Order.Lattice

/-!
Keys are byte strings. Both containers compare them with memcmp on a common
prefix and then by length; the two routines differ only in the type that holds
the length of that prefix.
-/
set_option autoImplicit false

namespace SimpleKit

instance byteLinearOrder : LinearOrder UInt8 where
  le_refl := UInt8.le_refl
  le_trans _ _ _ := UInt8.le_trans
  lt_iff_le_not_ge a b := by
    simp only [UInt8.lt_iff_toNat_lt, UInt8.le_iff_toNat_le]
    omega
  le_antisymm _ _ := UInt8.le_antisymm
  le_total := UInt8.le_total
  toDecidableLE := inferInstance
  toDecidableLT := inferInstance
  toDecidableEq := inferInstance

@[ext] structure Key where
  bytes : List UInt8
  deriving Repr

/-- The lexicographic order on unsigned bytes, a proper prefix being smaller. -/
instance keyLinearOrder : LinearOrder Key := LinearOrder.lift' Key.bytes (fun _ _ => Key.ext)

instance keyInhabited : Inhabited Key := ⟨⟨[]⟩⟩

def Key.length (key : Key) : Nat := key.bytes.length

theorem Key.lt_iff_lex (k1 k2 : Key) :
    k1 < k2 ↔ List.Lex (fun a b : UInt8 => a < b) k1.bytes k2.bytes := Iff.rfl

/-- memcmp on the first `n` bytes. Only the sign is specified; the difference of the
first two bytes that differ is what is returned here. -/
def memcmp : Nat → List UInt8 → List UInt8 → Int
  | n+1, a :: as, b :: bs => if a = b then memcmp n as bs else (a.toNat : Int) - b.toNat
  | _, _, _ => 0

/-- `_shash_key_compare` and `_slist_key_compare`, after the prefix length is computed. -/
def keyCompare (minLen : Nat) (key1 key2 : List UInt8) : Int :=
  let ret := memcmp minLen key1 key2
  if ret ≠ 0 then ret
  else if key1.length = key2.length then 0
  else if key1.length < key2.length then -1 else 1

/-- The prefix length of `_shash_key_compare` as memcmp receives it: a uint32_t stored in
an int (negative from 2^31 on) and converted to size_t. -/
def shashMinLen (len1 len2 : Nat) : Nat :=
  let m := if len1 < len2 then len1 else len2
  if m < 2^31 then m else 2^64 - 2^32 + m

def shashKeyCompare (key1 key2 : Key) : Int :=
  keyCompare (shashMinLen key1.length key2.length) key1.bytes key2.bytes

def slistMinLen (len1 len2 : Nat) : Nat := if len1 < len2 then len1 else len2

def slistKeyCompare (key1 key2 : Key) : Int :=
  keyCompare (slistMinLen key1.length key2.length) key1.bytes key2.bytes

theorem keyCompare_cons (n : Nat) (a : UInt8) (k1 k2 : List UInt8) :
    keyCompare (n+1) (a :: k1) (a :: k2) = keyCompare n k1 k2 := by
  simp [keyCompare, memcmp]

theorem keyCompare_cons_ne (n : Nat) {a b : UInt8} (h : a ≠ b) (k1 k2 : List UInt8) :
    keyCompare (n+1) (a :: k1) (b :: k2) = (a.toNat : Int) - b.toNat := by
  have hne : a.toNat ≠ b.toNat := fun he => h (UInt8.toNat_inj.mp he)
  have hd : (a.toNat : Int) - b.toNat ≠ 0 := by omega
  simp [keyCompare, memcmp, h, hd]

theorem byte_diff_neg (a b : UInt8) : (a.toNat : Int) - b.toNat < 0 ↔ a < b := by
  have h : (a.toNat : Int) - b.toNat < 0 ↔ a.toNat < b.toNat := by omega
  exact h.trans UInt8.lt_iff_toNat_lt.symm

/-- With the common length as prefix, the sign is the lexicographic order. -/
theorem keyCompare_lex (k1 k2 : List UInt8) :
    (keyCompare (min k1.length k2.length) k1 k2 < 0 ↔
        List.Lex (fun a b : UInt8 => a < b) k1 k2) ∧
      (keyCompare (min k1.length k2.length) k1 k2 = 0 ↔ k1 = k2) := by
  induction k1 generalizing k2 with
  | nil => cases k2 <;> simp [keyCompare, memcmp]
  | cons a k1 ih =>
    cases k2 with
    | nil => simp [keyCompare, memcmp]
    | cons b k2 =>
      have hmin : min (a :: k1).length (b :: k2).length = min k1.length k2.length + 1 := by
        simp only [List.length_cons]
        omega
      rw [hmin]
      by_cases hab : a = b
      · subst hab
        rw [keyCompare_cons, (ih k2).1, (ih k2).2, List.lex_cons_iff]
        simp
      · have hne : a.toNat ≠ b.toNat := fun he => hab (UInt8.toNat_inj.mp he)
        rw [keyCompare_cons_ne _ hab]
        constructor
        · rw [byte_diff_neg]
          exact ⟨List.Lex.rel, fun h => by cases h with
            | cons h => exact absurd rfl hab
            | rel h => exact h⟩
        · simp only [hab, false_and, List.cons.injEq, iff_false]
          omega

theorem shashMinLen_eq {n m : Nat} (h : min n m < 2^31) : shashMinLen n m = min n m := by
  simp only [shashMinLen]
  split <;> split <;> omega

theorem slistMinLen_eq (n m : Nat) : slistMinLen n m = min n m := by
  simp only [slistMinLen]
  split <;> omega

theorem shashKeyCompare_lt {k1 k2 : Key} (h : min k1.length k2.length < 2^31) :
    shashKeyCompare k1 k2 < 0 ↔ k1 < k2 := by
  rw [shashKeyCompare, shashMinLen_eq h, Key.lt_iff_lex]
  exact (keyCompare_lex k1.bytes k2.bytes).1

theorem shashKeyCompare_eq {k1 k2 : Key} (h : min k1.length k2.length < 2^31) :
    shashKeyCompare k1 k2 = 0 ↔ k1 = k2 := by
  rw [shashKeyCompare, shashMinLen_eq h, Key.ext_iff]
  exact (keyCompare_lex k1.bytes k2.bytes).2

theorem slistKeyCompare_lt (k1 k2 : Key) : slistKeyCompare k1 k2 < 0 ↔ k1 < k2 := by
  rw [slistKeyCompare, slistMinLen_eq, Key.lt_iff_lex]
  exact (keyCompare_lex k1.bytes k2.bytes).1

theorem slistKeyCompare_eq (k1 k2 : Key) : slistKeyCompare k1 k2 = 0 ↔ k1 = k2 := by
  rw [slistKeyCompare, slistMinLen_eq, Key.ext_iff]
  exact (keyCompare_lex k1.bytes k2.bytes).2

theorem slistKeyCompare_gt (k1 k2 : Key) : 0 < slistKeyCompare k1 k2 ↔ k2 < k1 := by
  have hlt := slistKeyCompare_lt k1 k2
  have heq := slistKeyCompare_eq k1 k2
  constructor
  · intro h
    have h1 : ¬ k1 < k2 := fun hk => by have := hlt.mpr hk; omega
    have h2 : k1 ≠ k2 := fun hk => by have := heq.mpr hk; omega
    exact lt_of_le_of_ne (not_lt.mp h1) (Ne.symm h2)
  · intro h
    have h1 : ¬ slistKeyCompare k1 k2 < 0 := fun hk => lt_asymm (hlt.mp hk) h
    have h2 : slistKeyCompare k1 k2 ≠ 0 := fun hk => (ne_of_gt h) (heq.mp hk)
    omega

end SimpleKit
