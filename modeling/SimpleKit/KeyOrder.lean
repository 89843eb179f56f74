import Mathlib.Data.Int.Order.Basic
import SimpleKit.Key

set_option autoImplicit false

namespace SimpleKit

def memcmpWithin (n : Nat) (s1 s2 : List UInt8) : Option Int :=
  if n ≤ s1.length ∧ n ≤ s2.length then some (memcmp n s1 s2) else none

def keyCompareWithin (minLen : Nat) (key1 key2 : List UInt8) : Option Int := do
  let ret ← memcmpWithin minLen key1 key2
  if ret ≠ 0 then some ret
  else if key1.length = key2.length then some 0
  else if key1.length < key2.length then some (-1) else some 1

def shashKeyCompareWithin (key1 key2 : Key) : Option Int :=
  keyCompareWithin (shashMinLen key1.length key2.length) key1.bytes key2.bytes

def slistKeyCompareWithin (key1 key2 : Key) : Option Int :=
  keyCompareWithin (slistMinLen key1.length key2.length) key1.bytes key2.bytes

structure OrderSign (ret : Int) (k1 k2 : Key) : Prop where
  lt : ret < 0 ↔ k1 < k2
  eq : ret = 0 ↔ k1 = k2
  gt : 0 < ret ↔ k2 < k1

/-- A routine orders two keys, and fits with what it says of them and a third one. -/
structure Orders (compare : Key → Key → Option Int) (k1 k2 : Key) : Prop where
  sign : ∃ ret, compare k1 k2 = some ret ∧ OrderSign ret k1 k2
  antisymm : ∃ ret ret', compare k1 k2 = some ret ∧ compare k2 k1 = some ret' ∧
    ret'.sign = -ret.sign
  trans : ∀ k3 ret12 ret23 ret13, compare k1 k2 = some ret12 → compare k2 k3 = some ret23 →
    compare k1 k3 = some ret13 → ret12 ≤ 0 → ret23 ≤ 0 → ret13 ≤ 0

/-- Both routines compare the common length of two keys and nothing else, with the same sign, and
order them. -/
structure OneOrder (k1 k2 : Key) : Prop where
  shashPrefix : shashMinLen k1.length k2.length = min k1.length k2.length
  slistPrefix : slistMinLen k1.length k2.length = min k1.length k2.length
  shash : Orders shashKeyCompareWithin k1 k2
  slist : Orders slistKeyCompareWithin k1 k2
  same : ∃ ret ret', shashKeyCompareWithin k1 k2 = some ret ∧
    slistKeyCompareWithin k1 k2 = some ret' ∧ ret.sign = ret'.sign

variable {k1 k2 : Key} {n : Nat}

theorem keyCompareWithin_eq (h1 : n ≤ k1.length) (h2 : n ≤ k2.length) :
    keyCompareWithin n k1.bytes k2.bytes = some (keyCompare n k1.bytes k2.bytes) := by
  rw [keyCompareWithin, memcmpWithin, if_pos ⟨h1, h2⟩]
  simp only [keyCompare, Option.bind_eq_bind, Option.bind_some]
  split
  · rfl
  · split
    · rfl
    · split <;> rfl

theorem keyCompareWithin_none (h : min k1.length k2.length < n) :
    keyCompareWithin n k1.bytes k2.bytes = none := by
  have hno : ¬ (n ≤ k1.bytes.length ∧ n ≤ k2.bytes.length) := fun hn =>
    Nat.not_le.mpr h (Nat.le_min.mpr hn)
  rw [keyCompareWithin, memcmpWithin, if_neg hno]
  rfl

theorem OrderSign.of_lex {ret : Int} (hlt : ret < 0 ↔ k1 < k2) (heq : ret = 0 ↔ k1 = k2) :
    OrderSign ret k1 k2 := by
  refine ⟨hlt, heq, ?_⟩
  rw [← not_le, le_iff_lt_or_eq, hlt, heq, ← le_iff_lt_or_eq, not_le]

theorem keyCompare_sign (k1 k2 : Key) :
    OrderSign (keyCompare (min k1.length k2.length) k1.bytes k2.bytes) k1 k2 := by
  obtain ⟨hlt, heq⟩ := keyCompare_lex k1.bytes k2.bytes
  exact OrderSign.of_lex (hlt.trans (Key.lt_iff_lex k1 k2).symm) (heq.trans Key.ext_iff.symm)

/-- A routine that compares at least the common length is only defined where it compares no more,
and orders the keys there. -/
theorem keyCompareWithin_sign (hn : min k1.length k2.length ≤ n) {ret : Int}
    (h : keyCompareWithin n k1.bytes k2.bytes = some ret) : OrderSign ret k1 k2 := by
  rcases Nat.lt_or_eq_of_le hn with hlt | rfl
  · rw [keyCompareWithin_none hlt] at h
    cases h
  · rw [keyCompareWithin_eq (Nat.min_le_left ..) (Nat.min_le_right ..)] at h
    rw [← Option.some.inj h]
    exact keyCompare_sign k1 k2

theorem OrderSign.le {ret : Int} (h : OrderSign ret k1 k2) : ret ≤ 0 ↔ k1 ≤ k2 := by
  rw [le_iff_lt_or_eq, h.lt, h.eq, le_iff_lt_or_eq]

theorem OrderSign.sign_swap {ret ret' : Int} (h : OrderSign ret k1 k2)
    (h' : OrderSign ret' k2 k1) : ret'.sign = -ret.sign := by
  rcases lt_trichotomy k1 k2 with hlt | heq | hgt
  · rw [Int.sign_eq_neg_one_of_neg (h.lt.mpr hlt), Int.sign_eq_one_of_pos (h'.gt.mpr hlt)]
    rfl
  · rw [h.eq.mpr heq, h'.eq.mpr heq.symm]
    rfl
  · rw [Int.sign_eq_one_of_pos (h.gt.mpr hgt), Int.sign_eq_neg_one_of_neg (h'.lt.mpr hgt)]

theorem OrderSign.sign_eq {ret ret' : Int} (h : OrderSign ret k1 k2) (h' : OrderSign ret' k1 k2) :
    ret.sign = ret'.sign := by
  rcases lt_trichotomy k1 k2 with hlt | heq | hgt
  · rw [Int.sign_eq_neg_one_of_neg (h.lt.mpr hlt), Int.sign_eq_neg_one_of_neg (h'.lt.mpr hlt)]
  · rw [h.eq.mpr heq, h'.eq.mpr heq]
  · rw [Int.sign_eq_one_of_pos (h.gt.mpr hgt), Int.sign_eq_one_of_pos (h'.gt.mpr hgt)]

theorem Orders.of_sign {compare : Key → Key → Option Int}
    (hsign : ∀ k1 k2 ret, compare k1 k2 = some ret → OrderSign ret k1 k2) {ret ret' : Int}
    (h : compare k1 k2 = some ret) (h' : compare k2 k1 = some ret') : Orders compare k1 k2 where
  sign := ⟨ret, h, hsign k1 k2 ret h⟩
  antisymm := ⟨ret, ret', h, h', (hsign k1 k2 ret h).sign_swap (hsign k2 k1 ret' h')⟩
  trans k3 ret12 ret23 ret13 h12 h23 h13 hle12 hle23 := by
    have hle : k1 ≤ k2 := (hsign k1 k2 ret12 h12).le.mp hle12
    have hle' : k2 ≤ k3 := (hsign k2 k3 ret23 h23).le.mp hle23
    exact (hsign k1 k3 ret13 h13).le.mpr (le_trans hle hle')

/-- From 2^31 on the int is negative, and the size memcmp gets is beyond both keys. -/
theorem shashMinLen_gt {n m : Nat} (h : 2^31 ≤ min n m) : min n m < shashMinLen n m := by
  simp only [shashMinLen]
  split <;> split <;> omega

theorem le_shashMinLen (n m : Nat) : min n m ≤ shashMinLen n m := by
  rcases Nat.lt_or_ge (min n m) (2^31) with h | h
  · exact Nat.le_of_eq (shashMinLen_eq h).symm
  · exact Nat.le_of_lt (shashMinLen_gt h)

theorem shashKeyCompareWithin_sign (k1 k2 : Key) (ret : Int)
    (h : shashKeyCompareWithin k1 k2 = some ret) : OrderSign ret k1 k2 :=
  keyCompareWithin_sign (le_shashMinLen _ _) h

theorem slistKeyCompareWithin_sign (k1 k2 : Key) (ret : Int)
    (h : slistKeyCompareWithin k1 k2 = some ret) : OrderSign ret k1 k2 :=
  keyCompareWithin_sign (Nat.le_of_eq (slistMinLen_eq _ _).symm) h

theorem shashKeyCompareWithin_eq (h : min k1.length k2.length < 2^31) :
    shashKeyCompareWithin k1 k2 = some (shashKeyCompare k1 k2) := by
  have hmin := shashMinLen_eq h
  exact keyCompareWithin_eq (hmin ▸ Nat.min_le_left ..) (hmin ▸ Nat.min_le_right ..)

theorem slistKeyCompareWithin_eq (k1 k2 : Key) :
    slistKeyCompareWithin k1 k2 = some (slistKeyCompare k1 k2) := by
  have hmin := slistMinLen_eq k1.length k2.length
  exact keyCompareWithin_eq (hmin ▸ Nat.min_le_left ..) (hmin ▸ Nat.min_le_right ..)

theorem oneOrder_of_short (h : min k1.length k2.length < 2^31) : OneOrder k1 k2 where
  shashPrefix := shashMinLen_eq h
  slistPrefix := slistMinLen_eq _ _
  shash := Orders.of_sign shashKeyCompareWithin_sign (shashKeyCompareWithin_eq h)
    (shashKeyCompareWithin_eq (Nat.min_comm .. ▸ h))
  slist := Orders.of_sign slistKeyCompareWithin_sign (slistKeyCompareWithin_eq k1 k2)
    (slistKeyCompareWithin_eq k2 k1)
  same := ⟨_, _, shashKeyCompareWithin_eq h, slistKeyCompareWithin_eq k1 k2,
    (shashKeyCompareWithin_sign _ _ _ (shashKeyCompareWithin_eq h)).sign_eq
      (slistKeyCompareWithin_sign _ _ _ (slistKeyCompareWithin_eq k1 k2))⟩

theorem not_oneOrder_of_long (h : 2^31 ≤ min k1.length k2.length) : ¬ OneOrder k1 k2 := fun ho =>
  Nat.ne_of_gt (shashMinLen_gt h) ho.shashPrefix

/-- The two routines are one order on the keys with a common length below 2^31, and on no others. -/
theorem key_compare_one_order (k1 k2 : Key) :
    OneOrder k1 k2 ↔ min k1.length k2.length < 2^31 := by
  refine ⟨fun ho => ?_, oneOrder_of_short⟩
  by_contra hlong
  exact not_oneOrder_of_long (Nat.le_of_not_lt hlong) ho

/-- A key of 2^31 bytes is compared with itself beyond its end. -/
theorem key_compare_beyond : ∃ k : Key, k.length = 2^31 ∧ ¬ OneOrder k k ∧
    shashKeyCompareWithin k k = none ∧ slistKeyCompareWithin k k = some 0 := by
  have hlen : (⟨List.replicate (2^31) 0⟩ : Key).length = 2^31 := List.length_replicate ..
  have hlong : 2^31 ≤ min (⟨List.replicate (2^31) 0⟩ : Key).length
      (⟨List.replicate (2^31) 0⟩ : Key).length := by rw [hlen, Nat.min_self]
  refine ⟨⟨List.replicate (2^31) 0⟩, hlen, not_oneOrder_of_long hlong,
    keyCompareWithin_none (shashMinLen_gt hlong), ?_⟩
  rw [slistKeyCompareWithin_eq, (slistKeyCompare_eq _ _).mpr rfl]

end SimpleKit
