import Mathlib.Algebra.Group.Nat.Defs
import Mathlib.Data.List.Basic

set_option autoImplicit false

namespace Decimal

def Digit (c : UInt8) : Bool := 48 ≤ c ∧ c ≤ 57

def value (l : List UInt8) : Nat := l.foldl (fun n c => 10 * n + (c.toNat - 48)) 0

def numeral (n : Nat) : List UInt8 := (Nat.toDigits 10 n).map fun c => c.toNat.toUInt8

def padded (width n : Nat) : List UInt8 :=
  List.replicate (width - (numeral n).length) 48 ++ numeral n

variable {c : UInt8} {l m r s : List UInt8} {a b n w : Nat}

theorem digit_iff : Digit c = true ↔ 48 ≤ c.toNat ∧ c.toNat ≤ 57 := by
  simp only [Digit, decide_eq_true_eq, UInt8.le_iff_toNat_le]
  rfl

@[simp] theorem value_nil : value [] = 0 := rfl

theorem foldl_value (l : List UInt8) (n : Nat) :
    l.foldl (fun n c => 10 * n + (c.toNat - 48)) n = n * 10 ^ l.length + value l := by
  induction l generalizing n with
  | nil => simp
  | cons c l ih =>
    have hfirst : value (c :: l) = (c.toNat - 48) * 10 ^ l.length + value l := by
      rw [value, List.foldl_cons, ih, Nat.mul_zero, Nat.zero_add]
    rw [List.foldl_cons, ih, hfirst, List.length_cons, Nat.pow_succ, Nat.add_mul, Nat.mul_comm 10 n,
      Nat.mul_assoc, Nat.mul_comm 10, Nat.add_assoc]

theorem value_append (l m : List UInt8) : value (l ++ m) = value l * 10 ^ m.length + value m := by
  rw [value, List.foldl_append, foldl_value]
  rfl

theorem value_cons (c : UInt8) (l : List UInt8) :
    value (c :: l) = (c.toNat - 48) * 10 ^ l.length + value l := by
  rw [← List.singleton_append, value_append]
  simp [value]

@[simp] theorem value_zeros (n : Nat) (l : List UInt8) :
    value (List.replicate n 48 ++ l) = value l := by
  induction n with
  | zero => simp
  | succ n ih => simp [List.replicate_succ, value_cons, ih]

theorem value_lt (h : ∀ c ∈ l, Digit c = true) : value l < 10 ^ l.length := by
  induction l with
  | nil => simp
  | cons c l ih =>
    simp only [List.mem_cons, forall_eq_or_imp] at h
    have hc := digit_iff.mp h.1
    have hl := ih h.2
    have hle : (c.toNat - 48) * 10 ^ l.length ≤ 9 * 10 ^ l.length :=
      Nat.mul_le_mul_right _ (by omega)
    rw [value_cons, List.length_cons, Nat.pow_succ]
    omega

theorem lt_iff_value_lt (hl : ∀ c ∈ l, Digit c = true) (hm : ∀ c ∈ m, Digit c = true)
    (hlen : l.length = m.length) : l < m ↔ value l < value m := by
  induction l generalizing m with
  | nil =>
    cases m with
    | nil => simp
    | cons d m => simp at hlen
  | cons c l ih =>
    cases m with
    | nil => simp at hlen
    | cons d m =>
      simp only [List.mem_cons, forall_eq_or_imp, List.length_cons, Nat.add_right_cancel_iff]
        at hl hm hlen
      have hc := digit_iff.mp hl.1
      have hd := digit_iff.mp hm.1
      have hlv := value_lt hl.2
      have hmv := value_lt hm.2
      rw [List.cons_lt_cons_iff, ih hl.2 hm.2 hlen, value_cons, value_cons, UInt8.lt_iff_toNat_lt,
        ← UInt8.toNat_inj, hlen]
      rw [hlen] at hlv
      rcases Nat.lt_trichotomy c.toNat d.toNat with h | h | h
      · have hstep : (c.toNat - 48 + 1) * 10 ^ m.length ≤ (d.toNat - 48) * 10 ^ m.length :=
          Nat.mul_le_mul_right _ (by omega)
        rw [Nat.add_mul] at hstep
        exact iff_of_true (Or.inl h) (by omega)
      · rw [h]
        omega
      · have hstep : (d.toNat - 48 + 1) * 10 ^ m.length ≤ (c.toNat - 48) * 10 ^ m.length :=
          Nat.mul_le_mul_right _ (by omega)
        rw [Nat.add_mul] at hstep
        exact iff_of_false (by omega) (by omega)

theorem append_lt_append_iff (hlen : l.length = m.length) :
    l ++ r < m ++ s ↔ l < m ∨ l = m ∧ r < s := by
  induction l generalizing m with
  | nil =>
    cases m with
    | nil => simp
    | cons d m => simp at hlen
  | cons c l ih =>
    cases m with
    | nil => simp at hlen
    | cons d m =>
      simp only [List.length_cons, Nat.add_right_cancel_iff] at hlen
      simp only [List.cons_append, List.cons_lt_cons_iff, ih hlen, List.cons.injEq]
      tauto

theorem digit_of_mem_numeral (h : c ∈ numeral n) : Digit c = true := by
  obtain ⟨x, hx, rfl⟩ := List.mem_map.mp h
  have hdigit := Nat.isDigit_of_mem_toDigits (by decide) (by decide) hx
  have hrange := Char.isDigit_iff_toNat.mp hdigit
  have hlo : 48 ≤ x.toNat := hrange.1
  have hhi : x.toNat ≤ 57 := hrange.2
  rw [digit_iff]
  simp only [Nat.toUInt8, UInt8.toNat_ofNat']
  omega

theorem value_numeral (n : Nat) : value (numeral n) = n := by
  have hchars : ∀ l : List Char, (∀ c ∈ l, c.isDigit = true) → ∀ k,
      (l.map fun c => c.toNat.toUInt8).foldl (fun n c => 10 * n + (c.toNat - 48)) k =
        Nat.ofDigitChars 10 l k := by
    intro l hl
    induction l with
    | nil => simp
    | cons c l ih =>
      intro k
      simp only [List.mem_cons, forall_eq_or_imp] at hl
      have hrange := Char.isDigit_iff_toNat.mp hl.1
      have hhi : c.toNat ≤ 57 := hrange.2
      have hbyte : c.toNat.toUInt8.toNat = c.toNat := by
        simp only [Nat.toUInt8, UInt8.toNat_ofNat']
        omega
      rw [List.map_cons, List.foldl_cons, ih hl.2, Nat.ofDigitChars_cons, hbyte]
      rfl
  rw [value, numeral, hchars _ (fun c hc => Nat.isDigit_of_mem_toDigits (by decide) (by decide) hc)]
  exact Nat.ofDigitChars_ten_toDigits

theorem digit_of_mem_padded (h : c ∈ padded w n) : Digit c = true := by
  rcases List.mem_append.mp h with h | h
  · rw [List.eq_of_mem_replicate h]
    decide
  · exact digit_of_mem_numeral h

@[simp] theorem value_padded (w n : Nat) : value (padded w n) = n := by
  rw [padded, value_zeros, value_numeral]

theorem length_padded (hw : 0 < w) (hn : n < 10 ^ w) : (padded w n).length = w := by
  have hlen : (numeral n).length ≤ w := by
    rw [numeral, List.length_map, Nat.length_toDigits_le_iff (by decide) hw]
    exact hn
  rw [padded, List.length_append, List.length_replicate]
  omega

theorem padded_lt_iff (hw : 0 < w) (ha : a < 10 ^ w) (hb : b < 10 ^ w) :
    padded w a ++ r < padded w b ++ s ↔ a < b ∨ a = b ∧ r < s := by
  have hlen : (padded w a).length = (padded w b).length := by
    rw [length_padded hw ha, length_padded hw hb]
  have hinj : padded w a = padded w b ↔ a = b := by
    refine ⟨fun h => ?_, fun h => by rw [h]⟩
    rw [← value_padded w a, h, value_padded]
  rw [append_lt_append_iff hlen, lt_iff_value_lt (fun _ => digit_of_mem_padded)
    (fun _ => digit_of_mem_padded) hlen, value_padded, value_padded, hinj]

end Decimal
