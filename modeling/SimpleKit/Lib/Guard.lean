import Mathlib.Data.List.Basic

set_option autoImplicit false

namespace Guard
variable {K α : Type}

def Guards (owner : Option K) (inside : K → Prop) : Prop := ∀ k, owner = some k ↔ inside k

variable {owner : Option K} {inside inside' : K → Prop} {k k' : K}

theorem Guards.unique (h : Guards owner inside) (hk : inside k) (hk' : inside k') : k = k' :=
  Option.some.inj (((h k).mpr hk).symm.trans ((h k').mpr hk'))

theorem Guards.empty (h : Guards none inside) : ¬ inside k := fun hk => by
  cases (h k).mpr hk

theorem Guards.congr (h : Guards owner inside) (hin : ∀ k, inside' k ↔ inside k) :
    Guards owner inside' := fun k => (h k).trans (hin k).symm

theorem Guards.take (h : Guards none inside) (hin : ∀ x, inside' x ↔ x = k ∨ inside x) :
    Guards (some k) inside' := by
  intro x
  rw [hin, or_iff_left h.empty, Option.some.injEq]
  exact eq_comm

theorem Guards.drop (h : Guards owner inside) (hk : inside k)
    (hin : ∀ x, inside' x ↔ x ≠ k ∧ inside x) : Guards none inside' := by
  intro x
  rw [hin]
  exact iff_of_false (fun he => by cases he) fun hx => hx.1 (h.unique hx.2 hk)

section Tables
variable {l : List α} {i j : Nat} {a b : α}

theorem get_set (h : l[i]? = some a) (b : α) (j : Nat) :
    (l.set i b)[j]? = if j = i then some b else l[j]? := by
  obtain ⟨hi, -⟩ := List.getElem?_eq_some_iff.mp h
  by_cases hj : j = i
  · rw [if_pos hj, hj, List.getElem?_set_self hi]
  · rw [if_neg hj, List.getElem?_set_ne (Ne.symm hj)]

theorem set_same (h : l[i]? = some a) : l.set i a = l := by
  refine List.ext_getElem? fun j => ?_
  rw [get_set h]
  split
  · next hj => rw [hj, h]
  · rfl

theorem get_push : (l ++ [a])[j]? = some b ↔ l[j]? = some b ∨ j = l.length ∧ a = b := by
  rcases Nat.lt_trichotomy j l.length with hj | rfl | hj
  · rw [List.getElem?_append_left hj, or_iff_left fun h => Nat.ne_of_lt hj h.1]
  · rw [List.getElem?_concat_length, List.getElem?_eq_none (Nat.le_refl _)]
    simp
  · rw [List.getElem?_eq_none (by simp; omega), List.getElem?_eq_none (Nat.le_of_lt hj)]
    simp [Nat.ne_of_gt hj]

end Tables

end Guard
