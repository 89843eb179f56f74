import Mathlib.Logic.Function.Basic
import Mathlib.Order.Lattice

/-!
The order of a binary heap, on the priorities `p` of positions `1..n`. A sift moves one
element that may be anywhere in the order; `Around` is what holds of all the others, and
each direction of a sift adds one side of it.
-/
set_option autoImplicit false

namespace HeapOrder
variable {β : Type} [LinearOrder β] {p p' : Nat → β} {n h : Nat}

def Ordered (p : Nat → β) (n : Nat) : Prop := ∀ i, 2 ≤ i → i ≤ n → p (i/2) ≤ p i

/-- Everything is in order but for the element at `h`, past which the order still holds. -/
structure Around (p : Nat → β) (n h : Nat) : Prop where
  away : ∀ i, 2 ≤ i → i ≤ n → i ≠ h → i/2 ≠ h → p (i/2) ≤ p i
  across : ∀ i, 2 ≤ h → i ≤ n → i/2 = h → p (h/2) ≤ p i

structure Rising (p : Nat → β) (n h : Nat) : Prop extends Around p n h where
  children : ∀ i, 2 ≤ i → i ≤ n → i/2 = h → p h ≤ p i

structure Sinking (p : Nat → β) (n h : Nat) : Prop extends Around p n h where
  parent : 2 ≤ h → p (h/2) ≤ p h

def swap {α : Type} (f : Nat → α) (i j : Nat) : Nat → α :=
  Function.update (Function.update f i (f j)) j (f i)

section Swap
variable {α : Type} {f : Nat → α} {i j k : Nat}

theorem swap_right (f : Nat → α) (i j : Nat) : swap f i j j = f i := Function.update_self ..

theorem swap_left (h : i ≠ j) : swap f i j i = f j := by
  rw [swap, Function.update_of_ne h, Function.update_self]

theorem swap_of_ne (hi : k ≠ i) (hj : k ≠ j) : swap f i j k = f k := by
  rw [swap, Function.update_of_ne hj, Function.update_of_ne hi]

theorem comp_swap {γ : Type} (g : α → γ) (f : Nat → α) (i j : Nat) :
    g ∘ swap f i j = swap (g ∘ f) i j := by
  rw [swap, Function.comp_update, Function.comp_update]
  rfl

end Swap

theorem Ordered.around (ho : Ordered p n) {m : Nat} (hm : m ≤ n)
    (he : ∀ i, 1 ≤ i → i ≤ m → i ≠ h → p' i = p i) : Around p' m h := by
  refine ⟨fun i h2 hi hne hpar => ?_, fun i h2 hi hpar => ?_⟩
  · rw [he i (by omega) hi hne, he (i/2) (by omega) (by omega) hpar]
    exact ho i h2 (by omega)
  · rw [he i (by omega) hi (by omega), he (h/2) (by omega) (by omega) (by omega)]
    have h1 := ho i (by omega) (by omega)
    have h3 := ho h h2 (by omega)
    rw [hpar] at h1
    exact le_trans h3 h1

theorem Ordered.around_succ (ho : Ordered p n) (he : ∀ i, 1 ≤ i → i ≤ n → p' i = p i) :
    Around p' (n+1) (n+1) := by
  refine ⟨fun i h2 hi hne hpar => ?_, fun i h2 hi hpar => by omega⟩
  rw [he i (by omega) (by omega), he (i/2) (by omega) (by omega)]
  exact ho i h2 (by omega)

theorem Around.rising (ha : Around p n h) (h2 : 2 ≤ h) (hlt : p h < p (h/2)) : Rising p n h :=
  { ha with children := fun i _ hi hpar => le_trans (le_of_lt hlt) (ha.across i h2 hi hpar) }

theorem Around.sinking (ha : Around p n h) (hle : 2 ≤ h → p (h/2) ≤ p h) : Sinking p n h :=
  { ha with parent := hle }

theorem Rising.step (hr : Rising p n h) (h2 : 2 ≤ h) (hn : h ≤ n) (hle : p h ≤ p (h/2)) :
    Rising (swap p h (h/2)) n (h/2) := by
  have hne : h ≠ h/2 := by omega
  refine ⟨⟨fun i i2 hi hih hpar => ?_, fun i hh hi hpar => ?_⟩, fun i i2 hi hpar => ?_⟩
  · by_cases h1 : i = h
    · exact absurd (by rw [h1]) hpar
    · rw [swap_of_ne h1 hih]
      by_cases h3 : i/2 = h
      · rw [h3, swap_left hne]
        exact hr.across i h2 hi h3
      · rw [swap_of_ne h3 hpar]
        exact hr.away i i2 hi h1 h3
  · have hgrand : p (h/2/2) ≤ p (h/2) := hr.away (h/2) hh (by omega) (by omega) (by omega)
    rw [swap_of_ne (by omega) (by omega)]
    by_cases h1 : i = h
    · rw [h1, swap_left hne]
      exact hgrand
    · rw [swap_of_ne h1 (by omega)]
      have hi' := hr.away i (by omega) hi h1 (by omega)
      rw [hpar] at hi'
      exact le_trans hgrand hi'
  · rw [swap_right]
    by_cases h1 : i = h
    · rw [h1, swap_left hne]
      exact hle
    · rw [swap_of_ne h1 (by omega)]
      have hi' := hr.away i i2 hi h1 (by omega)
      rw [hpar] at hi'
      exact le_trans hle hi'

theorem Rising.done (hr : Rising p n h) (hstop : 2 ≤ h → p (h/2) ≤ p h) : Ordered p n := by
  intro i h2 hi
  by_cases h1 : i = h
  · rw [h1] at h2 ⊢
    exact hstop h2
  · by_cases h3 : i/2 = h
    · rw [h3]
      exact hr.children i h2 hi h3
    · exact hr.away i h2 hi h1 h3

theorem Sinking.step (hs : Sinking p n h) {c : Nat} (c2 : 2 ≤ c) (hc : c ≤ n) (hch : c/2 = h)
    (hle : p c ≤ p h) (hmin : ∀ i, 2 ≤ i → i ≤ n → i/2 = h → p c ≤ p i) :
    Sinking (swap p h c) n c := by
  have hne : h ≠ c := by omega
  refine ⟨⟨fun i i2 hi hic hpar => ?_, fun i _ hi hpar => ?_⟩, fun _ => ?_⟩
  · by_cases h1 : i = h
    · rw [h1] at i2 ⊢
      rw [swap_left hne, swap_of_ne (by omega) (by omega)]
      exact hs.across c i2 hc hch
    · rw [swap_of_ne h1 hic]
      by_cases h3 : i/2 = h
      · rw [h3, swap_left hne]
        exact hmin i i2 hi h3
      · rw [swap_of_ne h3 hpar]
        exact hs.away i i2 hi h1 h3
  · rw [hch, swap_left hne, swap_of_ne (by omega) (by omega)]
    have hi' := hs.away i (by omega) hi (by omega) (by omega)
    rwa [hpar] at hi'
  · rw [hch, swap_left hne, swap_right]
    exact hle

theorem Sinking.done (hs : Sinking p n h) (hstop : ∀ i, 2 ≤ i → i ≤ n → i/2 = h → p h ≤ p i) :
    Ordered p n := by
  intro i h2 hi
  by_cases h1 : i = h
  · rw [h1] at h2 ⊢
    exact hs.parent h2
  · by_cases h3 : i/2 = h
    · rw [h3]
      exact hstop i h2 hi h3
    · exact hs.away i h2 hi h1 h3

/-- The first element of a heap is a least one. -/
theorem Ordered.first_le (ho : Ordered p n) {i : Nat} (h1 : 1 ≤ i) (hi : i ≤ n) : p 1 ≤ p i := by
  induction i using Nat.strong_induction_on with
  | _ i ih =>
    by_cases he : i = 1
    · rw [he]
    · exact le_trans (ih (i/2) (by omega) (by omega) (by omega)) (ho i (by omega) hi)

end HeapOrder
