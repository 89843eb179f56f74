import Mathlib.Data.List.Nodup
import Mathlib.Data.Set.Insert
import SimpleKit.Lib.Run

/-!
A cursor over a set that changes while it is walked. What a walk owes its caller is
said about the history of additions, removals and visits alone; a list of the keys
still to visit, kept in step with that history, delivers it.
-/
set_option autoImplicit false

namespace Cursor
open Runs
variable {K : Type}

inductive Event (K : Type) where
  | add : K → Event K
  | drop : K → Event K
  | visit : K → Event K
  | quiet : Event K
  deriving DecidableEq, Repr

def Event.apply (present : Set K) : Event K → Set K
  | .add k => insert k present
  | .drop k => present \ {k}
  | .visit _ => present
  | .quiet => present

def after (present : Set K) (h : List (Event K)) : Set K := h.foldl Event.apply present

theorem mem_after_of_no_add {h : List (Event K)} {k : K} (hno : ∀ k, Event.add k ∉ h)
    {present : Set K}
    (hk : k ∈ after present h) : k ∈ present ∧ .drop k ∉ h := by
  induction h generalizing present with
  | nil => exact ⟨hk, by simp⟩
  | cons e h ih =>
    obtain ⟨hp, hd⟩ := ih (fun k' hk' => hno k' (List.mem_cons_of_mem e hk')) hk
    cases e with
    | add k' => exact absurd List.mem_cons_self (hno k')
    | drop k' => exact ⟨hp.1, by simpa [hd] using hp.2⟩
    | visit k' => exact ⟨hp, by simpa using hd⟩
    | quiet => exact ⟨hp, by simpa using hd⟩

/-- A history, from the opening of the cursor to its end, in which every key that stays is
visited exactly once, no key twice while it stays, and none that is absent. -/
structure Complete [DecidableEq K] (present : Set K) (h : List (Event K)) : Prop where
  once : ∀ k ∈ present, .drop k ∉ h → h.count (.visit k) = 1
  apart : ∀ k h1 h2 h3, h = h1 ++ .visit k :: (h2 ++ .visit k :: h3) → .drop k ∈ h2
  stored : ∀ k h1 h2, h = h1 ++ .visit k :: h2 → k ∈ after present h1
  emptied : (∀ k, .add k ∉ h) → (∀ k, .visit k ∈ h → .drop k ∈ h) → after present h = ∅

structure Walk (K : Type) where
  present : Set K
  todo : List K
  nodup : todo.Nodup
  subset : ∀ k ∈ todo, k ∈ present

variable [DecidableEq K]

/-- An addition may or may not be visited; it disturbs nothing else. -/
inductive Step : Walk K → Event K → Walk K → Prop
  | add {c c' : Walk K} {k : K} : k ∉ c.present → c'.present = insert k c.present →
      c'.todo.filter (· ≠ k) = c.todo → Step c (.add k) c'
  | drop {c c' : Walk K} {k : K} : c'.present = c.present \ {k} →
      c'.todo = c.todo.filter (· ≠ k) → Step c (.drop k) c'
  | visit {c c' : Walk K} {k : K} : c'.present = c.present → c.todo = k :: c'.todo →
      Step c (.visit k) c'
  | quiet {c c' : Walk K} : c'.present = c.present → c'.todo = c.todo → Step c .quiet c'

variable {c c' : Walk K} {h : List (Event K)} {e : Event K} {k : K}

theorem Step.present_eq (hs : Step c e c') : c'.present = e.apply c.present := by
  cases hs with
  | add _ hp _ => exact hp
  | drop hp _ => exact hp
  | visit hp _ => exact hp
  | quiet hp _ => exact hp

theorem after_eq (ht : Trace Step c h c') : c'.present = after c.present h := by
  induction ht with
  | nil => rfl
  | cons hs _ ih => rw [ih, hs.present_eq]; rfl

theorem Step.stays (hs : Step c e c') (hk : k ∈ c.present) (he : e ≠ .drop k) :
    k ∈ c'.present := by
  rw [hs.present_eq]
  cases e with
  | add k' => exact Set.mem_insert_of_mem _ hk
  | drop k' => exact ⟨hk, fun hkk => he (by rw [Set.mem_singleton_iff.mp hkk])⟩
  | visit k' => exact hk
  | quiet => exact hk

theorem Step.count (hs : Step c e c') (hk : k ∈ c.present) (he : e ≠ .drop k) :
    [e].count (.visit k) + c'.todo.count k = c.todo.count k := by
  cases hs with
  | @add _ k' hno _ ht =>
    have hkk : k ≠ k' := fun h => hno (h ▸ hk)
    rw [← ht, List.count_filter (by simpa using hkk)]
    simp
  | @drop _ k' _ ht =>
    have hkk : k ≠ k' := fun h => he (by rw [h])
    rw [ht, List.count_filter (by simpa using hkk)]
    simp
  | @visit _ k' _ ht =>
    rw [ht, List.count_cons]
    by_cases hkk : k' = k
    · simp [hkk, Nat.add_comm]
    · simp [hkk]
  | quiet _ ht => simp [ht]

theorem trace_count (ht : Trace Step c h c') (hk : k ∈ c.present) (hd : .drop k ∉ h) :
    h.count (.visit k) + c'.todo.count k = c.todo.count k := by
  induction ht with
  | nil => simp
  | @cons c c1 c' e es hs _ ih =>
    obtain ⟨hne, hd⟩ : e ≠ .drop k ∧ .drop k ∉ es := by
      simp only [List.mem_cons, not_or] at hd
      exact ⟨Ne.symm hd.1, hd.2⟩
    have h1 := hs.count hk hne
    have h2 := ih (hs.stays hk hne) hd
    rw [List.count_cons, ← h1, ← h2, List.count_singleton]
    omega

theorem trace_visit (ht : Trace Step c (.visit k :: h) c') :
    ∃ c1, Trace Step c1 h c' ∧ c.todo = k :: c1.todo ∧ k ∈ c1.present := by
  obtain ⟨c1, hs, ht⟩ := ht.of_cons
  cases hs with
  | visit hp htodo => exact ⟨c1, ht, htodo, hp ▸ c.subset k (htodo ▸ List.mem_cons_self)⟩

/-- A walk that starts with everything to visit and ends with nothing left is complete. -/
theorem complete_of_trace (ht : Trace Step c h c') (hall : ∀ k ∈ c.present, k ∈ c.todo)
    (hend : c'.todo = []) : Complete c.present h := by
  have honce : ∀ k ∈ c.present, .drop k ∉ h → h.count (.visit k) = 1 := by
    intro k hk hd
    have hcount := trace_count ht hk hd
    rw [hend, List.count_nil, List.count_eq_one_of_mem c.nodup (hall k hk)] at hcount
    exact hcount
  refine ⟨honce, ?_, ?_, ?_⟩
  · rintro k h1 h2 h3 rfl
    by_contra hd
    obtain ⟨c1, -, ht⟩ := ht.of_append
    obtain ⟨c2, ht, htodo, hk⟩ := trace_visit ht
    obtain ⟨c3, ht, hlast⟩ := ht.of_append
    obtain ⟨c4, -, htodo', -⟩ := trace_visit hlast
    have hnd : k ∉ c2.todo := by
      have := c1.nodup
      rw [htodo] at this
      exact (List.nodup_cons.mp this).1
    have hcount := trace_count ht hk hd
    rw [List.count_eq_zero_of_not_mem hnd, htodo'] at hcount
    simp at hcount
  · rintro k h1 h2 rfl
    obtain ⟨c1, hl, hr⟩ := ht.of_append
    obtain ⟨c2, -, htodo, -⟩ := trace_visit hr
    rw [← after_eq hl]
    exact c1.subset k (htodo ▸ List.mem_cons_self)
  · intro hno hdrop
    refine Set.eq_empty_iff_forall_notMem.mpr fun k hk => ?_
    obtain ⟨hp, hd⟩ := mem_after_of_no_add hno hk
    have hvisit : .visit k ∈ h := by
      refine List.count_pos_iff.mp ?_
      rw [honce k hp hd]
      exact Nat.one_pos
    exact hd (hdrop k hvisit)

end Cursor
