import Mathlib.Order.RelClasses
import SimpleKit.Lib.Cursor

/-!
A cursor that sweeps an ordered set while the set changes. It stands on the element that is
visited next and steps to the one after it when that is visited or removed; additions do not
move it. What has been visited is then in order, and complete as far as the cursor came.
-/
set_option autoImplicit false

namespace Sweep
open Cursor (Event)
variable {K : Type} (r : K → K → Prop)

def First (S : Set K) : Option K → Prop
  | none => S = ∅
  | some y => y ∈ S ∧ ∀ x ∈ S, y = x ∨ r y x

def Next (S : Set K) (k : K) (c : Option K) : Prop := First r {x | x ∈ S ∧ r k x} c

inductive Step (S : Set K) : Option K → Event K → Set K → Option K → Prop
  | add {S' : Set K} {c : Option K} {k : K} : S' = insert k S → Step S c (.add k) S' c
  | drop {S' : Set K} {c : Option K} {k : K} : S' = S \ {k} → c ≠ some k →
      Step S c (.drop k) S' c
  | dropNext {S' : Set K} {c : Option K} {k : K} : S' = S \ {k} → Next r S k c →
      Step S (some k) (.drop k) S' c
  | visit {S' : Set K} {c : Option K} {k : K} : S' = S → Next r S k c →
      Step S (some k) (.visit k) S' c
  | quiet {S' : Set K} {c : Option K} : S' = S → Step S c .quiet S' c

def visited : Event K → Option K
  | .visit k => some k
  | _ => none

/-- `l` was visited in order, the cursor is past it, and of the elements `kept` that have been
in the set all along it has visited those that it is past. -/
structure Swept (S : Set K) (c : Option K) (l : List K) (kept : Set K) : Prop where
  stands : ∀ x ∈ c, x ∈ S
  sorted : l.Pairwise r
  ahead : ∀ v ∈ l, ∀ x ∈ c, r v x
  reached : ∀ k ∈ kept, k ∈ S ∧ (k ∈ l ∨ ∃ x ∈ c, x = k ∨ r x k)

variable {r} {S S' kept kept' : Set K} {c c' : Option K} {l : List K} {e : Event K} {k : K}

theorem First.swept (h : First r S c) : Swept r S c [] S := by
  cases c with
  | none =>
    have hS : S = ∅ := h
    exact ⟨nofun, List.Pairwise.nil, nofun, fun k hk => absurd hk (hS ▸ Set.notMem_empty k)⟩
  | some y =>
    refine ⟨fun x hx => ?_, List.Pairwise.nil, nofun, fun k hk => ⟨hk, Or.inr ⟨y, rfl, h.2 k hk⟩⟩⟩
    rw [← Option.mem_some_iff.mp hx]
    exact h.1

theorem Next.mem (h : Next r S k c) : ∀ x ∈ c, x ∈ S ∧ r k x := by
  intro x hx
  cases c with
  | none => exact absurd hx (by simp)
  | some y =>
    rw [← Option.mem_some_iff.mp hx]
    exact h.1

theorem Next.le (h : Next r S k c) {x : K} (hx : x ∈ S) (hk : r k x) :
    ∃ y ∈ c, y = x ∨ r y x := by
  cases c with
  | none =>
    have hempty : {x | x ∈ S ∧ r k x} = ∅ := h
    exact absurd (show x ∈ {x | x ∈ S ∧ r k x} from ⟨hx, hk⟩) (hempty ▸ Set.notMem_empty x)
  | some y => exact ⟨y, rfl, h.2 x ⟨hx, hk⟩⟩

theorem Step.cursor_of_visited (h : Step r S c e S' c') (hk : visited e = some k) : k ∈ c := by
  cases h with
  | visit _ _ => exact hk
  | add _ => exact absurd hk (by simp [visited])
  | drop _ _ => exact absurd hk (by simp [visited])
  | dropNext _ _ => exact absurd hk (by simp [visited])
  | quiet _ => exact absurd hk (by simp [visited])

theorem Swept.past (h : Swept r S (some k) l kept) (hn : Next r S k c) {x : K} (hx : x ∈ kept) :
    x = k ∨ x ∈ l ∨ ∃ y ∈ c, y = x ∨ r y x := by
  obtain ⟨hxS, hxl | ⟨y, hy, hyx⟩⟩ := h.reached x hx
  · exact Or.inr (Or.inl hxl)
  · obtain rfl := Option.mem_some_iff.mp hy
    rcases hyx with rfl | hkx
    · exact Or.inl rfl
    · exact Or.inr (Or.inr (hn.le hxS hkx))

variable [IsStrictOrder K r]

theorem Swept.ahead_next (h : Swept r S (some k) l kept) (hn : Next r S k c) :
    ∀ v ∈ l, ∀ x ∈ c, r v x :=
  fun v hv x hx => trans_of r (h.ahead v hv k rfl) (hn.mem x hx).2

theorem Next.mem_diff (hn : Next r S k c) : ∀ x ∈ c, x ∈ S \ {k} := by
  intro x hx
  obtain ⟨hxS, hkx⟩ := hn.mem x hx
  refine ⟨hxS, fun hxk => irrefl_of r k ?_⟩
  rwa [Set.mem_singleton_iff.mp hxk] at hkx

theorem Swept.step (h : Swept r S c l kept) (hs : Step r S c e S' c') (hkept : kept' ⊆ kept)
    (hin : kept' ⊆ S') : Swept r S' c' (l ++ (visited e).toList) kept' := by
  cases hs with
  | @add _ _ k hS =>
    subst hS
    show Swept r _ _ (l ++ []) _
    rw [List.append_nil]
    exact ⟨fun x hx => Set.mem_insert_of_mem k (h.stands x hx), h.sorted, h.ahead,
      fun x hx => ⟨hin hx, (h.reached x (hkept hx)).2⟩⟩
  | @drop _ _ k hS hne =>
    subst hS
    show Swept r _ _ (l ++ []) _
    rw [List.append_nil]
    refine ⟨fun x hx => ⟨h.stands x hx, fun hxk => hne ?_⟩, h.sorted, h.ahead,
      fun x hx => ⟨hin hx, (h.reached x (hkept hx)).2⟩⟩
    rwa [Set.mem_singleton_iff.mp hxk] at hx
  | @dropNext _ _ k hS hn =>
    subst hS
    show Swept r _ _ (l ++ []) _
    rw [List.append_nil]
    refine ⟨hn.mem_diff, h.sorted, h.ahead_next hn, fun x hx => ⟨hin hx, ?_⟩⟩
    exact (h.past hn (hkept hx)).resolve_left (hin hx).2
  | @visit _ _ k hS hn =>
    subst hS
    show Swept r _ _ (l ++ [k]) _
    refine ⟨fun x hx => (hn.mem x hx).1, ?_, fun v hv x hx => ?_, fun x hx => ⟨hin hx, ?_⟩⟩
    · refine List.pairwise_append.mpr ⟨h.sorted, List.pairwise_singleton _ _, fun v hv x hx => ?_⟩
      rw [List.mem_singleton.mp hx]
      exact h.ahead v hv k rfl
    · rcases List.mem_append.mp hv with hv | hv
      · exact h.ahead_next hn v hv x hx
      · rw [List.mem_singleton.mp hv]
        exact (hn.mem x hx).2
    · rcases h.past hn (hkept hx) with rfl | hxl | hxc
      · exact Or.inl (by simp)
      · exact Or.inl (List.mem_append_left _ hxl)
      · exact Or.inr hxc
  | quiet hS =>
    subst hS
    show Swept r _ _ (l ++ []) _
    rw [List.append_nil]
    exact ⟨h.stands, h.sorted, h.ahead, fun x hx => ⟨hin hx, (h.reached x (hkept hx)).2⟩⟩

/-- A sweep that has come to its end has visited once whatever stayed. -/
theorem Swept.once [DecidableEq K] (h : Swept r S none l kept) (hk : k ∈ kept) :
    l.count k = 1 := by
  obtain ⟨-, hkl | ⟨y, hy, -⟩⟩ := h.reached k hk
  · have hnodup : l.Nodup := by
      refine h.sorted.imp ?_
      rintro a _ hab rfl
      exact irrefl_of r a hab
    exact List.count_eq_one_of_mem hnodup hkl
  · exact absurd hy (by simp)

end Sweep
