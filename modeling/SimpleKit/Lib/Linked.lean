import Mathlib.Data.List.Nodup
import Mathlib.Logic.Function.Basic

/-!
Doubly linked chains in a heap whose link fields are maps from addresses to
addresses. A chain hangs off a sentinel that is itself an address. Updates are
described pointwise, so a store of any shape can use these rules.
-/
set_option autoImplicit false

namespace Linked
variable {α : Type} {next next' prev prev' : α → Option α}

/-- Following `next` from `a` visits `l` in order. What comes after is left open. -/
def Path (next : α → Option α) : α → List α → Prop
  | _, [] => True
  | a, b :: l => next a = some b ∧ Path next b l

/-- Following `next` from `a` visits `l` in order and then ends. -/
def Chain (next : α → Option α) : α → List α → Prop
  | a, [] => next a = none
  | a, b :: l => next a = some b ∧ Chain next b l

def Back (prev : α → Option α) : α → List α → Prop
  | _, [] => True
  | a, b :: l => prev b = some a ∧ Back prev b l

def last : α → List α → α
  | a, [] => a
  | _, b :: l => last b l

@[simp] theorem last_nil (a : α) : last a [] = a := rfl

@[simp] theorem last_cons (a b : α) (l : List α) : last a (b :: l) = last b l := rfl

theorem last_mem (a : α) (l : List α) : last a l ∈ a :: l := by
  induction l generalizing a with
  | nil => simp
  | cons b l ih => exact List.mem_cons_of_mem a (ih b)

theorem last_mem_of_subset (a : α) {l r : List α} (h : l ⊆ r) : last a l ∈ a :: r :=
  List.cons_subset_cons a h (last_mem a l)

theorem last_append (a : α) (l r : List α) : last a (l ++ r) = last (last a l) r := by
  induction l generalizing a with
  | nil => rfl
  | cons b l ih => exact ih b

theorem getLast?_eq_last [DecidableEq α] {a : α} {l : List α} (ha : a ∉ l) :
    (if a = last a l then none else some (last a l)) = l.getLast? := by
  rcases List.eq_nil_or_concat' l with rfl | ⟨l, b, rfl⟩
  · simp
  · have hb : a ≠ b := fun he => ha (by simp [he])
    rw [last_append, last_cons, last_nil, if_neg hb]
    simp

theorem chain_append (a : α) (l r : List α) :
    Chain next a (l ++ r) ↔ Path next a l ∧ Chain next (last a l) r := by
  induction l generalizing a with
  | nil => simp [Path]
  | cons b l ih => simp only [List.cons_append, Chain, Path, last_cons, ih, and_assoc]

theorem back_append (a : α) (l r : List α) :
    Back prev a (l ++ r) ↔ Back prev a l ∧ Back prev (last a l) r := by
  induction l generalizing a with
  | nil => simp [Back]
  | cons b l ih => simp only [List.cons_append, Back, last_cons, ih, and_assoc]

theorem chain_next {a : α} {l : List α} (h : Chain next a l) : next a = l.head? := by
  cases l with
  | nil => exact h
  | cons b l => exact h.1

theorem chain_next_mid {a x : α} {l r : List α} (h : Chain next a (l ++ x :: r)) :
    next (last a l) = some x ∧ next x = r.head? := by
  obtain ⟨-, hx, hr⟩ := (chain_append a l (x :: r)).mp h
  exact ⟨hx, chain_next hr⟩

theorem back_mid {a x : α} {l r : List α} (h : Back prev a (l ++ x :: r)) :
    prev x = some (last a l) :=
  ((back_append a l (x :: r)).mp h).2.1

theorem chain_mem {a x y : α} {l : List α} (h : Chain next a l) (hx : x ∈ a :: l)
    (hn : next x = some y) : y ∈ l := by
  rcases List.mem_cons.mp hx with rfl | hx
  · rw [chain_next h] at hn
    exact List.mem_of_mem_head? hn
  · obtain ⟨lo, hi, rfl⟩ := List.append_of_mem hx
    rw [(chain_next_mid h).2] at hn
    exact List.mem_append_right lo (List.mem_cons_of_mem x (List.mem_of_mem_head? hn))

theorem back_mem {a x y : α} {l : List α} (h : Back prev a l) (hx : x ∈ l)
    (hp : prev x = some y) : y ∈ a :: l := by
  obtain ⟨lo, hi, rfl⟩ := List.append_of_mem hx
  rw [back_mid h, Option.some.injEq] at hp
  exact hp ▸ last_mem_of_subset a (List.subset_append_left lo (x :: hi))

/-- Only the links leaving `a` and the elements before the last one matter to a path. -/
theorem path_congr {a : α} {l : List α} (nd : (a :: l).Nodup)
    (hn : ∀ y ∈ a :: l, y ≠ last a l → next' y = next y) (h : Path next a l) :
    Path next' a l := by
  induction l generalizing a with
  | nil => trivial
  | cons b l ih =>
    have hlast : a ≠ last a (b :: l) := by
      rw [last_cons]
      intro he
      exact (List.nodup_cons.mp nd).1 (he ▸ (last_mem _ _))
    refine ⟨(hn a (by simp) hlast).trans h.1, ih (List.nodup_cons.mp nd).2 ?_ h.2⟩
    intro y hy hne
    exact hn y (List.mem_cons_of_mem a hy) (by rwa [last_cons])

theorem chain_congr {a : α} {l : List α} (hn : ∀ y ∈ a :: l, next' y = next y)
    (h : Chain next a l) : Chain next' a l := by
  induction l generalizing a with
  | nil => exact (hn a (by simp)).trans h
  | cons b l ih =>
    exact ⟨(hn a (by simp)).trans h.1, ih (fun y hy => hn y (List.mem_cons_of_mem a hy)) h.2⟩

theorem back_congr {a : α} {l : List α} (hp : ∀ y ∈ l, prev' y = prev y)
    (h : Back prev a l) : Back prev' a l := by
  induction l generalizing a with
  | nil => trivial
  | cons b l ih =>
    exact ⟨(hp b (by simp)).trans h.1, ih (fun y hy => hp y (List.mem_cons_of_mem b hy)) h.2⟩

theorem not_mem_of_nodup_append {a : α} {l r : List α} (nd : (a :: (l ++ r)).Nodup) {y : α}
    (hy : y ∈ r) : y ∉ a :: l := by
  rw [← List.cons_append] at nd
  exact fun h => (List.nodup_append.mp nd).2.2 y h y hy rfl

/-- Linking `x` in after the last element of `l`. -/
theorem chain_insert {a x : α} {l r : List α} (nd : (a :: (l ++ r)).Nodup)
    (hx : x ∉ a :: (l ++ r)) (h : Chain next a (l ++ r))
    (hlast : next' (last a l) = some x) (hnew : next' x = next (last a l))
    (hother : ∀ y ∈ a :: (l ++ r), y ≠ last a l → next' y = next y) :
    Chain next' a (l ++ x :: r) := by
  obtain ⟨hl, hr⟩ := (chain_append a l r).mp h
  have ndl : (a :: l).Nodup := by
    rw [← List.cons_append] at nd
    exact (List.nodup_append.mp nd).1
  refine (chain_append a l (x :: r)).mpr ⟨path_congr ndl ?_ hl, hlast, ?_⟩
  · intro y hy
    exact hother y (by rw [← List.cons_append]; exact List.mem_append_left r hy)
  · have hne : ∀ y ∈ r, y ≠ last a l := by
      rintro y hy rfl
      exact not_mem_of_nodup_append nd hy (last_mem _ _)
    cases r with
    | nil => exact hnew.trans hr
    | cons b r =>
      refine ⟨hnew.trans hr.1, chain_congr ?_ hr.2⟩
      intro y hy
      exact hother y (by simp at hy ⊢; tauto) (hne y hy)

theorem back_insert {a x : α} {l r : List α} (nd : (a :: (l ++ r)).Nodup)
    (h : Back prev a (l ++ r))
    (hnew : prev' x = some (last a l)) (hsucc : ∀ y, r.head? = some y → prev' y = some x)
    (hother : ∀ y ∈ l ++ r, r.head? ≠ some y → prev' y = prev y) :
    Back prev' a (l ++ x :: r) := by
  obtain ⟨hl, hr⟩ := (back_append a l r).mp h
  refine (back_append a l (x :: r)).mpr ⟨back_congr ?_ hl, hnew, ?_⟩
  · intro y hy
    refine hother y (List.mem_append_left r hy) (fun he => ?_)
    have hyr : y ∈ r := List.mem_of_mem_head? (by simp [he])
    exact not_mem_of_nodup_append nd hyr (List.mem_cons_of_mem a hy)
  · cases r with
    | nil => trivial
    | cons b r =>
      refine ⟨hsucc b rfl, back_congr ?_ hr.2⟩
      intro y hy
      refine hother y (by simp [hy]) (fun he => ?_)
      have hyb : b = y := by simpa using he
      subst hyb
      rw [← List.cons_append] at nd
      exact (List.nodup_cons.mp (List.nodup_append.mp nd).2.1).1 hy

/-- Unlinking `x`, whose predecessor takes over its successor. -/
theorem chain_erase {a x : α} {l r : List α} (nd : (a :: (l ++ x :: r)).Nodup)
    (h : Chain next a (l ++ x :: r)) (hlast : next' (last a l) = next x)
    (hother : ∀ y ∈ a :: (l ++ r), y ≠ last a l → next' y = next y) :
    Chain next' a (l ++ r) := by
  obtain ⟨hl, -, hr⟩ := (chain_append a l (x :: r)).mp h
  have ndl : (a :: l).Nodup := by
    rw [← List.cons_append] at nd
    exact (List.nodup_append.mp nd).1
  refine (chain_append a l r).mpr ⟨path_congr ndl ?_ hl, ?_⟩
  · intro y hy
    exact hother y (by rw [← List.cons_append]; exact List.mem_append_left r hy)
  · have hne : ∀ y ∈ r, y ≠ last a l := by
      rintro y hy rfl
      exact not_mem_of_nodup_append nd (List.mem_cons_of_mem x hy) (last_mem _ _)
    cases r with
    | nil => exact hlast.trans hr
    | cons b r =>
      refine ⟨hlast.trans hr.1, chain_congr ?_ hr.2⟩
      intro y hy
      exact hother y (by simp at hy ⊢; tauto) (hne y hy)

theorem back_erase {a x : α} {l r : List α} (nd : (a :: (l ++ x :: r)).Nodup)
    (h : Back prev a (l ++ x :: r)) (hsucc : ∀ y, r.head? = some y → prev' y = prev x)
    (hother : ∀ y ∈ l ++ r, r.head? ≠ some y → prev' y = prev y) :
    Back prev' a (l ++ r) := by
  obtain ⟨hl, hx, hr⟩ := (back_append a l (x :: r)).mp h
  refine (back_append a l r).mpr ⟨back_congr ?_ hl, ?_⟩
  · intro y hy
    refine hother y (List.mem_append_left r hy) (fun he => ?_)
    have hyr : y ∈ r := List.mem_of_mem_head? (by simp [he])
    exact not_mem_of_nodup_append nd (List.mem_cons_of_mem x hyr) (List.mem_cons_of_mem a hy)
  · cases r with
    | nil => trivial
    | cons b r =>
      refine ⟨(hsucc b rfl).trans hx, back_congr ?_ hr.2⟩
      intro y hy
      refine hother y (by simp [hy]) (fun he => ?_)
      have hyb : b = y := by simpa using he
      subst hyb
      rw [← List.cons_append] at nd
      have nd' := (List.nodup_append.mp nd).2.1
      exact (List.nodup_cons.mp (List.nodup_cons.mp nd').2).1 hy

end Linked
