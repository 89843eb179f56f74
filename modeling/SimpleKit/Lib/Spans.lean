import SimpleKit.Lib.Linked

/-!
Chains whose links carry a length. `pos` numbers the elements of some longer list; a
span is a difference of positions, in wrapping arithmetic, so what is stored where
there is no next element never matters.
-/
set_option autoImplicit false

namespace Linked
variable {α : Type} {span span' pos pos' : α → UInt64}

/-- Along `a :: l` every span leads to the position of the next element. -/
def Spans (span pos : α → UInt64) : α → List α → Prop
  | _, [] => True
  | a, b :: l => span a = pos b - pos a ∧ Spans span pos b l

theorem spans_append (a : α) (l r : List α) :
    Spans span pos a (l ++ r) ↔ Spans span pos a l ∧ Spans span pos (last a l) r := by
  induction l generalizing a with
  | nil => simp [Spans]
  | cons b l ih => simp only [List.cons_append, Spans, last_cons, ih, and_assoc]

theorem spans_congr {a : α} {l : List α} (hs : ∀ y ∈ a :: l, span' y = span y)
    (hp : ∀ y ∈ a :: l, pos' y = pos y) (h : Spans span pos a l) : Spans span' pos' a l := by
  induction l generalizing a with
  | nil => trivial
  | cons b l ih =>
    refine ⟨?_, ih (fun y hy => hs y (List.mem_cons_of_mem a hy))
      (fun y hy => hp y (List.mem_cons_of_mem a hy)) h.2⟩
    rw [hs a (by simp), hp a (by simp), hp b (by simp)]
    exact h.1

/-- The span of the last element does not matter, nor does a common shift. -/
theorem spans_shift {a : α} {l : List α} (c : UInt64) (nd : (a :: l).Nodup)
    (hs : ∀ y ∈ a :: l, y ≠ last a l → span' y = span y)
    (hp : ∀ y ∈ a :: l, pos' y = pos y + c) (h : Spans span pos a l) :
    Spans span' pos' a l := by
  induction l generalizing a with
  | nil => trivial
  | cons b l ih =>
    have hlast : a ≠ last a (b :: l) := by
      rw [last_cons]
      intro he
      exact (List.nodup_cons.mp nd).1 (he ▸ last_mem b l)
    have hb := hp b (by simp)
    have ha := hp a (by simp)
    have hsp := hs a (by simp) hlast
    refine ⟨by grind [Spans], ih (List.nodup_cons.mp nd).2 ?_ ?_ h.2⟩
    · intro y hy hne
      exact hs y (List.mem_cons_of_mem a hy) (by rwa [last_cons])
    · intro y hy
      exact hp y (List.mem_cons_of_mem a hy)

section Change
variable {a x : α} {l r : List α} {c : UInt64}

theorem spans_over (nd : (a :: (l ++ r)).Nodup) (h : Spans span pos a (l ++ r))
    (hlo : ∀ y ∈ a :: l, pos' y = pos y) (hhi : ∀ y ∈ r, pos' y = pos y + c)
    (hlast : span' (last a l) = span (last a l) + c)
    (hother : ∀ y ∈ a :: (l ++ r), y ≠ last a l → span' y = span y) :
    Spans span' pos' a (l ++ r) := by
  obtain ⟨hl, hr⟩ := (spans_append a l r).mp h
  have ndl : (a :: l).Nodup := by
    rw [← List.cons_append] at nd
    exact (List.nodup_append.mp nd).1
  refine (spans_append a l r).mpr ⟨spans_shift 0 ndl ?_ ?_ hl, ?_⟩
  · intro y hy
    exact hother y (by rw [← List.cons_append]; exact List.mem_append_left r hy)
  · intro y hy
    rw [hlo y hy]
    grind
  · have hne : ∀ y ∈ r, y ≠ last a l := by
      rintro y hy rfl
      exact not_mem_of_nodup_append nd hy (last_mem _ _)
    cases r with
    | nil => trivial
    | cons b r =>
      have hb := hhi b (by simp)
      have ha := hlo (last a l) (last_mem a l)
      have ndr : (b :: r).Nodup := by
        rw [← List.cons_append] at nd
        exact (List.nodup_append.mp nd).2.1
      refine ⟨by grind [Spans], spans_shift c ndr ?_ hhi hr.2⟩
      intro y hy _
      exact hother y (by simp at hy ⊢; tauto) (hne y hy)

/-- A new element `x`, at position `q`, takes over the rest of the span it is linked into. -/
theorem spans_insert {q : UInt64} (nd : (a :: (l ++ r)).Nodup) (h : Spans span pos a (l ++ r))
    (hlo : ∀ y ∈ a :: l, pos' y = pos y) (hx : pos' x = q)
    (hhi : ∀ y ∈ r, pos' y = pos y + 1) (hlast : span' (last a l) = q - pos (last a l))
    (hnew : span' x = span (last a l) + pos (last a l) + 1 - q)
    (hother : ∀ y ∈ a :: (l ++ r), y ≠ last a l → span' y = span y) :
    Spans span' pos' a (l ++ x :: r) := by
  obtain ⟨hl, hr⟩ := (spans_append a l r).mp h
  have ndl : (a :: l).Nodup := by
    rw [← List.cons_append] at nd
    exact (List.nodup_append.mp nd).1
  have ha := hlo (last a l) (last_mem a l)
  refine (spans_append a l (x :: r)).mpr ⟨spans_shift 0 ndl ?_ ?_ hl, by rw [hlast, hx, ha], ?_⟩
  · intro y hy
    exact hother y (by rw [← List.cons_append]; exact List.mem_append_left r hy)
  · intro y hy
    rw [hlo y hy]
    grind
  · have hne : ∀ y ∈ r, y ≠ last a l := by
      rintro y hy rfl
      exact not_mem_of_nodup_append nd hy (last_mem _ _)
    cases r with
    | nil => trivial
    | cons b r =>
      have hb := hhi b (by simp)
      have ndr : (b :: r).Nodup := by
        rw [← List.cons_append] at nd
        exact (List.nodup_append.mp nd).2.1
      refine ⟨by grind [Spans], spans_shift 1 ndr ?_ hhi hr.2⟩
      intro y hy _
      exact hother y (by simp at hy ⊢; tauto) (hne y hy)

/-- The predecessor of an unlinked element takes over its span, less the step that is gone. -/
theorem spans_erase (nd : (a :: (l ++ x :: r)).Nodup) (h : Spans span pos a (l ++ x :: r))
    (hlo : ∀ y ∈ a :: l, pos' y = pos y) (hhi : ∀ y ∈ r, pos' y = pos y - 1)
    (hlast : span' (last a l) = span (last a l) + (span x - 1))
    (hother : ∀ y ∈ a :: (l ++ r), y ≠ last a l → span' y = span y) :
    Spans span' pos' a (l ++ r) := by
  obtain ⟨hl, hx, hr⟩ := (spans_append a l (x :: r)).mp h
  have ndl : (a :: l).Nodup := by
    rw [← List.cons_append] at nd
    exact (List.nodup_append.mp nd).1
  refine (spans_append a l r).mpr ⟨spans_shift 0 ndl ?_ ?_ hl, ?_⟩
  · intro y hy
    exact hother y (by rw [← List.cons_append]; exact List.mem_append_left r hy)
  · intro y hy
    rw [hlo y hy]
    grind
  · have hne : ∀ y ∈ r, y ≠ last a l := by
      rintro y hy rfl
      exact not_mem_of_nodup_append nd (List.mem_cons_of_mem x hy) (last_mem _ _)
    cases r with
    | nil => trivial
    | cons b r =>
      have hb := hhi b (by simp)
      have ha := hlo (last a l) (last_mem a l)
      have ndr : (b :: r).Nodup := by
        rw [← List.cons_append] at nd
        exact (List.nodup_cons.mp (List.nodup_append.mp nd).2.1).2
      refine ⟨by grind [Spans], spans_shift (-1) ndr ?_ ?_ hr.2⟩
      · intro y hy _
        exact hother y (by simp at hy ⊢; tauto) (hne y hy)
      · intro y hy
        rw [hhi y hy]
        grind

end Change

end Linked
