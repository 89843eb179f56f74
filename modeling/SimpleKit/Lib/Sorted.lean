import Mathlib.Data.List.Nodup
import Mathlib.Order.Lattice

set_option autoImplicit false

namespace SortedBy
variable {α K : Type} [LinearOrder K]

def Sorted (key : α → K) (l : List α) : Prop := l.Pairwise fun x y => key x < key y

def below (key : α → K) (k : K) (l : List α) : List α := l.filter fun x => key x < k

def above (key : α → K) (k : K) (l : List α) : List α := l.filter fun x => k ≤ key x

variable {key key' : α → K} {k : K} {l : List α}

@[simp] theorem mem_below {x : α} : x ∈ below key k l ↔ x ∈ l ∧ key x < k := by
  simp [below]

@[simp] theorem mem_above {x : α} : x ∈ above key k l ↔ x ∈ l ∧ k ≤ key x := by
  simp [above]

theorem Sorted.filter (h : Sorted key l) (p : α → Bool) : Sorted key (l.filter p) :=
  List.Pairwise.filter p h

theorem Sorted.nodup (h : Sorted key l) : l.Nodup :=
  List.Pairwise.imp (fun hxy he => absurd (he ▸ hxy) (lt_irrefl _)) h

theorem Sorted.congr (h : Sorted key l) (he : ∀ x ∈ l, key' x = key x) : Sorted key' l := by
  refine List.Pairwise.imp_of_mem ?_ h
  intro x y hx hy hxy
  rwa [he x hx, he y hy]

theorem Sorted.key_inj (h : Sorted key l) {x y : α} (hx : x ∈ l) (hy : y ∈ l)
    (he : key x = key y) : x = y := by
  induction l with
  | nil => simp at hx
  | cons a l ih =>
    obtain ⟨ha, hl⟩ := List.pairwise_cons.mp h
    rcases List.mem_cons.mp hx with hxa | hx <;> rcases List.mem_cons.mp hy with hya | hy
    · exact hxa.trans hya.symm
    · exact absurd he (hxa ▸ ne_of_lt (ha y hy))
    · exact absurd he.symm (hya ▸ ne_of_lt (ha x hx))
    · exact ih hl hx hy

theorem Sorted.nodup_keys (h : Sorted key l) : (l.map key).Nodup :=
  List.pairwise_map.mpr (List.Pairwise.imp (fun hxy => ne_of_lt hxy) h)

theorem below_append_above (h : Sorted key l) (k : K) :
    below key k l ++ above key k l = l := by
  induction l with
  | nil => rfl
  | cons a l ih =>
    obtain ⟨ha, hl⟩ := List.pairwise_cons.mp h
    by_cases hk : key a < k
    · have hb : below key k (a :: l) = a :: below key k l := by simp [below, hk]
      have hab : above key k (a :: l) = above key k l := by simp [above, hk]
      rw [hb, hab, List.cons_append, ih hl]
    · have hb : below key k (a :: l) = [] := by
        refine List.filter_eq_nil_iff.mpr fun x hx => ?_
        rcases List.mem_cons.mp hx with rfl | hx
        · simpa using hk
        · simpa using le_trans (not_lt.mp hk) (le_of_lt (ha x hx))
      have hab : above key k (a :: l) = a :: l := by
        refine List.filter_eq_self.mpr fun x hx => ?_
        rcases List.mem_cons.mp hx with rfl | hx
        · simpa using not_lt.mp hk
        · simpa using le_trans (not_lt.mp hk) (le_of_lt (ha x hx))
      rw [hb, hab, List.nil_append]

theorem cut_at {lo hi : List α} {x : α} (h : Sorted key (lo ++ x :: hi)) :
    below key (key x) (lo ++ x :: hi) = lo ∧ above key (key x) (lo ++ x :: hi) = x :: hi := by
  obtain ⟨-, hx, hlo⟩ := List.pairwise_append.mp h
  have hhi := (List.pairwise_cons.mp hx).1
  have h1 : ∀ y ∈ lo, key y < key x := fun y hy => hlo y hy x (by simp)
  constructor
  · rw [below, List.filter_append, List.filter_eq_self.mpr fun y hy => by simpa using h1 y hy,
      List.filter_eq_nil_iff.mpr, List.append_nil]
    intro y hy
    rcases List.mem_cons.mp hy with rfl | hy
    · simp
    · simpa using le_of_lt (hhi y hy)
  · rw [above, List.filter_append, List.filter_eq_nil_iff.mpr fun y hy => by simpa using h1 y hy,
      List.nil_append, List.filter_eq_self]
    intro y hy
    rcases List.mem_cons.mp hy with rfl | hy
    · simp
    · simpa using le_of_lt (hhi y hy)

theorem below_congr (he : ∀ x ∈ l, key' x = key x) : below key' k l = below key k l :=
  List.filter_congr fun x hx => by rw [he x hx]

theorem above_congr (he : ∀ x ∈ l, key' x = key x) : above key' k l = above key k l :=
  List.filter_congr fun x hx => by rw [he x hx]

theorem length_below_insert {lo hi : List α} {x : α} :
    (below key k (lo ++ x :: hi)).length =
      (below key k (lo ++ hi)).length + if key x < k then 1 else 0 := by
  simp only [below, List.filter_append, List.filter_cons, List.length_append]
  by_cases hk : key x < k
  · simp only [hk, decide_true, if_true, List.length_cons]
    omega
  · simp [hk]

theorem mem_insert_iff {x y : α} :
    y ∈ below key k l ++ x :: above key k l ↔ y ∈ l ∨ y = x := by
  have h : y ∈ l → key y < k ∨ k ≤ key y := fun _ => lt_or_ge _ _
  simp only [List.mem_append, List.mem_cons, mem_below, mem_above]
  tauto

/-- A search that stops at the first element not below `k` finds `k` exactly if it is there. -/
theorem head_above_iff (h : Sorted key l) {x : α} (hk : key x = k) :
    (above key k l).head? = some x ↔ x ∈ l := by
  constructor
  · intro hx
    exact (mem_above.mp (List.mem_of_mem_head? (Option.mem_def.mpr hx))).1
  · intro hx
    have hmem : x ∈ above key k l := mem_above.mpr ⟨hx, le_of_eq hk.symm⟩
    have hsort : Sorted key (above key k l) := h.filter _
    cases ha : above key k l with
    | nil => simp [ha] at hmem
    | cons a r =>
      rw [ha] at hmem hsort
      rcases List.mem_cons.mp hmem with rfl | hr
      · rfl
      · have hlt := (List.pairwise_cons.mp hsort).1 x hr
        have hle : k ≤ key a := (mem_above.mp (ha ▸ List.mem_cons_self)).2
        exact absurd (lt_of_le_of_lt hle hlt) (by simp [hk])

theorem find_eq_head_above (h : Sorted key l) (k : K) :
    l.find? (fun x => key x = k) = (above key k l).head?.filter fun x => key x = k := by
  induction l with
  | nil => rfl
  | cons a l ih =>
    obtain ⟨ha, hl⟩ := List.pairwise_cons.mp h
    rcases lt_trichotomy (key a) k with hk | hk | hk
    · have hab : above key k (a :: l) = above key k l := by simp [above, hk]
      rw [hab, ← ih hl, List.find?_cons_of_neg]
      simp [ne_of_lt hk]
    · simp [above, hk, Option.filter]
    · have hnone : (a :: l).find? (fun x => key x = k) = none := by
        refine List.find?_eq_none.mpr fun x hx => ?_
        rcases List.mem_cons.mp hx with rfl | hx
        · simpa using ne_of_gt hk
        · simpa using ne_of_gt (lt_trans hk (ha x hx))
      rw [hnone]
      simp [above, le_of_lt hk, ne_of_gt hk, Option.filter]

theorem sorted_insert (h : Sorted key l) {x : α} (hk : key x = k) (hx : ∀ y ∈ l, key y ≠ k) :
    Sorted key (below key k l ++ x :: above key k l) := by
  refine List.pairwise_append.mpr ⟨h.filter _, List.pairwise_cons.mpr ⟨?_, h.filter _⟩, ?_⟩
  · intro y hy
    obtain ⟨hyl, hle⟩ := mem_above.mp hy
    exact hk ▸ lt_of_le_of_ne hle (Ne.symm (hx y hyl))
  · intro y hy z hz
    have hyk := (mem_below.mp hy).2
    rcases List.mem_cons.mp hz with rfl | hz
    · exact hk ▸ hyk
    · exact lt_of_lt_of_le hyk (mem_above.mp hz).2

theorem sorted_append_erase {l r : List α} {x : α} (h : Sorted key (l ++ x :: r)) :
    Sorted key (l ++ r) := by
  refine List.Pairwise.sublist ?_ h
  exact List.Sublist.append_left (List.sublist_cons_self x r) l

end SortedBy
