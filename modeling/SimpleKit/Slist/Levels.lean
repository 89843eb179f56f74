import SimpleKit.Lib.Spans
import SimpleKit.Lib.Sorted
import SimpleKit.Slist.Model

/-!
The level lists of a skip list, and what the searches along them find. Every level is a
selection of the one sorted list of all nodes, so the predecessor of a key at any level
is the last node below the key in that selection.
-/
set_option autoImplicit false

namespace SimpleKit
open Linked SortedBy

variable {V : Type} {s : Slist V} {L : List SlistPtr}

def Slist.level (s : Slist V) (L : List SlistPtr) (l : Nat) : List SlistPtr :=
  L.filter fun x => l < s.height x

def Slist.pred (s : Slist V) (L : List SlistPtr) (key : Key) (l : Nat) : SlistPtr :=
  last s.head (below s.key key (s.level L l))

def Slist.pos (s : Slist V) (L : List SlistPtr) (x : SlistPtr) : UInt64 :=
  if x = s.head then 0 else UInt64.ofNat ((below s.key (s.key x) L).length + 1)

/-- One level links the nodes `l`, in order and both ways, with spans that measure `pos`. -/
structure SlistLevel.Holds (lv : SlistLevel) (pos : SlistPtr → UInt64) (head : SlistPtr)
    (l : List SlistPtr) : Prop where
  next : Chain lv.next head l
  prev : Back lv.prev head l
  span : Spans lv.span pos head l

structure Slist.Rep (s : Slist V) (L : List SlistPtr) : Prop where
  sorted : Sorted s.key L
  head : s.head ∉ L
  holds : ∀ l, (s.levels l).Holds (s.pos L) s.head (s.level L l)
  positive : ∀ x ∈ L, 0 < s.height x
  free : ∀ x, x ∉ s.head :: L → s.height x = 0
  low : ∀ x ∈ L, s.height x ≤ s.curHeight
  current : 0 < s.curHeight ∧ s.curHeight ≤ max 1 s.maxHeight
  size : s.numNodes = L.length
  tail : s.tail = L.getLast?
  iter : ∀ x, s.iterator = some x → x ∈ L
  riter : ∀ x, s.riterator = some x → x ∈ L

theorem Slist.pos_head : s.pos L s.head = 0 := if_pos rfl

theorem Slist.Rep.pos_mem (h : s.Rep L) {x : SlistPtr} (hx : x ∈ L) :
    s.pos L x = UInt64.ofNat ((below s.key (s.key x) L).length + 1) :=
  if_neg (ne_of_mem_of_not_mem hx h.head)

theorem Slist.mem_level {l : Nat} {x : SlistPtr} : x ∈ s.level L l ↔ x ∈ L ∧ l < s.height x := by
  simp [Slist.level]

theorem Slist.Rep.level_zero (h : s.Rep L) : s.level L 0 = L :=
  List.filter_eq_self.mpr fun x hx => by simpa using h.positive x hx

theorem Slist.Rep.level_high (h : s.Rep L) {l : Nat} (hl : s.curHeight ≤ l) :
    s.level L l = [] := by
  refine List.filter_eq_nil_iff.mpr fun x hx => ?_
  have := h.low x hx
  simp only [decide_eq_true_eq]
  omega

theorem Slist.Rep.level_sorted (h : s.Rep L) (l : Nat) : Sorted s.key (s.level L l) :=
  h.sorted.filter _

theorem Slist.Rep.level_nodup (h : s.Rep L) (l : Nat) : (s.head :: s.level L l).Nodup := by
  refine List.nodup_cons.mpr ⟨fun hm => h.head (Slist.mem_level.mp hm).1, ?_⟩
  exact (h.level_sorted l).nodup

theorem Slist.Rep.level_length (h : s.Rep L) (l : Nat) : (s.level L l).length ≤ s.numNodes := by
  rw [h.size]
  exact List.length_filter_le _ _

/-- A node found below `key` on some level is below it on every level it reaches. -/
theorem Slist.pred_mem (key : Key) (l : Nat) :
    s.pred L key l = s.head ∨ s.pred L key l ∈ below s.key key (s.level L l) :=
  List.mem_cons.mp (last_mem s.head (below s.key key (s.level L l)))

theorem Slist.below_level_subset {key : Key} {l l' : Nat} (hl : l' ≤ l) {x : SlistPtr}
    (hx : x ∈ below s.key key (s.level L l)) : x ∈ below s.key key (s.level L l') := by
  obtain ⟨hm, hk⟩ := mem_below.mp hx
  obtain ⟨hL, hh⟩ := Slist.mem_level.mp hm
  exact mem_below.mpr ⟨Slist.mem_level.mpr ⟨hL, by omega⟩, hk⟩

theorem Slist.Rep.from_node (h : s.Rep L) {key : Key} {l : Nat} {a : SlistPtr}
    (ha : a = s.head ∨ a ∈ below s.key key (s.level L l)) :
    ∃ lo, Chain (s.levels l).next a (lo ++ above s.key key (s.level L l)) ∧
      Spans (s.levels l).span (s.pos L) a (lo ++ above s.key key (s.level L l)) ∧
      (∀ x ∈ lo, s.key x < key) ∧ last a lo = s.pred L key l ∧ lo.length ≤ s.numNodes := by
  have hsplit := below_append_above (h.level_sorted l) key
  have hn := (h.holds l).next
  have hs := (h.holds l).span
  have hlen : (below s.key key (s.level L l)).length ≤ s.numNodes :=
    le_trans (List.length_filter_le _ _) (h.level_length l)
  have hb : ∀ x ∈ below s.key key (s.level L l), s.key x < key := fun x hx => (mem_below.mp hx).2
  rw [Slist.pred]
  generalize below s.key key (s.level L l) = lo at *
  rw [← hsplit] at hn hs
  rcases ha with rfl | ha
  · exact ⟨lo, hn, hs, hb, rfl, hlen⟩
  · obtain ⟨l1, l2, rfl⟩ := List.append_of_mem ha
    rw [List.append_assoc, List.cons_append] at hn hs
    refine ⟨l2, ((chain_append _ _ _).mp hn).2.2, ((spans_append _ _ _).mp hs).2.2,
      fun x hx => hb x (by simp [hx]), ?_, ?_⟩
    · rw [last_append, last_cons]
    · simp only [List.length_append, List.length_cons] at hlen
      omega

section Change
variable {lv : SlistLevel} {pos pos' : SlistPtr → UInt64} {head x : SlistPtr}
  {lo hi : List SlistPtr}

theorem SlistLevel.Holds.clear (h : lv.Holds pos head lo) (hx : x ∉ head :: lo) :
    (lv.clear x).Holds pos head lo := by
  have hne : ∀ y ∈ head :: lo, y ≠ x := fun y hy => ne_of_mem_of_not_mem hy hx
  refine ⟨chain_congr (fun y hy => Function.update_of_ne (hne y hy) _ _) h.next, ?_, ?_⟩
  · refine back_congr (fun y hy => Function.update_of_ne ?_ _ _) h.prev
    exact hne y (List.mem_cons_of_mem _ hy)
  · exact spans_congr (fun y hy => Function.update_of_ne (hne y hy) _ _) (fun _ _ => rfl) h.span

theorem SlistLevel.Holds.link {rank0 rank : UInt64} (h : lv.Holds pos head (lo ++ hi))
    (nd : (head :: (lo ++ hi)).Nodup) (hx : x ∉ head :: (lo ++ hi))
    (hrank : rank = pos (last head lo)) (hlo : ∀ y ∈ head :: lo, pos' y = pos y)
    (hpx : pos' x = rank0 + 1) (hhi : ∀ y ∈ hi, pos' y = pos y + 1) :
    (lv.link x (last head lo) rank0 rank).Holds pos' head (lo ++ x :: hi) := by
  have hlx : last head lo ≠ x := by
    refine ne_of_mem_of_not_mem ?_ hx
    exact last_mem_of_subset head (List.subset_append_left lo hi)
  have hne : ∀ y ∈ head :: (lo ++ hi), y ≠ x := fun y hy => ne_of_mem_of_not_mem hy hx
  have hnext : lv.next (last head lo) = hi.head? := by
    have hc := ((chain_append head lo hi).mp h.next).2
    exact chain_next hc
  refine ⟨chain_insert nd hx h.next ?_ ?_ ?_, back_insert nd h.prev ?_ ?_ ?_,
    spans_insert nd h.span hlo hpx hhi ?_ ?_ ?_⟩
  · exact Function.update_self ..
  · simp [SlistLevel.link, Function.update_of_ne hlx.symm]
  · intro y hy hyl
    simp [SlistLevel.link, Function.update_of_ne hyl, Function.update_of_ne (hne y hy)]
  · cases hh : hi.head? with
    | none => simp [SlistLevel.link, hnext, hh]
    | some n =>
      have hn : n ∈ hi := List.mem_of_mem_head? hh
      have hxn : x ≠ n := (hne n (by simp [hn])).symm
      simp [SlistLevel.link, hnext, hh, Function.update_of_ne hxn]
  · intro y hy
    simp [SlistLevel.link, hnext, hy]
  · intro y hy hyh
    have hyx := hne y (List.mem_cons_of_mem _ hy)
    cases hh : hi.head? with
    | none => simp [SlistLevel.link, hnext, hh, Function.update_of_ne hyx]
    | some n =>
      have hyn : y ≠ n := fun he => hyh (by rw [hh, he])
      simp [SlistLevel.link, hnext, hh, Function.update_of_ne hyx, Function.update_of_ne hyn]
  · simp only [SlistLevel.link, Function.update_self]
    grind
  · simp only [SlistLevel.link, Function.update_of_ne hlx.symm, Function.update_self]
    grind
  · intro y hy hyl
    simp [SlistLevel.link, Function.update_of_ne hyl, Function.update_of_ne (hne y hy)]

theorem SlistLevel.Holds.over {c : UInt64} (h : lv.Holds pos head (lo ++ hi))
    (nd : (head :: (lo ++ hi)).Nodup) (hlo : ∀ y ∈ head :: lo, pos' y = pos y)
    (hhi : ∀ y ∈ hi, pos' y = pos y + c) :
    (lv.addSpan (last head lo) c).Holds pos' head (lo ++ hi) := by
  refine ⟨h.next, h.prev, spans_over nd h.span hlo hhi ?_ ?_⟩
  · exact Function.update_self ..
  · intro y _ hyl
    exact Function.update_of_ne hyl _ _

theorem SlistLevel.Holds.unlink (h : lv.Holds pos head (lo ++ x :: hi))
    (nd : (head :: (lo ++ x :: hi)).Nodup) (hlo : ∀ y ∈ head :: lo, pos' y = pos y)
    (hhi : ∀ y ∈ hi, pos' y = pos y - 1) :
    (lv.unlink x (last head lo)).Holds pos' head (lo ++ hi) := by
  have hnext := (chain_next_mid h.next).2
  refine ⟨chain_erase nd h.next ?_ ?_, back_erase nd h.prev ?_ ?_,
    spans_erase nd h.span hlo hhi ?_ ?_⟩
  · exact Function.update_self ..
  · intro y _ hyl
    exact Function.update_of_ne hyl _ _
  · intro y hy
    simp [SlistLevel.unlink, hnext, hy]
  · intro y _ hyh
    cases hh : hi.head? with
    | none => simp [SlistLevel.unlink, hnext, hh]
    | some n =>
      have hyn : y ≠ n := fun he => hyh (by rw [hh, he])
      simp [SlistLevel.unlink, hnext, hh, Function.update_of_ne hyn]
  · exact Function.update_self ..
  · intro y _ hyl
    exact Function.update_of_ne hyl _ _

end Change

section Loops
variable {key : Key} {l : Nat} {a : SlistPtr} {lo hi : List SlistPtr} {pos : SlistPtr → UInt64}

theorem Slist.seek_path (hc : Chain (s.levels l).next a (lo ++ hi))
    (hs : Spans (s.levels l).span pos a (lo ++ hi)) (hlo : ∀ x ∈ lo, s.key x < key)
    (hhi : ∀ x ∈ hi, key ≤ s.key x) {fuel : Nat} (hf : lo.length < fuel) (rank : UInt64) :
    s.seek key l fuel a rank = some (last a lo, rank + (pos (last a lo) - pos a)) := by
  induction lo generalizing a fuel rank with
  | nil =>
    obtain ⟨fuel, rfl⟩ : ∃ n, fuel = n+1 := ⟨fuel-1, by simp at hf; omega⟩
    have hn := chain_next hc
    rw [List.nil_append] at hn
    rw [Slist.seek, hn, last_nil, show rank + (pos a - pos a) = rank by grind]
    cases hi with
    | nil => rfl
    | cons x hi =>
      have hx : ¬ 0 < slistKeyCompare key (s.key x) := by
        rw [slistKeyCompare_gt]
        exact not_lt.mpr (hhi x (by simp))
      simp only [List.head?_cons, hx, if_false]
  | cons x lo ih =>
    obtain ⟨fuel, rfl⟩ : ∃ n, fuel = n+1 := ⟨fuel-1, by simp at hf; omega⟩
    have hx : 0 < slistKeyCompare key (s.key x) := slistKeyCompare_gt _ _ |>.mpr (hlo x (by simp))
    rw [Slist.seek, hc.1]
    simp only [hx, if_true]
    rw [ih hc.2 hs.2 (fun y hy => hlo y (by simp [hy])) (by simpa using hf), hs.1, last_cons]
    congr 2
    grind

/-- The search of one level stops before the first node not below `key`, and finds it if
its key is `key`. -/
theorem Slist.searchLevel_path (hc : Chain (s.levels l).next a (lo ++ hi))
    (hs : Spans (s.levels l).span pos a (lo ++ hi)) (hlo : ∀ x ∈ lo, s.key x < key)
    (hhi : ∀ x ∈ hi, key ≤ s.key x) {fuel : Nat} (hf : lo.length < fuel) (rank : UInt64) :
    s.searchLevel key l fuel a rank =
      some (match hi.head?.filter fun x => s.key x = key with
        | some x => (last a lo, rank + (pos x - pos a), some x)
        | none => (last a lo, rank + (pos (last a lo) - pos a), none)) := by
  induction lo generalizing a fuel rank with
  | nil =>
    obtain ⟨fuel, rfl⟩ : ∃ n, fuel = n+1 := ⟨fuel-1, by simp at hf; omega⟩
    have hn := chain_next hc
    rw [List.nil_append] at hn hs
    rw [Slist.searchLevel, hn, last_nil, show rank + (pos a - pos a) = rank by grind]
    cases hi with
    | nil => rfl
    | cons x hi =>
      have hlt := slistKeyCompare_lt key (s.key x)
      have heq := slistKeyCompare_eq key (s.key x)
      rcases lt_or_eq_of_le (hhi x (by simp)) with hk | hk
      · simp [hlt.mpr hk, Option.filter, (ne_of_lt hk).symm]
      · have hzero := heq.mpr hk
        subst hk
        simp [hzero, Option.filter, hs.1]
  | cons x lo ih =>
    obtain ⟨fuel, rfl⟩ : ∃ n, fuel = n+1 := ⟨fuel-1, by simp at hf; omega⟩
    have hx : 0 < slistKeyCompare key (s.key x) := slistKeyCompare_gt _ _ |>.mpr (hlo x (by simp))
    have h1 : ¬ slistKeyCompare key (s.key x) < 0 := by omega
    have h2 : ¬ slistKeyCompare key (s.key x) = 0 := by omega
    rw [Slist.searchLevel, hc.1]
    simp only [h1, h2, if_false]
    rw [ih hc.2 hs.2 (fun y hy => hlo y (by simp [hy])) (by simpa using hf), hs.1, last_cons]
    congr 1
    split
    · next y _ =>
      congr 2
      grind
    · congr 2
      grind

end Loops

variable {key : Key}

theorem Slist.Rep.seek (h : s.Rep L) {l : Nat} {a : SlistPtr}
    (ha : a = s.head ∨ a ∈ below s.key key (s.level L l)) (rank : UInt64) :
    s.seek key l s.fuel a rank =
      some (s.pred L key l, rank + (s.pos L (s.pred L key l) - s.pos L a)) := by
  obtain ⟨lo, hc, hs, hlo, hlast, hlen⟩ := h.from_node ha
  rw [← hlast]
  exact Slist.seek_path hc hs hlo (fun x hx => (mem_above.mp hx).2) (Nat.lt_succ_of_le hlen) rank

/-- Searching the levels below `h` from a node below `key` finds the node with `key`, its
position being what is added up. -/
theorem Slist.Rep.search_from (h : s.Rep L) {n : Nat} {a : SlistPtr}
    (ha : ∀ l, l + 1 = n → a = s.head ∨ a ∈ below s.key key (s.level L l)) :
    s.search key n a (s.pos L a) = some (if n = 0 then none else
      (L.find? fun x => s.key x = key).map fun x => (x, s.pos L x)) := by
  induction n generalizing a with
  | zero => rfl
  | succ l ih =>
    obtain ⟨lo, hc, hs, hlo, hlast, hlen⟩ := h.from_node (ha l rfl)
    have hlevel := Slist.searchLevel_path hc hs hlo (fun x hx => (mem_above.mp hx).2)
      (show lo.length < s.fuel from Nat.lt_succ_of_le hlen) (s.pos L a)
    rw [← find_eq_head_above (h.level_sorted l)] at hlevel
    rw [Slist.search, hlevel]
    simp only [Option.bind_eq_bind, Option.bind_some, Nat.succ_ne_zero, if_false]
    cases hf : (s.level L l).find? fun x => s.key x = key with
    | some x =>
      have hx := (Slist.mem_level.mp (List.mem_of_find?_eq_some hf)).1
      have hk : s.key x = key := by simpa using List.find?_some hf
      have hL : (L.find? fun x => s.key x = key) = some x := by
        rw [find_eq_head_above h.sorted, (head_above_iff h.sorted hk).mpr hx]
        simp [Option.filter, hk]
      simp only [hL, Option.map_some]
      congr 3
      grind
    | none =>
      simp only [hlast]
      have hpos : s.pos L a + (s.pos L (s.pred L key l) - s.pos L a) =
          s.pos L (s.pred L key l) := by grind
      rw [hpos, ih]
      · by_cases hl : l = 0
        · subst hl
          rw [h.level_zero] at hf
          simp [hf]
        · simp [hl]
      · rintro l' rfl
        refine (Slist.pred_mem key (l'+1)).imp id fun hm => ?_
        exact Slist.below_level_subset (Nat.le_succ l') hm

theorem Slist.Rep.search_top (h : s.Rep L) (key : Key) :
    s.search key s.curHeight s.head 0 =
      some ((L.find? fun x => s.key x = key).map fun x => (x, s.pos L x)) := by
  have hsearch := h.search_from fun l (_ : l + 1 = s.curHeight) =>
    Or.inl (b := s.head ∈ below s.key key (s.level L l)) rfl
  rw [Slist.pos_head, if_neg (by have := h.current.1; omega)] at hsearch
  exact hsearch

theorem Slist.Rep.findNode (h : s.Rep L) (key : Key) :
    slistFindNode s key = some (L.find? fun x => s.key x = key) := by
  rw [slistFindNode, h.search_top]
  cases L.find? fun x => s.key x = key <;> rfl

end SimpleKit
