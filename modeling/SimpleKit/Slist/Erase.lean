import SimpleKit.Slist.Insert

set_option autoImplicit false

namespace SimpleKit
open Linked SortedBy

variable {V : Type} {s : Slist V} {L lo hi : List SlistPtr} {node : SlistPtr}

theorem Slist.level_append (s : Slist V) (lo hi : List SlistPtr) (node : SlistPtr) (l : Nat) :
    s.level (lo ++ node :: hi) l =
      if l < s.height node then s.level lo l ++ node :: s.level hi l
      else s.level lo l ++ s.level hi l := by
  simp only [Slist.level, List.filter_append, List.filter_cons, decide_eq_true_eq]
  split <;> rfl

theorem Slist.Rep.pred_node (h : s.Rep (lo ++ node :: hi)) (l : Nat) :
    s.pred (lo ++ node :: hi) (s.key node) l = last s.head (s.level lo l) := by
  have hcut := (cut_at h.sorted).1
  have hcomm : below s.key (s.key node) (s.level (lo ++ node :: hi) l) = s.level lo l := by
    conv_rhs => rw [← hcut]
    rw [Slist.level, Slist.level, below, below, List.filter_filter, List.filter_filter]
    exact List.filter_congr fun x _ => Bool.and_comm _ _
  rw [Slist.pred, hcomm]

def Slist.erasedLevel (s : Slist V) (lo : List SlistPtr) (node : SlistPtr) (l : Nat) :
    SlistLevel :=
  if l < s.height node then (s.levels l).unlink node (last s.head (s.level lo l))
  else (s.levels l).addSpan (last s.head (s.level lo l)) (-1)

theorem Slist.Rep.next_node (h : s.Rep (lo ++ node :: hi)) (l : Nat) :
    (s.levels l).next (last s.head (s.level lo l)) = some node ↔ l < s.height node := by
  have hc := (h.holds l).next
  rw [Slist.level_append] at hc
  split at hc
  · next hl => exact iff_of_true (chain_next_mid hc).1 hl
  · next hl =>
    refine iff_of_false ?_ hl
    rw [chain_next ((chain_append _ _ _).mp hc).2]
    intro hh
    exact hl (Slist.mem_level.mp (List.mem_of_mem_head? hh)).2

theorem Slist.Rep.prev_node (h : s.Rep (lo ++ node :: hi)) {l : Nat} (hl : l < s.height node) :
    (s.levels l).prev node = some (last s.head (s.level lo l)) := by
  have hb := (h.holds l).prev
  rw [Slist.level_append, if_pos hl] at hb
  exact back_mid hb

theorem Slist.Rep.unlink_from (h : s.Rep (lo ++ node :: hi)) {n : Nat} {a : SlistPtr}
    {levels : Nat → SlistLevel} (hlv : ∀ l < n, levels l = s.levels l)
    (ha : ∀ l, l + 1 = n → a = s.head ∨
      a ∈ below s.key (s.key node) (s.level (lo ++ node :: hi) l)) :
    slistUnlink node n a { s with levels } = some { s with
      levels := fun l => if l < n then s.erasedLevel lo node l else levels l } := by
  induction n generalizing a levels with
  | zero => simp [slistUnlink]
  | succ l ih =>
    have hseek := h.seek (ha l rfl) 0
    rw [h.pred_node l] at hseek
    generalize hx : (0 : UInt64) + _ = rank at hseek
    have hstep : slistUnlink node (l+1) a { s with levels } =
        slistUnlink node l (last s.head (s.level lo l)) { s with
          levels := Function.update levels l (s.erasedLevel lo node l) } := by
      generalize ht : ({ s with levels } : Slist V) = t
      have hseek' : t.seek (t.key node) l t.fuel a 0 =
          some (last s.head (s.level lo l), rank) := by
        subst ht
        rw [← hseek]
        refine Slist.seek_congr (hlv l (Nat.lt_succ_self l)) ?_ _ _ _
        rfl
      have hlevel : t.levels l = s.levels l := by
        subst ht
        exact hlv l (Nat.lt_succ_self l)
      rw [slistUnlink, hseek', Option.bind_eq_bind, Option.bind_some, hlevel, Slist.erasedLevel]
      simp only [h.next_node l]
      split
      · next hl =>
        rw [h.prev_node hl, Option.bind_eq_bind, Option.bind_some]
        subst ht
        rfl
      · subst ht
        rfl
    rw [hstep, ih]
    · congr 2
      funext l'
      by_cases hl' : l' = l
      · simp [hl']
      · simp only [Function.update_of_ne hl']
        exact if_congr (by omega) rfl rfl
    · intro l' hl'
      rw [Function.update_of_ne (by omega)]
      exact hlv l' (by omega)
    · rintro l' rfl
      rw [← h.pred_node]
      exact (Slist.pred_mem _ _).imp id (Slist.below_level_subset (Nat.le_succ l'))

theorem slistShrink_eq {n : Nat} {s : Slist V} (hn : s.curHeight = n) (hpos : 0 < n) :
    ∃ c, 0 < c ∧ c ≤ n ∧ slistShrink n s = { s with curHeight := c } ∧
      ∀ l, c ≤ l → l < n → (s.levels l).next s.head = none := by
  induction n generalizing s with
  | zero => omega
  | succ l ih =>
    rw [slistShrink]
    split
    · next hlt =>
      split
      · next hnone =>
        obtain ⟨c, hc, hcl, he, hall⟩ := ih (s := { s with curHeight := s.curHeight - 1 })
          (show s.curHeight - 1 = l by omega) (by omega)
        refine ⟨c, hc, by omega, he, ?_⟩
        intro l' h1 h2
        by_cases hl' : l' = l
        · rw [hl']
          exact hnone
        · exact hall l' h1 (by omega)
      · exact ⟨l+1, hpos, le_refl _, by rw [← hn], fun l' h1 h2 => by omega⟩
    · exact ⟨l+1, hpos, le_refl _, by rw [← hn], fun l' h1 h2 => by omega⟩

/-- With `node` gone every position above it is one less. -/
structure Slist.Shifted (s : Slist V) (lo hi : List SlistPtr) (node : SlistPtr)
    (pos' : SlistPtr → UInt64) : Prop where
  head : pos' s.head = s.pos (lo ++ node :: hi) s.head
  before : ∀ y ∈ lo, pos' y = s.pos (lo ++ node :: hi) y
  behind : ∀ y ∈ hi, pos' y = s.pos (lo ++ node :: hi) y - 1

theorem Slist.Rep.erasedLevel (h : s.Rep (lo ++ node :: hi)) {pos' : SlistPtr → UInt64}
    (hpos : s.Shifted lo hi node pos') (l : Nat) :
    (s.erasedLevel lo node l).Holds pos' s.head (s.level (lo ++ hi) l) := by
  have hlo : ∀ y ∈ s.head :: s.level lo l, pos' y = s.pos (lo ++ node :: hi) y := by
    intro y hy
    rcases List.mem_cons.mp hy with rfl | hy
    · exact hpos.head
    · exact hpos.before y (Slist.mem_level.mp hy).1
  have hhi : ∀ y ∈ s.level hi l, pos' y = s.pos (lo ++ node :: hi) y - 1 :=
    fun y hy => hpos.behind y (Slist.mem_level.mp hy).1
  have hlv := h.holds l
  have hnd := h.level_nodup l
  have happ : s.level (lo ++ hi) l = s.level lo l ++ s.level hi l := List.filter_append ..
  rw [Slist.level_append] at hlv hnd
  rw [Slist.erasedLevel, happ]
  by_cases hl : l < s.height node
  · rw [if_pos hl] at hlv hnd ⊢
    exact hlv.unlink hnd hlo hhi
  · rw [if_neg hl] at hlv hnd ⊢
    refine hlv.over hnd hlo fun y hy => ?_
    rw [hhi y hy]
    grind

theorem Slist.Rep.node_notMem (h : s.Rep (lo ++ node :: hi)) : node ∉ s.head :: (lo ++ hi) := by
  have hnd := List.nodup_cons.mpr ⟨h.head, h.sorted.nodup⟩
  rw [← List.cons_append, List.nodup_middle, List.nodup_cons] at hnd
  exact hnd.1

theorem Slist.Rep.erased_links (h : s.Rep (lo ++ node :: hi)) :
    (s.erasedLevel lo node 0).prev node = some (last s.head lo) ∧
      (s.erasedLevel lo node 0).next node = hi.head? := by
  have hpos := h.positive node (by simp)
  have hlo : s.level lo 0 = lo :=
    List.filter_eq_self.mpr fun x hx => by simpa using h.positive x (by simp [hx])
  have hnext : (s.levels 0).next node = hi.head? := by
    have hc := (h.holds 0).next
    rw [h.level_zero] at hc
    exact (chain_next_mid hc).2
  have hprev := h.prev_node hpos
  rw [hlo] at hprev
  have hnot := h.node_notMem
  rw [Slist.erasedLevel, if_pos hpos, hlo]
  constructor
  · cases hh : hi.head? with
    | none => simp [SlistLevel.unlink, hnext, hh, hprev]
    | some x =>
      have hx : node ≠ x := by
        rintro rfl
        exact hnot (by simp [List.mem_of_mem_head? hh])
      simp [SlistLevel.unlink, hnext, hh, Function.update_of_ne hx, hprev]
  · have hlast : node ≠ last s.head lo := by
      refine fun he => hnot ?_
      rw [he]
      exact last_mem_of_subset _ (List.subset_append_left lo hi)
    simp [SlistLevel.unlink, Function.update_of_ne hlast, hnext]

theorem Slist.Rep.erased_tail (h : s.Rep (lo ++ node :: hi)) :
    (if s.tail = some node then (if s.head = last s.head lo then none else some (last s.head lo))
      else s.tail) = (lo ++ hi).getLast? := by
  have hnot := h.node_notMem
  have hhead : s.head ∉ lo := fun hm => h.head (by simp [hm])
  rw [h.tail, List.getLast?_append, List.getLast?_append]
  rcases List.eq_nil_or_concat' hi with rfl | ⟨r, x, rfl⟩
  · simpa using getLast?_eq_last hhead
  · have hx : x ≠ node := by
      rintro rfl
      exact hnot (by simp)
    rw [← List.cons_append, List.getLast?_append, List.getLast?_append]
    simp [hx]

variable [Inhabited V]

def Slist.erased (s : Slist V) (lo hi : List SlistPtr) (node : SlistPtr) (curHeight : Nat) :
    Slist V :=
  { s with
    curHeight
    numNodes := s.numNodes - 1
    tail := (lo ++ hi).getLast?
    iterator := if s.iterator = some node then hi.head? else s.iterator
    riterator := if s.riterator = some node then lo.getLast? else s.riterator
    levels := fun l => (if l < s.curHeight then s.erasedLevel lo node l else s.levels l).clear node
    key := Function.update s.key node default
    value := Function.update s.value node default
    height := Function.update s.height node 0 }

theorem Slist.Rep.shifted (h : s.Rep (lo ++ node :: hi)) (c : Nat) :
    s.Shifted lo hi node ((s.erased lo hi node c).pos (lo ++ hi)) := by
  have hnot := h.node_notMem
  have hkey : ∀ y ∈ lo ++ hi, (s.erased lo hi node c).key y = s.key y :=
    fun y hy => Function.update_of_ne (ne_of_mem_of_not_mem (List.mem_cons_of_mem _ hy) hnot) _ _
  have hpos : ∀ y ∈ lo ++ hi, s.pos (lo ++ node :: hi) y =
      (s.erased lo hi node c).pos (lo ++ hi) y + if s.key node < s.key y then 1 else 0 := by
    intro y hy
    have hyL : y ∈ lo ++ node :: hi := by simp at hy ⊢; tauto
    have hyh : y ≠ (s.erased lo hi node c).head := ne_of_mem_of_not_mem hyL h.head
    rw [h.pos_mem hyL, length_below_insert, Slist.pos, if_neg hyh, hkey y hy, below_congr hkey]
    split
    · simp only [UInt64.ofNat_add]
      grind
    · simp
  obtain ⟨-, hnode, hlo⟩ := List.pairwise_append.mp h.sorted
  refine ⟨?_, fun y hy => ?_, fun y hy => ?_⟩
  · rw [Slist.pos_head]
    exact Slist.pos_head
  · rw [hpos y (by simp [hy]), if_neg (lt_asymm (hlo y hy node (by simp)))]
    simp
  · rw [hpos y (by simp [hy]), if_pos ((List.pairwise_cons.mp hnode).1 y hy)]
    grind

theorem Slist.Rep.eraseNode (h : s.Rep (lo ++ node :: hi)) :
    ∃ c, 0 < c ∧ c ≤ s.curHeight ∧ (∀ l, c ≤ l → s.level (lo ++ hi) l = []) ∧
      slistEraseNode s node = some (s.erased lo hi node c) := by
  obtain ⟨hprev, hnext⟩ := h.erased_links
  have htail := h.erased_tail
  have hhead : s.head ∉ lo := fun hm => h.head (by simp [hm])
  have hunlink : slistUnlink node s.curHeight s.head s = some { s with
      levels := fun l => if l < s.curHeight then s.erasedLevel lo node l else s.levels l } :=
    h.unlink_from (fun _ _ => rfl) (fun _ _ => Or.inl rfl)
  have hzero : 0 < s.curHeight := h.current.1
  generalize hlv : (fun l => if l < s.curHeight then s.erasedLevel lo node l else s.levels l) = lv
    at hunlink
  have hlv0 : lv 0 = s.erasedLevel lo node 0 := by
    rw [← hlv]
    exact if_pos hzero
  obtain ⟨c, hc, hcl, hshrink, hnone⟩ := slistShrink_eq (n := s.curHeight)
    (s := { s with tail := (lo ++ hi).getLast?, levels := lv }) rfl hzero
  refine ⟨c, hc, hcl, ?_, ?_⟩
  · intro l hl
    by_cases hlt : l < s.curHeight
    · have hn : (lv l).next s.head = none := hnone l hl hlt
      have hlvl : lv l = s.erasedLevel lo node l := by
        rw [← hlv]
        exact if_pos hlt
      rw [hlvl, chain_next (h.erasedLevel (h.shifted c) l).next] at hn
      exact List.head?_eq_none_iff.mp hn
    · have hempty := h.level_high (Nat.le_of_not_lt hlt)
      refine List.filter_eq_nil_iff.mpr fun x hx => ?_
      exact List.filter_eq_nil_iff.mp hempty x (by simp at hx ⊢; tauto)
  · rw [slistEraseNode]
    simp only [hunlink, Option.bind_eq_bind, Option.bind_some, hlv0, hprev, Option.some.injEq,
      htail, hshrink]
    simp only [slistFreeNode, Slist.erased, hnext, ← hlv, eq_comm (a := last s.head lo),
      getLast?_eq_last hhead]

/-- The list after an erasure: all the other nodes, every level in step. -/
theorem Slist.Rep.erased (h : s.Rep (lo ++ node :: hi)) {c : Nat} (hc : 0 < c)
    (hcl : c ≤ s.curHeight) (hempty : ∀ l, c ≤ l → s.level (lo ++ hi) l = []) :
    (s.erased lo hi node c).Rep (lo ++ hi) := by
  have hnot := h.node_notMem
  have hne : ∀ y ∈ lo ++ hi, y ≠ node :=
    fun y hy => ne_of_mem_of_not_mem (List.mem_cons_of_mem _ hy) hnot
  have hkey : ∀ y ∈ lo ++ hi, (s.erased lo hi node c).key y = s.key y :=
    fun y hy => Function.update_of_ne (hne y hy) _ _
  have hheight : ∀ y ∈ lo ++ hi, (s.erased lo hi node c).height y = s.height y :=
    fun y hy => Function.update_of_ne (hne y hy) _ _
  have hmem : ∀ y ∈ lo ++ hi, y ∈ lo ++ node :: hi := by
    intro y hy
    simp at hy ⊢
    tauto
  refine ⟨?_, fun hm => h.head (hmem _ hm), ?_, ?_, ?_, ?_, ?_, ?_, rfl, ?_, ?_⟩
  · exact (sorted_append_erase h.sorted).congr hkey
  · intro l
    have hlevel : (s.erased lo hi node c).level (lo ++ hi) l = s.level (lo ++ hi) l :=
      List.filter_congr fun y hy => by rw [hheight y hy]
    have hnl : node ∉ s.head :: s.level (lo ++ hi) l := by
      refine fun hm => hnot (List.cons_subset_cons _ ?_ hm)
      exact fun y hy => (Slist.mem_level.mp hy).1
    rw [hlevel]
    by_cases hl : l < s.curHeight
    · have hlv : (s.erased lo hi node c).levels l = (s.erasedLevel lo node l).clear node :=
        congrArg (SlistLevel.clear · node) (if_pos hl)
      rw [hlv]
      exact (h.erasedLevel (h.shifted c) l).clear hnl
    · have hlv : (s.erased lo hi node c).levels l = (s.levels l).clear node :=
        congrArg (SlistLevel.clear · node) (if_neg hl)
      have hold := h.holds l
      rw [h.level_high (Nat.le_of_not_lt hl)] at hold
      rw [hempty l (by omega)] at hnl ⊢
      have hclear := hold.clear hnl
      rw [hlv]
      exact ⟨hclear.next, hclear.prev, trivial⟩
  · intro y hy
    rw [hheight y hy]
    exact h.positive y (hmem y hy)
  · intro y hy
    by_cases hyn : y = node
    · rw [hyn]
      exact Function.update_self ..
    · refine (Function.update_of_ne hyn _ _).trans (h.free y fun hm => hy ?_)
      simp only [List.mem_cons, List.mem_append] at hm ⊢
      exact hm.imp id (Or.imp id fun hc => hc.resolve_left hyn)
  · intro y hy
    rw [hheight y hy]
    by_contra hlt
    have hyl : y ∈ s.level (lo ++ hi) c := Slist.mem_level.mpr ⟨hy, Nat.lt_of_not_le hlt⟩
    rw [hempty c (le_refl c)] at hyl
    simp at hyl
  · have := h.current
    exact ⟨hc, le_trans hcl this.2⟩
  · have hsize := h.size
    have hnum : (s.erased lo hi node c).numNodes = s.numNodes - 1 := rfl
    rw [hnum, hsize]
    simp only [List.length_append, List.length_cons]
    omega
  · intro y hy
    have hit : (if s.iterator = some node then hi.head? else s.iterator) = some y := hy
    split at hit
    · exact List.mem_append_right lo (List.mem_of_mem_head? hit)
    · next hn =>
      have hm := h.iter y hit
      have hyn : y ≠ node := fun he => hn (by rw [hit, he])
      simp at hm ⊢
      tauto
  · intro y hy
    have hit : (if s.riterator = some node then lo.getLast? else s.riterator) = some y := hy
    split at hit
    · exact List.mem_append_left hi (List.mem_of_getLast? hit)
    · next hn =>
      have hm := h.riter y hit
      have hyn : y ≠ node := fun he => hn (by rw [hit, he])
      simp at hm ⊢
      tauto

end SimpleKit
