import SimpleKit.Slist.Levels

set_option autoImplicit false

namespace SimpleKit
open Linked SortedBy

variable {V : Type} {s : Slist V} {L : List SlistPtr} {key : Key}

theorem Slist.seek_congr {s' : Slist V} {l : Nat} (hl : s'.levels l = s.levels l)
    (hk : s'.key = s.key) (fuel : Nat) (a : SlistPtr) (rank : UInt64) :
    s'.seek key l fuel a rank = s.seek key l fuel a rank := by
  induction fuel generalizing a rank with
  | zero => rfl
  | succ fuel ih => simp only [Slist.seek, hl, hk, ih]

/-- The levels below `n` get their predecessors and ranks. -/
theorem Slist.Rep.descend (h : s.Rep L) (key : Key) (ranks : Nat → UInt64)
    (nodes : Nat → Option SlistPtr) {n : Nat} {a : SlistPtr} (hn : n ≤ s.curHeight)
    (ha : ∀ l, l + 1 = n → a = s.head ∨ a ∈ below s.key key (s.level L l))
    (hr : if n = s.curHeight then a = s.head else ranks n = s.pos L a) :
    slistDescend key n a { s with levelRank := ranks, levelNode := nodes } =
      some ({ s with
        levelRank := fun l => if l < n then s.pos L (s.pred L key l) else ranks l
        levelNode := fun l => if l < n then some (s.pred L key l) else nodes l },
        if n = 0 then a else s.pred L key 0) := by
  induction n generalizing a ranks nodes with
  | zero => simp [slistDescend]
  | succ l ih =>
    have hrank : (if l+1 = s.curHeight then 0 else ranks (l+1)) = s.pos L a := by
      split
      · next he =>
        rw [if_pos he] at hr
        rw [hr, Slist.pos_head]
      · next he =>
        rwa [if_neg he] at hr
    have hseek := h.seek (ha l rfl) (s.pos L a)
    rw [show s.pos L a + (s.pos L (s.pred L key l) - s.pos L a) = s.pos L (s.pred L key l) by
      grind] at hseek
    have hstep : slistDescend key (l+1) a { s with levelRank := ranks, levelNode := nodes } =
        slistDescend key l (s.pred L key l) { s with
          levelRank := Function.update ranks l (s.pos L (s.pred L key l))
          levelNode := Function.update nodes l (some (s.pred L key l)) } := by
      generalize ht : ({ s with levelRank := ranks, levelNode := nodes } : Slist V) = t
      have hseek' : t.seek key l t.fuel a (s.pos L a) =
          some (s.pred L key l, s.pos L (s.pred L key l)) := by
        subst ht
        rw [← hseek]
        refine Slist.seek_congr ?_ ?_ _ _ _ <;> rfl
      have hrank' : (if l+1 = t.curHeight then 0 else t.levelRank (l+1)) = s.pos L a := by
        subst ht
        exact hrank
      rw [slistDescend]
      simp only [hrank', hseek', Option.bind_eq_bind, Option.bind_some]
      subst ht
      rfl
    rw [hstep, ih _ _ (by omega)]
    · congr 2
      · congr 1 <;> funext l' <;> by_cases hl' : l' = l
        · simp [hl']
        · simp only [Function.update_of_ne hl']
          exact if_congr (by omega) rfl rfl
        · simp [hl']
        · simp only [Function.update_of_ne hl']
          exact if_congr (by omega) rfl rfl
      · by_cases hl : l = 0 <;> simp [hl]
    · rintro l' rfl
      exact (Slist.pred_mem key (l'+1)).imp id (Slist.below_level_subset (Nat.le_succ l'))
    · rw [if_neg (by omega), Function.update_self]

theorem slistPad_eq (s : Slist V) (n : Nat) :
    slistPad n s = { s with
      levelNode := fun l =>
        if s.curHeight ≤ l ∧ l < s.curHeight + n then some s.head else s.levelNode l
      levelRank := fun l =>
        if s.curHeight ≤ l ∧ l < s.curHeight + n then 0 else s.levelRank l } := by
  induction n generalizing s with
  | zero =>
    have hf : ∀ l, ¬ (s.curHeight ≤ l ∧ l < s.curHeight + 0) := by omega
    simp only [slistPad, hf, if_false]
  | succ n ih =>
    rw [slistPad, ih]
    congr 1 <;> funext l <;> by_cases hl : l = s.curHeight + n
    · simp [hl]
    · simp only [Function.update_of_ne hl]
      exact if_congr (by omega) rfl rfl
    · simp [hl]
    · simp only [Function.update_of_ne hl]
      exact if_congr (by omega) rfl rfl

theorem slistLink_eq {new : SlistPtr} {p : Nat → SlistPtr} {n : Nat} {s : Slist V}
    (hp : ∀ l < n, s.levelNode l = some (p l)) :
    slistLink new n s = some { s with
      levels := fun l => if l < n then
        (s.levels l).link new (p l) (s.levelRank 0) (s.levelRank l) else s.levels l } := by
  induction n generalizing s with
  | zero => simp [slistLink]
  | succ n ih =>
    rw [slistLink, hp n (Nat.lt_succ_self n), Option.bind_eq_bind, Option.bind_some]
    refine (ih ?_).trans ?_
    · exact fun l hl => hp l (Nat.lt_succ_of_lt hl)
    congr 2
    funext l
    by_cases hl : l = n
    · simp [hl]
    · simp only [Function.update_of_ne hl]
      exact if_congr (by omega) rfl rfl

theorem slistBump_eq {p : Nat → SlistPtr} {n l0 : Nat} {s : Slist V}
    (hp : ∀ l, l0 ≤ l → l < l0 + n → s.levelNode l = some (p l)) :
    slistBump n l0 s = some { s with
      levels := fun l => if l0 ≤ l ∧ l < l0 + n then (s.levels l).addSpan (p l) 1
        else s.levels l } := by
  induction n generalizing l0 s with
  | zero =>
    have hf : ∀ l, ¬ (l0 ≤ l ∧ l < l0 + 0) := by omega
    simp only [slistBump, hf, if_false]
  | succ n ih =>
    rw [slistBump, hp l0 (le_refl _) (by omega), Option.bind_eq_bind, Option.bind_some]
    refine (ih ?_).trans ?_
    · exact fun l h1 h2 => hp l (by omega) (by omega)
    congr 2
    funext l
    by_cases hl : l = l0
    · simp [hl]
    · simp only [Function.update_of_ne hl]
      exact if_congr (by omega) rfl rfl

theorem chooseHeightFrom_bounds (maxHeight : Nat) (coins : List Bool) (height : Nat) :
    height ≤ chooseHeightFrom maxHeight coins height ∧
      chooseHeightFrom maxHeight coins height ≤ max height maxHeight := by
  induction coins generalizing height with
  | nil => simp [chooseHeightFrom]
  | cons coin coins ih =>
    rw [chooseHeightFrom]
    split
    · have := ih (height+1)
      omega
    · omega

def Slist.addedLevel (s : Slist V) (L : List SlistPtr) (key : Key) (height : Nat)
    (new : SlistPtr) (l : Nat) : SlistLevel :=
  let lv := (s.levels l).clear new
  if l < height then
    lv.link new (s.pred L key l) (s.pos L (s.pred L key 0)) (s.pos L (s.pred L key l))
  else if l < s.curHeight then lv.addSpan (s.pred L key l) 1
  else lv

def Slist.added (s : Slist V) (L : List SlistPtr) (key : Key) (value : V) (height : Nat)
    (new : SlistPtr) (ranks : Nat → UInt64) (nodes : Nat → Option SlistPtr) : Slist V :=
  { s with
    curHeight := max s.curHeight height
    numNodes := s.numNodes + 1
    tail := if above s.key key L = [] then some new else s.tail
    levelRank := ranks
    levelNode := nodes
    levels := s.addedLevel L key height new
    key := Function.update s.key new key
    value := Function.update s.value new value
    height := Function.update s.height new height }

theorem Slist.Rep.next_pred (h : s.Rep L) (key : Key) (l : Nat) :
    (s.levels l).next (s.pred L key l) = (above s.key key (s.level L l)).head? := by
  have hn := (h.holds l).next
  rw [← below_append_above (h.level_sorted l) key] at hn
  exact chain_next ((chain_append _ _ _).mp hn).2

theorem Slist.Rep.descend_top (h : s.Rep L) (key : Key) :
    slistDescend key s.curHeight s.head s =
      some ({ s with
        levelRank := fun l => if l < s.curHeight then s.pos L (s.pred L key l) else s.levelRank l
        levelNode := fun l => if l < s.curHeight then some (s.pred L key l) else s.levelNode l },
        s.pred L key 0) := by
  have hd := h.descend key s.levelRank s.levelNode (le_refl _) (a := s.head)
    (fun _ _ => Or.inl rfl) (by rw [if_pos rfl])
  rw [if_neg (by have := h.current.1; omega)] at hd
  exact hd

theorem Slist.Rep.nextHasKey (h : s.Rep L) (key : Key) :
    s.nextHasKey (s.pred L key 0) key = true ↔ ∃ x ∈ L, s.key x = key := by
  rw [Slist.nextHasKey, h.next_pred, h.level_zero]
  constructor
  · intro hf
    cases ha : (above s.key key L).head? with
    | none => simp [ha] at hf
    | some x =>
      simp only [ha, decide_eq_true_eq, slistKeyCompare_eq] at hf
      exact ⟨x, (mem_above.mp (List.mem_of_mem_head? ha)).1, hf.symm⟩
  · rintro ⟨x, hx, hk⟩
    rw [(head_above_iff h.sorted hk).mpr hx]
    simp [slistKeyCompare_eq, hk]

theorem Slist.Rep.insert_found (h : s.Rep L) {key : Key} (hx : ∃ x ∈ L, s.key x = key)
    (value : V) (coins : List Bool) (new : SlistPtr) : ∃ ranks nodes,
      slistInsert s key value coins new =
        some ({ s with levelRank := ranks, levelNode := nodes }, -1) := by
  rw [slistInsert, h.descend_top key]
  exact ⟨_, _, if_pos ((h.nextHasKey key).mpr hx)⟩

theorem slistRaise_eq {height : Nat} {p : Nat → SlistPtr}
    (hp : ∀ l, height ≤ l → l < s.curHeight → s.levelNode l = some (p l)) :
    slistRaise height s = some { s with
      curHeight := max s.curHeight height
      levels := fun l => if height ≤ l ∧ l < s.curHeight then (s.levels l).addSpan (p l) 1
        else s.levels l } := by
  rw [slistRaise]
  split
  · next hle =>
    have hf : ∀ l, ¬ (height ≤ l ∧ l < s.curHeight) := by omega
    simp only [hf, if_false, max_eq_right hle]
  · next hle =>
    rw [slistBump_eq fun l h1 h2 => hp l h1 (by omega)]
    have hadd : height + (s.curHeight - height) = s.curHeight := by omega
    simp only [hadd, max_eq_left (le_of_not_ge hle)]

/-- The second half of `slist_insert`, with the scratch entries filled in for the levels
below `cur_height`. -/
theorem Slist.Rep.addNode (h : s.Rep L) (key : Key) {height : Nat} (hpos : 0 < height)
    (value : V) {new : SlistPtr} (hnew : new ∉ s.head :: L) {ranks : Nat → UInt64}
    {nodes : Nat → Option SlistPtr}
    (hranks : ∀ l < s.curHeight, ranks l = s.pos L (s.pred L key l))
    (hnodes : ∀ l < s.curHeight, nodes l = some (s.pred L key l)) :
    ∃ ranks' nodes',
      slistAddNode { s with levelRank := ranks, levelNode := nodes } key value height new =
        some (s.added L key value height new ranks' nodes') := by
  have hhigh : ∀ l, s.curHeight ≤ l → s.pred L key l = s.head := by
    intro l hl
    rw [Slist.pred, h.level_high hl]
    rfl
  obtain ⟨ranks', nodes', hpad, hranks', hnodes'⟩ : ∃ ranks' nodes',
      slistPad (height - s.curHeight) { s with levelRank := ranks, levelNode := nodes } =
        { s with levelRank := ranks', levelNode := nodes' } ∧
      (∀ l, l < height ∨ l < s.curHeight → ranks' l = s.pos L (s.pred L key l)) ∧
      ∀ l, l < height ∨ l < s.curHeight → nodes' l = some (s.pred L key l) := by
    refine ⟨_, _, slistPad_eq _ _, ?_, ?_⟩ <;> intro l hl <;> simp only <;> split
    · next hc => rw [hhigh l hc.1, Slist.pos_head]
    · exact hranks l (by omega)
    · next hc => rw [hhigh l hc.1]
    · exact hnodes l (by omega)
  refine ⟨ranks', nodes', ?_⟩
  rw [slistAddNode]
  simp only [hpad]
  rw [slistLink_eq fun l hl => hnodes' l (Or.inl hl), Option.bind_eq_bind, Option.bind_some,
    slistRaise_eq (p := s.pred L key) ?_, Option.bind_some]
  swap
  · intro l _ hl
    exact hnodes' l (Or.inr hl)
  have hlevels : (fun l => if height ≤ l ∧ l < s.curHeight then
      (if l < height then ((s.levels l).clear new).link new (s.pred L key l) (ranks' 0) (ranks' l)
        else (s.levels l).clear new).addSpan (s.pred L key l) 1
      else if l < height then
        ((s.levels l).clear new).link new (s.pred L key l) (ranks' 0) (ranks' l)
      else (s.levels l).clear new) = s.addedLevel L key height new := by
    funext l
    rw [Slist.addedLevel]
    by_cases h1 : l < height
    · rw [if_neg (by omega), if_pos h1, hranks' 0 (Or.inl hpos), hranks' l (Or.inl h1), if_pos h1]
    · rw [if_neg h1, if_neg h1]
      exact if_congr (by omega) rfl rfl
  have htail : (s.addedLevel L key height new 0).next new = none ↔ above s.key key L = [] := by
    have hp0 : s.pred L key 0 ≠ new := by
      refine ne_of_mem_of_not_mem ?_ hnew
      rcases Slist.pred_mem (s := s) (L := L) key 0 with he | hm
      · simp [he]
      · exact List.mem_cons_of_mem _ (Slist.mem_level.mp (mem_below.mp hm).1).1
    have hnext := h.next_pred key 0
    rw [h.level_zero] at hnext
    simp [Slist.addedLevel, hpos, SlistLevel.link, SlistLevel.clear, Function.update_of_ne hp0,
      Function.update_of_ne hp0.symm, hnext]
  have hdone : ∀ levels : Nat → SlistLevel, levels = s.addedLevel L key height new →
      ({ s with
        curHeight := max s.curHeight height
        numNodes := s.numNodes + 1
        tail := if (levels 0).next new = none then some new else s.tail
        levelRank := ranks'
        levelNode := nodes'
        levels := levels
        key := Function.update s.key new key
        value := Function.update s.value new value
        height := Function.update s.height new height } : Slist V) =
        s.added L key value height new ranks' nodes' := by
    rintro levels rfl
    simp only [Slist.added, htail]
  exact congrArg some (hdone _ hlevels)

theorem Slist.Rep.insert_new (h : s.Rep L) {key : Key} (hx : ¬ ∃ x ∈ L, s.key x = key)
    (value : V) (coins : List Bool) {new : SlistPtr} (hnew : new ∉ s.head :: L) :
    ∃ ranks nodes, slistInsert s key value coins new =
      some (s.added L key value (slistChooseHeight s.maxHeight coins) new ranks nodes, 0) := by
  obtain ⟨ranks, nodes, hadd⟩ := h.addNode key
    (chooseHeightFrom_bounds s.maxHeight coins 1).1 value hnew
    (fun l hl => if_pos hl) (fun l hl => if_pos hl)
  refine ⟨ranks, nodes, ?_⟩
  rw [slistInsert, h.descend_top key]
  refine (if_neg fun hf => hx ((h.nextHasKey key).mp hf)).trans ?_
  exact congrArg (Option.map fun s => (s, (0 : Int))) hadd

theorem Slist.Rep.pos_at (h : s.Rep L) {lo hi : List SlistPtr} {x : SlistPtr}
    (hL : L = lo ++ x :: hi) : s.pos L x = UInt64.ofNat (lo.length + 1) := by
  have hs := h.sorted
  rw [h.pos_mem (by simp [hL])]
  rw [hL] at hs ⊢
  rw [(cut_at hs).1]

theorem Slist.Rep.pos_pred (h : s.Rep L) (key : Key) :
    s.pos L (s.pred L key 0) = UInt64.ofNat (below s.key key L).length := by
  have hsplit := below_append_above h.sorted key
  rw [Slist.pred, h.level_zero]
  rcases List.eq_nil_or_concat' (below s.key key L) with hb | ⟨lo, x, hb⟩
  · rw [hb]
    exact Slist.pos_head
  · rw [hb, List.append_assoc] at hsplit
    rw [hb, last_append, last_cons, last_nil, h.pos_at hsplit.symm, List.length_append]
    rfl

section Added
variable {t : Slist V} {new : SlistPtr}

theorem Slist.Rep.pos_added (h : s.Rep L) (hhead : t.head = s.head)
    (hkey : ∀ x ∈ L, t.key x = s.key x) (hnew : t.key new = key) {y : SlistPtr} (hy : y ∈ L) :
    t.pos (below s.key key L ++ new :: above s.key key L) y =
      s.pos L y + if key < s.key y then 1 else 0 := by
  have hsplit := below_append_above h.sorted key
  have hyh : y ≠ t.head := by
    rw [hhead]
    exact ne_of_mem_of_not_mem hy h.head
  rw [Slist.pos, if_neg hyh, h.pos_mem hy, length_below_insert, hsplit, hnew, hkey y hy,
    below_congr hkey]
  split
  · simp only [UInt64.ofNat_add]
    grind
  · simp

theorem Slist.Rep.pos_new (h : s.Rep L) (hne : new ≠ t.head)
    (hkey : ∀ x ∈ L, t.key x = s.key x) (hnew : t.key new = key) :
    t.pos (below s.key key L ++ new :: above s.key key L) new =
      s.pos L (s.pred L key 0) + 1 := by
  have hsplit := below_append_above h.sorted key
  rw [Slist.pos, if_neg hne, length_below_insert, hsplit, hnew, below_congr hkey, h.pos_pred]
  simp

theorem Slist.level_added (hheight : ∀ x ∈ L, t.height x = s.height x) (l : Nat) :
    t.level (below s.key key L ++ new :: above s.key key L) l =
      if l < t.height new then
        below s.key key (s.level L l) ++ new :: above s.key key (s.level L l)
      else below s.key key (s.level L l) ++ above s.key key (s.level L l) := by
  have hsel : ∀ q : SlistPtr → Bool, (L.filter q).filter (fun x => decide (l < t.height x)) =
      (s.level L l).filter q := by
    intro q
    rw [List.filter_filter, Slist.level, List.filter_filter]
    refine List.filter_congr fun x hx => ?_
    rw [hheight x hx, Bool.and_comm]
  rw [Slist.level, List.filter_append, List.filter_cons, below, above, hsel, hsel]
  split
  · next hd => rw [if_pos (by simpa using hd)]; rfl
  · next hd => rw [if_neg (by simpa using hd)]; rfl

/-- A level with the new node linked in, with its spans widened over it, or empty as before. -/
theorem Slist.Rep.addedLevel_holds (h : s.Rep L) (hx : ¬ ∃ x ∈ L, s.key x = key)
    (hnew : new ∉ s.head :: L) (hhead : t.head = s.head) (hkey : ∀ x ∈ L, t.key x = s.key x)
    (hheight : ∀ x ∈ L, t.height x = s.height x) (hnk : t.key new = key) (l : Nat) :
    (s.addedLevel L key (t.height new) new l).Holds
      (t.pos (below s.key key L ++ new :: above s.key key L)) s.head
      (t.level (below s.key key L ++ new :: above s.key key L) l) := by
  have hne : new ≠ t.head := fun he => hnew (by rw [he, hhead]; exact List.mem_cons_self)
  have hlo : ∀ y ∈ s.head :: below s.key key (s.level L l),
      t.pos (below s.key key L ++ new :: above s.key key L) y = s.pos L y := by
    intro y hy
    rcases List.mem_cons.mp hy with rfl | hy
    · rw [Slist.pos_head, ← hhead]
      exact Slist.pos_head
    · obtain ⟨hyl, hyk⟩ := mem_below.mp hy
      rw [h.pos_added hhead hkey hnk (Slist.mem_level.mp hyl).1, if_neg (lt_asymm hyk)]
      simp
  have hhi : ∀ y ∈ above s.key key (s.level L l),
      t.pos (below s.key key L ++ new :: above s.key key L) y = s.pos L y + 1 := by
    intro y hy
    obtain ⟨hyl, hyk⟩ := mem_above.mp hy
    have hyL := (Slist.mem_level.mp hyl).1
    have hlt : key < s.key y := lt_of_le_of_ne hyk fun he => hx ⟨y, hyL, he.symm⟩
    rw [h.pos_added hhead hkey hnk hyL, if_pos hlt]
  have hcut := below_append_above (h.level_sorted l) key
  have hnl : new ∉ s.head :: (below s.key key (s.level L l) ++ above s.key key (s.level L l)) := by
    rw [hcut]
    refine fun hm => hnew (List.cons_subset_cons _ ?_ hm)
    exact fun y hy => (Slist.mem_level.mp hy).1
  have hnd := h.level_nodup l
  have hclear := h.holds l
  rw [← hcut] at hclear hnd
  have hclear := hclear.clear hnl
  rw [Slist.level_added hheight, Slist.addedLevel]
  split
  · exact hclear.link hnd hnl rfl hlo (h.pos_new hne hkey hnk) hhi
  · split
    · exact hclear.over hnd hlo hhi
    · next hl =>
      have hempty := h.level_high (Nat.le_of_not_lt hl)
      rw [hempty] at hclear ⊢
      exact ⟨hclear.next, hclear.prev, trivial⟩

end Added

/-- The list after an insertion: the new node in its place, on the levels below its height. -/
theorem Slist.Rep.added (h : s.Rep L) {key : Key} (hx : ¬ ∃ x ∈ L, s.key x = key) (value : V)
    {height : Nat} (hpos : 0 < height) (hmax : height ≤ max 1 s.maxHeight) {new : SlistPtr}
    (hnew : new ∉ s.head :: L) (ranks : Nat → UInt64) (nodes : Nat → Option SlistPtr) :
    (s.added L key value height new ranks nodes).Rep
      (below s.key key L ++ new :: above s.key key L) := by
  have hkey : ∀ x ∈ L, (s.added L key value height new ranks nodes).key x = s.key x :=
    fun x hx => Function.update_of_ne (ne_of_mem_of_not_mem (List.mem_cons_of_mem _ hx) hnew) _ _
  have hheight : ∀ x ∈ L, (s.added L key value height new ranks nodes).height x = s.height x :=
    fun x hx => Function.update_of_ne (ne_of_mem_of_not_mem (List.mem_cons_of_mem _ hx) hnew) _ _
  have hnk : (s.added L key value height new ranks nodes).key new = key :=
    Function.update_self ..
  have hnh : (s.added L key value height new ranks nodes).height new = height :=
    Function.update_self ..
  have hne : new ≠ s.head := fun he => hnew (by simp [he])
  have hmem : ∀ x, x ∈ below s.key key L ++ new :: above s.key key L ↔ x ∈ L ∨ x = new :=
    fun x => mem_insert_iff
  have hsplit := below_append_above h.sorted key
  generalize ht : s.added L key value height new ranks nodes = t at *
  have hhead : t.head = s.head := by rw [← ht]; rfl
  refine ⟨?_, ?_, ?_, ?_, ?_, ?_, ?_, ?_, ?_, ?_, ?_⟩
  · have hs : Sorted t.key L := h.sorted.congr hkey
    have hins := sorted_insert hs hnk fun y hy he => hx ⟨y, hy, by rw [← hkey y hy, he]⟩
    rwa [below_congr hkey, above_congr hkey] at hins
  · rw [hhead, hmem]
    rintro (hL | he)
    · exact h.head hL
    · exact hne he.symm
  · intro l
    have hlevels : t.levels l = s.addedLevel L key height new l := by rw [← ht]; rfl
    rw [hlevels, hhead, ← hnh]
    exact h.addedLevel_holds hx hnew hhead hkey hheight hnk l
  · intro x hx
    rcases (hmem x).mp hx with hL | rfl
    · rw [hheight x hL]
      exact h.positive x hL
    · rwa [hnh]
  · intro x hx
    rw [hhead, List.mem_cons, hmem, not_or, not_or] at hx
    have hold := h.free x (by simp [hx.1, hx.2.1])
    rw [← ht]
    exact (Function.update_of_ne hx.2.2 _ _).trans hold
  · intro x hx
    have hcur : t.curHeight = max s.curHeight height := by rw [← ht]; rfl
    rcases (hmem x).mp hx with hL | rfl
    · have := h.low x hL
      rw [hheight x hL]
      omega
    · omega
  · have hcur : t.curHeight = max s.curHeight height := by rw [← ht]; rfl
    have hmax' : t.maxHeight = s.maxHeight := by rw [← ht]; rfl
    have := h.current
    omega
  · have hnum : t.numNodes = s.numNodes + 1 := by rw [← ht]; rfl
    have hlen := congrArg List.length hsplit
    rw [List.length_append] at hlen
    rw [hnum, h.size, List.length_append, List.length_cons]
    omega
  · have htail : t.tail = if above s.key key L = [] then some new else s.tail := by
      rw [← ht]
      rfl
    rw [htail, h.tail]
    by_cases ha : above s.key key L = []
    · simp [ha]
    · rw [if_neg ha]
      conv_lhs => rw [← hsplit]
      obtain ⟨x, hi, hcons⟩ := List.exists_cons_of_ne_nil ha
      rw [List.getLast?_append, List.getLast?_append, hcons, List.getLast?_cons_cons]
  · have hit : t.iterator = s.iterator := by rw [← ht]; rfl
    intro x hx
    exact (hmem x).mpr (Or.inl (h.iter x (hit ▸ hx)))
  · have hit : t.riterator = s.riterator := by rw [← ht]; rfl
    intro x hx
    exact (hmem x).mpr (Or.inl (h.riter x (hit ▸ hx)))

end SimpleKit
