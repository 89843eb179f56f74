import SimpleKit.Slist.Refine

/-!
The indices that the skip list uses. Levels stay below the height of the nodes on them, and
below `max_height`; so level_node is long enough. level_rank is one element short: the highest
level has no place in it.
-/
set_option autoImplicit false

namespace SimpleKit
open Linked SortedBy Runs

variable {V : Type}

/-- An index into level_rank, into level_node, or into the levels of a node of some height. -/
inductive SlistIndex where
  | rank : Nat → SlistIndex
  | node : Nat → SlistIndex
  | level : Nat → Nat → SlistIndex
  deriving DecidableEq, Repr

/-- What `slist_new` allocates with malloc. -/
def levelRankSize (height : Nat) : Nat := height

/-- One element is in the struct, the others come behind it. -/
def levelNodeSize (height : Nat) : Nat := 1 + height

def SlistIndex.Within (height : Nat) : SlistIndex → Prop
  | .rank l => l < levelRankSize height
  | .node l => l < levelNodeSize height
  | .level nodeHeight l => l < nodeHeight

def SlistIndex.OffRank : SlistIndex → Prop
  | .rank _ => False
  | _ => True

def Slist.seekUses (s : Slist V) (key : Key) (l : Nat) (passed : List SlistIndex) :
    Nat → SlistPtr → List SlistIndex
  | 0, _ => []
  | fuel+1, node =>
    .level (s.height node) l ::
      match (s.levels l).next node with
      | none => []
      | some n =>
        if 0 < slistKeyCompare key (s.key n) then passed ++ s.seekUses key l passed fuel n else []

def slistDescendUses (s : Slist V) (key : Key) : Nat → SlistPtr → List SlistIndex
  | 0, _ => []
  | l+1, node =>
    .rank l :: (if l+1 = s.curHeight then [] else [.rank (l+1)]) ++
      s.seekUses key l [.rank l] s.fuel node ++ .node l ::
        match s.seek key l s.fuel node 0 with
        | none => []
        | some x => slistDescendUses s key l x.1

def slistPadUses (curHeight : Nat) : Nat → List SlistIndex
  | 0 => []
  | n+1 => .node (curHeight + n) :: .rank (curHeight + n) :: slistPadUses curHeight n

/-- The links of a level do not matter for the levels below it. -/
def slistLinkUses (s : Slist V) (new : SlistPtr) : Nat → List SlistIndex
  | 0 => []
  | l+1 =>
    .node l :: .rank 0 :: .rank l :: .level (s.height new) l ::
      ((s.levelNode l).toList.flatMap fun node => .level (s.height node) l ::
        ((s.levels l).next node).toList.map fun n => .level (s.height n) l) ++
      slistLinkUses s new l

def slistBumpUses (s : Slist V) : Nat → Nat → List SlistIndex
  | 0, _ => []
  | n+1, l =>
    .node l ::
      ((s.levelNode l).toList.map fun node => .level (s.height node) l) ++
      slistBumpUses s n (l+1)

/-- What `slist_insert` uses after it has drawn a height, up to the look at the new node for
the tail. -/
def slistAddNodeUses (s : Slist V) (key : Key) (value : V) (height : Nat) (new : SlistPtr) :
    List SlistIndex :=
  let s1 := slistNewNode (slistPad (height - s.curHeight) s) new key height value
  slistPadUses s.curHeight (height - s.curHeight) ++ slistLinkUses s1 new height ++
    (if s.curHeight ≤ height then [] else slistBumpUses s1 (s.curHeight - height) height) ++
    [.level height 0]

def slistInsertUses (s : Slist V) (key : Key) (value : V) (coins : List Bool) (new : SlistPtr) :
    List SlistIndex :=
  slistDescendUses s key s.curHeight s.head ++
    match slistDescend key s.curHeight s.head s with
    | none => []
    | some x =>
      .level (s.height x.2) 0 :: if x.1.nextHasKey x.2 key then []
        else slistAddNodeUses x.1 key value (slistChooseHeight x.1.maxHeight coins) new

def Slist.searchLevelUses (s : Slist V) (key : Key) (l : Nat) : Nat → SlistPtr → List SlistIndex
  | 0, _ => []
  | fuel+1, node =>
    .level (s.height node) l ::
      match (s.levels l).next node with
      | none => []
      | some n => if 0 < slistKeyCompare key (s.key n) then s.searchLevelUses key l fuel n else []

def Slist.searchUses (s : Slist V) (key : Key) : Nat → SlistPtr → List SlistIndex
  | 0, _ => []
  | l+1, node =>
    s.searchLevelUses key l s.fuel node ++
      match s.searchLevel key l s.fuel node 0 with
      | some (node, _, none) => s.searchUses key l node
      | _ => []

def slistUnlinkUses (s : Slist V) (node : SlistPtr) : Nat → SlistPtr → List SlistIndex
  | 0, _ => []
  | l+1, cur =>
    s.seekUses (s.key node) l [] s.fuel cur ++
      match s.seek (s.key node) l s.fuel cur 0 with
      | none => []
      | some x =>
        .level (s.height x.1) l ::
          (if (s.levels l).next x.1 = some node then
            .level (s.height node) l ::
              ((s.levels l).prev node).toList.map (fun p => .level (s.height p) l) ++
              ((s.levels l).next node).toList.map (fun n => .level (s.height n) l)
          else []) ++ slistUnlinkUses s node l x.1

def slistShrinkUses : Nat → Slist V → List SlistIndex
  | 0, _ => []
  | l+1, s =>
    if 1 < s.curHeight then
      .level (s.height s.head) l ::
        if (s.levels l).next s.head = none then
          slistShrinkUses l { s with curHeight := s.curHeight - 1 }
        else []
    else []

/-- The neighbours of the node on level 0 are looked at for the tail and the iterators. -/
def slistEraseNodeUses (s : Slist V) (node : SlistPtr) : List SlistIndex :=
  slistUnlinkUses s node s.curHeight s.head ++ .level (s.height node) 0 ::
    match slistUnlink node s.curHeight s.head s with
    | none => []
    | some s => slistShrinkUses s.curHeight s

def slistUses (s : Slist V) : SlistOp V → List SlistIndex
  | .insert key value coins new => slistInsertUses s key value coins new
  | .erase key =>
    s.searchUses key s.curHeight s.head ++
      match slistFindNode s key with
      | some (some node) => slistEraseNodeUses s node
      | _ => []
  | .find key | .rank key => s.searchUses key s.curHeight s.head
  | .front | .beginIterate => [.level (s.height s.head) 0]
  | .popFront =>
    .level (s.height s.head) 0 ::
      match (s.levels 0).next s.head with
      | some node => slistEraseNodeUses s node
      | none => []
  | .popBack =>
    match s.tail with
    | some node => slistEraseNodeUses s node
    | none => []
  | .iterate => s.iterator.toList.map fun node => .level (s.height node) 0
  | .riterate => s.riterator.toList.map fun node => .level (s.height node) 0
  | .back | .size | .endIterate | .beginRiterate | .endRiterate => []

def slistFreeUses (s : Slist V) : Nat → SlistPtr → List SlistIndex
  | 0, _ => []
  | fuel+1, node =>
    .level (s.height node) 0 ::
      match (s.levels 0).next node with
      | none => []
      | some n => slistFreeUses s fuel n

/-- The scratch indices are below `c`, and those of the levels of nodes below their heights. -/
def SlistIndex.Below (c : Nat) : SlistIndex → Prop
  | .rank l => l < c
  | .node l => l < c
  | .level nodeHeight l => l < nodeHeight

/-- The number of levels whose scratch entries a call uses. -/
def slistReach (s : Slist V) : SlistOp V → Nat
  | .insert key _ coins _ =>
    if slistFindNode s key = some none then max s.curHeight (slistChooseHeight s.maxHeight coins)
    else s.curHeight
  | _ => 0

variable {s : Slist V} {L : List SlistPtr} {key : Key} {i : SlistIndex} {c : Nat}

theorem Slist.Rep.fresh_notMem (h : s.Rep L) {value : V} {coins : List Bool} {new : SlistPtr}
    (hop : FreshNode s (.insert key value coins new)) : new ∉ s.head :: L := by
  rw [List.mem_cons, not_or]
  refine ⟨hop.1, fun hm => ?_⟩
  have := h.positive new hm
  have := hop.2
  omega

theorem Slist.Rep.find_none (h : s.Rep L) :
    slistFindNode s key = some none ↔ ¬ ∃ x ∈ L, s.key x = key := by
  rw [h.findNode, Option.some.injEq, List.find?_eq_none]
  simp

/-- The head reaches the highest level. -/
def Slist.Tall (s : Slist V) : Prop := s.height s.head = s.maxHeight ∧ 0 < s.maxHeight

def Slist.on (s : Slist V) (L : List SlistPtr) (l : Nat) (x : SlistPtr) : Prop :=
  x ∈ s.head :: s.level L l

theorem Slist.on_lower {l : Nat} {x : SlistPtr} (h : s.on L (l+1) x) : s.on L l x := by
  refine List.cons_subset_cons _ (fun y hy => ?_) h
  obtain ⟨hL, hlt⟩ := Slist.mem_level.mp hy
  exact Slist.mem_level.mpr ⟨hL, Nat.lt_of_succ_lt hlt⟩

theorem Slist.Rep.curHeight_le (h : s.Rep L) (ht : s.Tall) : s.curHeight ≤ s.maxHeight :=
  Nat.le_trans h.current.2 (Nat.max_le.mpr ⟨ht.2, Nat.le_refl _⟩)

theorem Slist.Tall.lt_height (ht : s.Tall) {l : Nat} (hl : l < s.maxHeight) {x : SlistPtr}
    (hx : s.on L l x) : l < s.height x := by
  rcases List.mem_cons.mp hx with rfl | hx
  · rw [ht.1]
    exact hl
  · exact (Slist.mem_level.mp hx).2

theorem Slist.Rep.next_on (h : s.Rep L) {l : Nat} {x y : SlistPtr} (hx : s.on L l x)
    (hn : (s.levels l).next x = some y) : s.on L l y :=
  List.mem_cons_of_mem _ (chain_mem (h.holds l).next hx hn)

section Search
variable {l : Nat} {a : SlistPtr}

theorem Slist.Rep.seekUses_below (h : s.Rep L) (ht : s.Tall) (hl : l < s.maxHeight)
    {passed : List SlistIndex} (hpassed : ∀ i ∈ passed, i.Below c) {fuel : Nat} (ha : s.on L l a)
    (hi : i ∈ s.seekUses key l passed fuel a) : i.Below c := by
  induction fuel generalizing a with
  | zero => cases hi
  | succ fuel ih =>
    rw [Slist.seekUses] at hi
    rcases List.mem_cons.mp hi with rfl | hi
    · exact ht.lt_height hl ha
    · split at hi
      · cases hi
      · next n hn =>
        split at hi
        · rcases List.mem_append.mp hi with hi | hi
          · exact hpassed i hi
          · exact ih (h.next_on ha hn) hi
        · cases hi

theorem Slist.Rep.seek_on (h : s.Rep L) {fuel : Nat} {rank : UInt64} {x : SlistPtr × UInt64}
    (ha : s.on L l a) (hx : s.seek key l fuel a rank = some x) : s.on L l x.1 := by
  induction fuel generalizing a rank with
  | zero => cases hx
  | succ fuel ih =>
    rw [Slist.seek] at hx
    split at hx
    · cases hx
      exact ha
    · next n hn =>
      split at hx
      · exact ih (h.next_on ha hn) hx
      · cases hx
        exact ha

theorem Slist.Rep.descendUses_below (h : s.Rep L) (ht : s.Tall) {n : Nat} (hn : n ≤ s.curHeight)
    (ha : ∀ l, l + 1 = n → s.on L l a) (hi : i ∈ slistDescendUses s key n a) :
    i.Below s.curHeight := by
  induction n generalizing a with
  | zero => cases hi
  | succ l ih =>
    have hrank : (SlistIndex.rank l).Below s.curHeight := Nat.lt_of_succ_le hn
    simp only [slistDescendUses, List.cons_append, List.mem_cons, List.mem_append] at hi
    rcases hi with rfl | (hi | hi) | rfl | hi
    · exact hrank
    · split at hi
      · cases hi
      · next hne =>
        rw [List.mem_singleton.mp hi]
        exact Nat.lt_of_le_of_ne hn hne
    · refine h.seekUses_below ht (Nat.lt_of_succ_le (Nat.le_trans hn (h.curHeight_le ht)))
        (fun j hj => ?_) (ha l rfl) hi
      rw [List.mem_singleton.mp hj]
      exact hrank
    · exact hrank
    · split at hi
      · cases hi
      · next x hx =>
        refine ih (Nat.le_of_succ_le hn) (fun l' hl' => ?_) hi
        subst hl'
        exact Slist.on_lower (h.seek_on (ha _ rfl) hx)

theorem Slist.Rep.searchLevelUses_below (h : s.Rep L) (ht : s.Tall) (hl : l < s.maxHeight)
    {fuel : Nat} (ha : s.on L l a) (hi : i ∈ s.searchLevelUses key l fuel a) : i.Below c := by
  induction fuel generalizing a with
  | zero => cases hi
  | succ fuel ih =>
    rw [Slist.searchLevelUses] at hi
    rcases List.mem_cons.mp hi with rfl | hi
    · exact ht.lt_height hl ha
    · split at hi
      · cases hi
      · next n hn =>
        split at hi
        · exact ih (h.next_on ha hn) hi
        · cases hi

theorem Slist.Rep.searchLevel_on (h : s.Rep L) {fuel : Nat} {rank : UInt64}
    {x : SlistPtr × UInt64 × Option SlistPtr} (ha : s.on L l a)
    (hx : s.searchLevel key l fuel a rank = some x) : s.on L l x.1 := by
  induction fuel generalizing a rank with
  | zero => cases hx
  | succ fuel ih =>
    rw [Slist.searchLevel] at hx
    split at hx
    · cases hx
      exact ha
    · next n hn =>
      dsimp only at hx
      split at hx
      · cases hx
        exact ha
      · split at hx
        · cases hx
          exact ha
        · exact ih (h.next_on ha hn) hx

theorem Slist.Rep.searchUses_below (h : s.Rep L) (ht : s.Tall) {n : Nat} (hn : n ≤ s.curHeight)
    (ha : ∀ l, l + 1 = n → s.on L l a) (hi : i ∈ s.searchUses key n a) : i.Below c := by
  induction n generalizing a with
  | zero => cases hi
  | succ l ih =>
    rw [Slist.searchUses, List.mem_append] at hi
    rcases hi with hi | hi
    · exact h.searchLevelUses_below ht (Nat.lt_of_succ_le (Nat.le_trans hn (h.curHeight_le ht)))
        (ha l rfl) hi
    · split at hi
      · next x _ hx =>
        refine ih (Nat.le_of_succ_le hn) (fun l' hl' => ?_) hi
        subst hl'
        exact Slist.on_lower (h.searchLevel_on (ha _ rfl) hx)
      · cases hi

end Search

section Erase
variable {node : SlistPtr}

theorem Slist.Rep.unlinkUses_below (h : s.Rep L) (ht : s.Tall) {n : Nat} (hn : n ≤ s.curHeight)
    {a : SlistPtr} (ha : ∀ l, l + 1 = n → s.on L l a) (hi : i ∈ slistUnlinkUses s node n a) :
    i.Below c := by
  induction n generalizing a with
  | zero => cases hi
  | succ l ih =>
    have hl : l < s.maxHeight := Nat.lt_of_succ_le (Nat.le_trans hn (h.curHeight_le ht))
    rw [slistUnlinkUses, List.mem_append] at hi
    rcases hi with hi | hi
    · exact h.seekUses_below ht hl (fun j hj => absurd hj List.not_mem_nil) (ha l rfl) hi
    · split at hi
      · cases hi
      · next x hx =>
        have hon := h.seek_on (ha l rfl) hx
        rw [List.cons_append, List.mem_cons, List.mem_append] at hi
        rcases hi with rfl | hi | hi
        · exact ht.lt_height hl hon
        · split at hi
          · next hnext =>
            have hnode : node ∈ s.level L l := chain_mem (h.holds l).next hon hnext
            rw [List.mem_append, List.mem_cons, List.mem_map, List.mem_map] at hi
            simp only [Option.mem_toList] at hi
            rcases hi with (rfl | ⟨p, hp, rfl⟩) | ⟨m, hm, rfl⟩
            · exact ht.lt_height hl (List.mem_cons_of_mem _ hnode)
            · exact ht.lt_height hl (back_mem (h.holds l).prev hnode hp)
            · exact ht.lt_height hl (h.next_on (List.mem_cons_of_mem _ hnode) hm)
          · cases hi
        · refine ih (Nat.le_of_succ_le hn) (fun l' hl' => ?_) hi
          subst hl'
          exact Slist.on_lower hon

theorem slistShrinkUses_below {n : Nat} {s : Slist V} (hn : n ≤ s.height s.head)
    (hi : i ∈ slistShrinkUses n s) : i.Below c := by
  induction n generalizing s with
  | zero => cases hi
  | succ l ih =>
    rw [slistShrinkUses] at hi
    split at hi
    · rcases List.mem_cons.mp hi with rfl | hi
      · exact Nat.lt_of_succ_le hn
      · split at hi
        · exact ih (s := { s with curHeight := s.curHeight - 1 }) (Nat.le_of_succ_le hn) hi
        · cases hi
    · cases hi

theorem Slist.Rep.eraseNodeUses_below (h : s.Rep L) (ht : s.Tall) (hnode : node ∈ L)
    (hi : i ∈ slistEraseNodeUses s node) : i.Below c := by
  obtain ⟨lo, hi', rfl⟩ := List.append_of_mem hnode
  have hunlink : slistUnlink node s.curHeight s.head s = some { s with
      levels := fun l => if l < s.curHeight then s.erasedLevel lo node l else s.levels l } :=
    h.unlink_from (fun _ _ => rfl) (fun _ _ => Or.inl rfl)
  rw [slistEraseNodeUses, hunlink, List.mem_append, List.mem_cons] at hi
  rcases hi with hi | rfl | hi
  · exact h.unlinkUses_below ht (Nat.le_refl _) (fun _ _ => List.mem_cons_self) hi
  · exact h.positive node hnode
  · refine slistShrinkUses_below ?_ hi
    change s.curHeight ≤ s.height s.head
    rw [ht.1]
    exact h.curHeight_le ht

end Erase

section Insert
variable {new : SlistPtr} {height : Nat}

theorem slistPadUses_below {n : Nat} (hn : s.curHeight + n ≤ c)
    (hi : i ∈ slistPadUses s.curHeight n) : i.Below c := by
  induction n with
  | zero => cases hi
  | succ n ih =>
    rw [slistPadUses, List.mem_cons, List.mem_cons] at hi
    rcases hi with rfl | rfl | hi
    · exact hn
    · exact hn
    · exact ih (Nat.le_of_succ_le hn) hi

/-- The predecessors of the new node, and what comes after them, reach their levels. -/
structure Slist.Linkable (t : Slist V) (l : Nat) : Prop where
  node : ∀ x, t.levelNode l = some x → l < t.height x
  next : ∀ x y, t.levelNode l = some x → (t.levels l).next x = some y → l < t.height y

theorem slistLinkUses_below {t : Slist V} {n : Nat} (hn : n ≤ c) (hnew : n ≤ t.height new)
    (hlink : ∀ l < n, t.Linkable l) (hi : i ∈ slistLinkUses t new n) : i.Below c := by
  induction n with
  | zero => cases hi
  | succ l ih =>
    have hl := hlink l (Nat.lt_succ_self l)
    simp only [slistLinkUses, List.cons_append, List.mem_cons, List.mem_append, List.mem_flatMap,
      Option.mem_toList, List.mem_map] at hi
    rcases hi with rfl | rfl | rfl | rfl | ⟨x, hx, rfl | ⟨y, hy, rfl⟩⟩ | hi
    · exact hn
    · exact Nat.lt_of_lt_of_le (Nat.succ_pos l) hn
    · exact hn
    · exact hnew
    · exact hl.node x hx
    · exact hl.next x y hx hy
    · exact ih (Nat.le_of_succ_le hn) (Nat.le_of_succ_le hnew)
        (fun l' hl' => hlink l' (Nat.lt_succ_of_lt hl')) hi

theorem slistBumpUses_below {t : Slist V} {n l : Nat} (hn : l + n ≤ c)
    (hlink : ∀ l' < l + n, t.Linkable l') (hi : i ∈ slistBumpUses t n l) : i.Below c := by
  induction n generalizing l with
  | zero => cases hi
  | succ n ih =>
    simp only [slistBumpUses, List.cons_append, List.mem_cons, List.mem_append, List.mem_map,
      Option.mem_toList] at hi
    have hsum : l + 1 + n = l + (n + 1) := by omega
    rcases hi with rfl | ⟨x, hx, rfl⟩ | hi
    · exact Nat.lt_of_lt_of_le (Nat.lt_add_of_pos_right (Nat.succ_pos n)) hn
    · exact (hlink l (Nat.lt_add_of_pos_right (Nat.succ_pos n))).node x hx
    · exact ih (hsum ▸ hn) (hsum ▸ hlink) hi

theorem Slist.Rep.addNodeUses_below (h : s.Rep L) (ht : s.Tall) (hpos : 0 < height)
    (hmax : height ≤ s.maxHeight) (value : V) (hnew : new ∉ s.head :: L) {ranks : Nat → UInt64}
    {nodes : Nat → Option SlistPtr}
    (hnodes : ∀ l < s.curHeight, nodes l = some (s.pred L key l))
    (hi : i ∈
      slistAddNodeUses { s with levelRank := ranks, levelNode := nodes } key value height new) :
    i.Below (max s.curHeight height) := by
  have hheight : ∀ x ∈ s.head :: L, Function.update s.height new height x = s.height x :=
    fun x hx => Function.update_of_ne (ne_of_mem_of_not_mem hx hnew) _ _
  have hon : ∀ l x, s.on L l x → x ∈ s.head :: L := fun l x hx =>
    List.cons_subset_cons _ (fun y hy => (Slist.mem_level.mp hy).1) hx
  have hpred : ∀ l, s.on L l (s.pred L key l) := fun l =>
    last_mem_of_subset _ fun x hx => (mem_below.mp hx).1
  generalize ht1 : slistNewNode (slistPad (height - s.curHeight)
    { s with levelRank := ranks, levelNode := nodes }) new key height value = t
  have hlink : ∀ l < max s.curHeight height, t.Linkable l := by
    intro l hl
    have hlm : l < s.maxHeight :=
      Nat.lt_of_lt_of_le hl (Nat.max_le.mpr ⟨h.curHeight_le ht, hmax⟩)
    have hnode : t.levelNode l = some (s.pred L key l) := by
      rw [← ht1, slistPad_eq]
      change (if s.curHeight ≤ l ∧ l < s.curHeight + (height - s.curHeight) then some s.head
        else nodes l) = _
      split
      · next hc =>
        rw [Slist.pred, h.level_high hc.1]
        rfl
      · exact hnodes l (by omega)
    have hth : t.height = Function.update s.height new height := by
      rw [← ht1, slistPad_eq]
      rfl
    have htl : (t.levels l).next = Function.update (s.levels l).next new none := by
      rw [← ht1, slistPad_eq]
      rfl
    refine ⟨fun x hx => ?_, fun x y hx hy => ?_⟩
    · obtain rfl := Option.some.inj (hnode.symm.trans hx)
      rw [hth, hheight _ (hon l _ (hpred l))]
      exact ht.lt_height hlm (hpred l)
    · obtain rfl := Option.some.inj (hnode.symm.trans hx)
      rw [htl, Function.update_of_ne (ne_of_mem_of_not_mem (hon l _ (hpred l)) hnew)] at hy
      have hony := h.next_on (hpred l) hy
      rw [hth, hheight _ (hon l _ hony)]
      exact ht.lt_height hlm hony
  have hnewh : t.height new = height := by
    rw [← ht1]
    exact Function.update_self ..
  rw [slistAddNodeUses, ht1, List.mem_append, List.mem_append, List.mem_append,
    List.mem_singleton] at hi
  rcases hi with ((hi | hi) | hi) | rfl
  · have hi' : i ∈ slistPadUses s.curHeight (height - s.curHeight) := hi
    by_cases hle : s.curHeight ≤ height
    · exact slistPadUses_below (by omega) hi'
    · rw [Nat.sub_eq_zero_of_le (Nat.le_of_not_le hle)] at hi'
      cases hi'
  · exact slistLinkUses_below (Nat.le_max_right _ _) (Nat.le_of_eq hnewh.symm)
      (fun l hl => hlink l (Nat.lt_of_lt_of_le hl (Nat.le_max_right _ _))) hi
  · split at hi
    · cases hi
    · next hlt =>
      have hlt' : height < s.curHeight := Nat.lt_of_not_le hlt
      have hsum : height + (s.curHeight - height) = s.curHeight := by omega
      refine slistBumpUses_below (n := s.curHeight - height) (by omega) (fun l hl => ?_) hi
      exact hlink l (by omega)
  · exact hpos

theorem slistLinkUses_top {t : Slist V} {n : Nat} (hn : 0 < n) :
    SlistIndex.rank (n - 1) ∈ slistLinkUses t new n := by
  obtain ⟨l, rfl⟩ : ∃ l, n = l + 1 := ⟨n - 1, by omega⟩
  simp [slistLinkUses]

theorem slistDescendUses_top {a : SlistPtr} {n : Nat} (hn : 0 < n) :
    SlistIndex.rank (n - 1) ∈ slistDescendUses s key n a := by
  obtain ⟨l, rfl⟩ : ∃ l, n = l + 1 := ⟨n - 1, by omega⟩
  simp [slistDescendUses]

theorem Slist.Rep.insertUses (h : s.Rep L) (ht : s.Tall) (key : Key) (value : V)
    (coins : List Bool) (hnew : FreshNode s (.insert key value coins new)) :
    (∀ i ∈ slistInsertUses s key value coins new,
      i.Below (slistReach s (.insert key value coins new))) ∧
    .rank (slistReach s (.insert key value coins new) - 1) ∈
      slistInsertUses s key value coins new := by
  have hn := h.fresh_notMem hnew
  obtain ⟨hpos, hmax⟩ := chooseHeightFrom_bounds s.maxHeight coins 1
  change 0 < slistChooseHeight s.maxHeight coins at hpos
  change slistChooseHeight s.maxHeight coins ≤ max 1 s.maxHeight at hmax
  rw [Nat.max_eq_right ht.2] at hmax
  have hpred : s.on L 0 (s.pred L key 0) := last_mem_of_subset _ fun x hx => (mem_below.mp hx).1
  have hmono : ∀ {i : SlistIndex} {c d : Nat}, i.Below c → c ≤ d → i.Below d := by
    intro i c d hi hle
    cases i with
    | rank l => exact Nat.lt_of_lt_of_le hi hle
    | node l => exact Nat.lt_of_lt_of_le hi hle
    | level nodeHeight l => exact hi
  have hdescend : ∀ i ∈ slistDescendUses s key s.curHeight s.head, i.Below s.curHeight :=
    fun i hi => h.descendUses_below ht (Nat.le_refl _) (fun _ _ => List.mem_cons_self) hi
  have htop : .rank (s.curHeight - 1) ∈ slistDescendUses s key s.curHeight s.head :=
    slistDescendUses_top h.current.1
  have hfind : slistFindNode s key = some none ↔ ¬ ∃ x ∈ L, s.key x = key := h.find_none
  rw [slistInsertUses, h.descend_top key, slistReach]
  dsimp only
  have hhas : ∀ ranks nodes,
      ({ s with levelRank := ranks, levelNode := nodes } : Slist V).nextHasKey
      (s.pred L key 0) key = s.nextHasKey (s.pred L key 0) key := fun _ _ => rfl
  rw [hhas]
  have hlevel : ∀ c, (SlistIndex.level (s.height (s.pred L key 0)) 0).Below c := fun c =>
    ht.lt_height ht.2 hpred
  by_cases hx : ∃ x ∈ L, s.key x = key
  · rw [if_pos ((h.nextHasKey key).mpr hx), if_neg (fun hf => hfind.mp hf hx)]
    refine ⟨fun i hi => ?_, List.mem_append_left _ htop⟩
    rcases List.mem_append.mp hi with hi | hi
    · exact hdescend i hi
    · rw [List.mem_singleton.mp hi]
      exact hlevel _
  · rw [if_neg (fun hf => hx ((h.nextHasKey key).mp hf)), if_pos (hfind.mpr hx)]
    refine ⟨fun i hi => ?_, ?_⟩
    · rcases List.mem_append.mp hi with hi | hi
      · exact hmono (hdescend i hi) (Nat.le_max_left _ _)
      · rcases List.mem_cons.mp hi with rfl | hi
        · exact hlevel _
        · exact h.addNodeUses_below ht hpos hmax value hn (fun l hl => if_pos hl) hi
    · rcases Nat.le_total (slistChooseHeight s.maxHeight coins) s.curHeight with hle | hle
      · rw [Nat.max_eq_left hle]
        exact List.mem_append_left _ htop
      · rw [Nat.max_eq_right hle]
        refine List.mem_append_right _ (List.mem_cons_of_mem _ ?_)
        rw [slistAddNodeUses]
        refine List.mem_append_left _ (List.mem_append_left _ (List.mem_append_right _ ?_))
        exact slistLinkUses_top hpos

end Insert

theorem Slist.Rep.uses (h : s.Rep L) (ht : s.Tall) {op : SlistOp V} (hop : FreshNode s op) :
    (∀ i ∈ slistUses s op, i.Below (slistReach s op)) ∧
      (0 < slistReach s op → .rank (slistReach s op - 1) ∈ slistUses s op) := by
  have hhead : ∀ c, (SlistIndex.level (s.height s.head) 0).Below c := fun c =>
    ht.lt_height (L := L) ht.2 List.mem_cons_self
  have hsearch : ∀ key, ∀ i ∈ s.searchUses key s.curHeight s.head, i.Below 0 := fun key i hi =>
    h.searchUses_below ht (Nat.le_refl _) (fun _ _ => List.mem_cons_self) hi
  have hone : ∀ i ∈ [SlistIndex.level (s.height s.head) 0], i.Below 0 := by
    intro i hi
    rw [List.mem_singleton.mp hi]
    exact hhead 0
  have hempty : ∀ i ∈ ([] : List SlistIndex), i.Below 0 := fun i hi => absurd hi List.not_mem_nil
  have hiter : ∀ it : Option SlistPtr, (∀ x, it = some x → x ∈ L) →
      ∀ i ∈ it.toList.map fun node => SlistIndex.level (s.height node) 0, i.Below 0 := by
    intro it hit i hi
    obtain ⟨x, hx, rfl⟩ := List.mem_map.mp hi
    exact h.positive x (hit x (Option.mem_toList.mp hx))
  cases op with
  | insert key value coins new =>
    obtain ⟨hall, htop⟩ := h.insertUses ht key value coins hop
    exact ⟨hall, fun _ => htop⟩
  | erase key =>
    refine ⟨fun i hi => ?_, fun hlt => absurd hlt (Nat.lt_irrefl 0)⟩
    rcases List.mem_append.mp hi with hi | hi
    · exact hsearch key i hi
    · split at hi
      · next node hnode =>
        rw [h.findNode, Option.some.injEq] at hnode
        exact h.eraseNodeUses_below ht (List.mem_of_find?_eq_some hnode) hi
      · cases hi
  | find key => exact ⟨hsearch key, fun hlt => absurd hlt (Nat.lt_irrefl 0)⟩
  | rank key => exact ⟨hsearch key, fun hlt => absurd hlt (Nat.lt_irrefl 0)⟩
  | front => exact ⟨hone, fun hlt => absurd hlt (Nat.lt_irrefl 0)⟩
  | beginIterate => exact ⟨hone, fun hlt => absurd hlt (Nat.lt_irrefl 0)⟩
  | popFront =>
    refine ⟨fun i hi => ?_, fun hlt => absurd hlt (Nat.lt_irrefl 0)⟩
    rcases List.mem_cons.mp hi with rfl | hi
    · exact hhead 0
    · split at hi
      · next node hnode =>
        rw [h.front] at hnode
        exact h.eraseNodeUses_below ht (List.mem_of_mem_head? hnode) hi
      · cases hi
  | popBack =>
    refine ⟨fun i hi => ?_, fun hlt => absurd hlt (Nat.lt_irrefl 0)⟩
    rw [slistUses] at hi
    split at hi
    · next node hnode =>
      rw [h.tail] at hnode
      exact h.eraseNodeUses_below ht (List.mem_of_getLast? hnode) hi
    · cases hi
  | iterate => exact ⟨hiter _ h.iter, fun hlt => absurd hlt (Nat.lt_irrefl 0)⟩
  | riterate => exact ⟨hiter _ h.riter, fun hlt => absurd hlt (Nat.lt_irrefl 0)⟩
  | back => exact ⟨hempty, fun hlt => absurd hlt (Nat.lt_irrefl 0)⟩
  | size => exact ⟨hempty, fun hlt => absurd hlt (Nat.lt_irrefl 0)⟩
  | endIterate => exact ⟨hempty, fun hlt => absurd hlt (Nat.lt_irrefl 0)⟩
  | beginRiterate => exact ⟨hempty, fun hlt => absurd hlt (Nat.lt_irrefl 0)⟩
  | endRiterate => exact ⟨hempty, fun hlt => absurd hlt (Nat.lt_irrefl 0)⟩

section Run
variable {s' : Slist V}

/-- The list after a call: the head is the same, and no level is current that was not reached. -/
structure Slist.Framed (s s' : Slist V) (reach : Nat) : Prop where
  head : s'.head = s.head
  maxHeight : s'.maxHeight = s.maxHeight
  height : s'.height s.head = s.height s.head
  curHeight : s'.curHeight ≤ max s.curHeight reach

theorem Slist.Framed.refl (s : Slist V) (reach : Nat) : s.Framed s reach :=
  ⟨rfl, rfl, rfl, Nat.le_max_left _ _⟩

theorem Slist.Rep.insert_framed (h : s.Rep L) {key : Key} {value : V} {coins : List Bool}
    {new : SlistPtr} (hop : FreshNode s (.insert key value coins new)) {ret : Int}
    (hs : slistInsert s key value coins new = some (s', ret)) :
    s.Framed s' (slistReach s (.insert key value coins new)) := by
  by_cases hx : ∃ x ∈ L, s.key x = key
  · obtain ⟨ranks, nodes, hins⟩ := h.insert_found hx value coins new
    rw [hins] at hs
    cases hs
    exact ⟨rfl, rfl, rfl, Nat.le_max_left _ _⟩
  · have hn : new ∉ s.head :: L := h.fresh_notMem hop
    obtain ⟨ranks, nodes, hins⟩ := h.insert_new hx value coins hn
    rw [hins] at hs
    cases hs
    refine ⟨rfl, rfl, ?_, ?_⟩
    · exact Function.update_of_ne (ne_of_mem_of_not_mem List.mem_cons_self hn) _ _
    · rw [slistReach, if_pos (h.find_none.mpr hx)]
      exact Nat.le_max_right _ _

/-- An insertion that leaves the highest level alone. A list of height 0 has no other level. -/
def SlistSpares (height : Nat) (s : Slist V) : SlistOp V → Prop
  | .insert key _ coins _ => 0 < height ∧
    (slistFindNode s key = some none → slistChooseHeight s.maxHeight coins ≤ height)
  | _ => True

instance (height : Nat) (s : Slist V) : (op : SlistOp V) → Decidable (SlistSpares height s op)
  | .insert key _ coins _ => inferInstanceAs (Decidable (0 < height ∧
      (slistFindNode s key = some none → slistChooseHeight s.maxHeight coins ≤ height)))
  | .erase _ | .find _ | .front | .back | .popFront | .popBack | .size | .rank _
  | .beginIterate | .iterate | .endIterate | .beginRiterate | .riterate | .endRiterate =>
    .isTrue trivial

structure Slist.Sized (height : Nat) (s : Slist V) : Prop where
  refines : ∃ m, s.Refines m
  tall : s.Tall
  maxHeight : s.maxHeight = height + 1

theorem slistReach_le {height : Nat} (h : s.Sized height) (op : SlistOp V) :
    slistReach s op ≤ height + 1 := by
  obtain ⟨m, L, hrep, -⟩ := h.refines
  have hcur := hrep.curHeight_le h.tall
  have hmax := h.maxHeight
  cases op with
  | insert key value coins new =>
    have hdrawn := (chooseHeightFrom_bounds s.maxHeight coins 1).2
    change slistChooseHeight s.maxHeight coins ≤ max 1 s.maxHeight at hdrawn
    rw [slistReach]
    split
    · exact Nat.max_le.mpr ⟨by omega, by omega⟩
    · omega
  | _ => exact Nat.zero_le _

/-- While level_rank has been long enough, it is so for a call that spares the highest level. -/
theorem slistReach_spares {height : Nat} (h : s.Sized height)
    (hcur : 0 < height → s.curHeight ≤ height) (op : SlistOp V) :
    slistReach s op ≤ height ↔ SlistSpares height s op := by
  obtain ⟨m, L, hrep, -⟩ := h.refines
  have hpos := hrep.current.1
  cases op with
  | insert key value coins new =>
    rw [slistReach, SlistSpares]
    split
    · next hnone =>
      rw [imp_iff_right hnone, Nat.max_le]
      exact ⟨fun hle => ⟨Nat.lt_of_lt_of_le hpos hle.1, hle.2⟩, fun hle => ⟨hcur hle.1, hle.2⟩⟩
    · next hsome =>
      exact ⟨fun hle => ⟨Nat.lt_of_lt_of_le hpos hle, fun hnone => absurd hnone hsome⟩,
        fun hle => hcur hle.1⟩
  | _ => exact iff_of_true (Nat.zero_le _) trivial

theorem slistFreeUses_within {height : Nat} (h : s.Sized height) {fuel : Nat} {a : SlistPtr}
    {L : List SlistPtr} (hrep : s.Rep L) (ha : s.on L 0 a) (hi : i ∈ slistFreeUses s fuel a) :
    i.Within height := by
  induction fuel generalizing a with
  | zero => cases hi
  | succ fuel ih =>
    rw [slistFreeUses] at hi
    rcases List.mem_cons.mp hi with rfl | hi
    · exact h.tall.lt_height h.tall.2 ha
    · split at hi
      · cases hi
      · next n hn => exact ih (hrep.next_on ha hn) hi

variable [Inhabited V]

theorem Slist.Rep.erase_framed (h : s.Rep L) {node : SlistPtr} (hnode : node ∈ L) {ret : Int}
    (hs : slistEraseAt s (some node) = some (s', ret)) (reach : Nat) : s.Framed s' reach := by
  obtain ⟨lo, hi, rfl⟩ := List.append_of_mem hnode
  obtain ⟨c, -, hcl, -, herase⟩ := h.eraseNode
  rw [slistEraseAt, herase] at hs
  cases hs
  refine ⟨rfl, rfl, ?_, Nat.le_trans hcl (Nat.le_max_left _ _)⟩
  exact Function.update_of_ne (ne_of_mem_of_not_mem hnode h.head).symm _ _

theorem Slist.Rep.step_framed (h : s.Rep L) {op : SlistOp V} (hop : FreshNode s op)
    {ret : SlistRet V} (hs : slistStep s op = some (s', ret)) : s.Framed s' (slistReach s op) := by
  cases op with
  | insert key value coins new =>
    obtain ⟨⟨s1, r⟩, hins, heq⟩ := Option.map_eq_some_iff.mp hs
    cases heq
    exact h.insert_framed hop hins
  | erase key =>
    obtain ⟨⟨s1, r⟩, herase, heq⟩ := Option.map_eq_some_iff.mp hs
    cases heq
    rw [slistErase, h.findNode, Option.bind_eq_bind, Option.bind_some] at herase
    cases hf : L.find? fun x => s.key x = key with
    | none =>
      rw [hf] at herase
      cases herase
      exact .refl _ _
    | some node =>
      rw [hf] at herase
      exact h.erase_framed (List.mem_of_find?_eq_some hf) herase _
  | popFront =>
    obtain ⟨⟨s1, r⟩, hpop, heq⟩ := Option.map_eq_some_iff.mp hs
    cases heq
    rw [slistPopFront, h.front] at hpop
    cases hf : L.head? with
    | none =>
      rw [hf] at hpop
      cases hpop
      exact .refl _ _
    | some node =>
      rw [hf] at hpop
      exact h.erase_framed (List.mem_of_mem_head? hf) hpop _
  | popBack =>
    obtain ⟨⟨s1, r⟩, hpop, heq⟩ := Option.map_eq_some_iff.mp hs
    cases heq
    rw [slistPopBack, h.tail] at hpop
    cases hf : L.getLast? with
    | none =>
      rw [hf] at hpop
      cases hpop
      exact .refl _ _
    | some node =>
      rw [hf] at hpop
      exact h.erase_framed (List.mem_of_getLast? hf) hpop _
  | find key =>
    obtain ⟨v, -, heq⟩ := Option.map_eq_some_iff.mp hs
    cases heq
    exact .refl _ _
  | rank key =>
    obtain ⟨v, -, heq⟩ := Option.map_eq_some_iff.mp hs
    cases heq
    exact .refl _ _
  | iterate =>
    cases hs
    unfold slistIterate
    cases s.iterator with
    | none => exact .refl _ _
    | some node => exact ⟨rfl, rfl, rfl, Nat.le_max_left _ _⟩
  | riterate =>
    cases hs
    unfold slistRiterate
    cases s.riterator with
    | none => exact .refl _ _
    | some node => exact ⟨rfl, rfl, rfl, Nat.le_max_left _ _⟩
  | _ =>
    cases hs
    exact ⟨rfl, rfl, rfl, Nat.le_max_left _ _⟩

theorem slistNew_tall {height : Nat} (hheight : height + 1 < 2^32) (head : SlistPtr)
    (garbage : Nat → UInt64) : (slistNew height head garbage : Slist V).Tall := by
  have hmod : (height + 1) % 2^32 = height + 1 := Nat.mod_eq_of_lt hheight
  constructor
  · change Function.update (fun _ : SlistPtr => 0) head ((height + 1) % 2^32 : Nat) head = _
    exact Function.update_self ..
  · change 0 < (height + 1) % 2^32
    rw [hmod]
    exact Nat.succ_pos height

theorem Slist.Sized.step {height : Nat} (h : s.Sized height) {op : SlistOp V} (hop : FreshNode s op)
    {ret : SlistRet V} (hs : slistStep s op = some (s', ret)) :
    s'.Sized height ∧ s'.curHeight ≤ max s.curHeight (slistReach s op) := by
  obtain ⟨m, hrefines⟩ := h.refines
  obtain ⟨hhead, hmax, hheight, hcur⟩ := hrefines.choose_spec.1.step_framed hop hs
  obtain ⟨s1, r, hs1, hrefines', -⟩ := slistStep_refines op hrefines hop
  obtain ⟨rfl, -⟩ := Prod.mk.inj (Option.some.inj (hs1.symm.trans hs))
  refine ⟨⟨⟨_, hrefines'⟩, ⟨?_, ?_⟩, hmax.trans h.maxHeight⟩, hcur⟩
  · rw [hhead, hheight, hmax]
    exact h.tall.1
  · rw [hmax]
    exact h.tall.2

theorem slistNew_sized {height : Nat} (hheight : height + 1 < 2^32) (head : SlistPtr)
    (garbage : Nat → UInt64) : (slistNew height head garbage : Slist V).Sized height :=
  ⟨⟨SortedMap.empty, slistNew_refines height head garbage⟩,
    slistNew_tall hheight head garbage, Nat.mod_eq_of_lt hheight⟩

/-- Whatever heights are drawn, the levels of nodes and level_node are long enough; and
level_rank is, exactly if a list that has levels never draws the highest one, and a list that
has none is never inserted into. -/
theorem slist_indices_within {height : Nat} (hheight : height + 1 < 2^32) (head : SlistPtr)
    (garbage : Nat → UInt64) {ops : List (SlistOp V)}
    (hops : Along slistStep FreshNode (slistNew height head garbage) ops) :
    Along slistStep (fun s op => ∀ i ∈ slistUses s op, i.OffRank → i.Within height)
        (slistNew height head garbage) ops ∧
      (∃ s rets, run slistStep (slistNew height head garbage) ops = some (s, rets) ∧
        ∀ i ∈ slistFreeUses s s.fuel s.head, i.Within height) ∧
      (Along slistStep (fun s op => ∀ i ∈ slistUses s op, i.Within height)
          (slistNew height head garbage) ops ↔
        Along slistStep (SlistSpares height) (slistNew height head garbage) ops) := by
  have hnew := slistNew_sized (V := V) hheight head garbage
  have hwithin : ∀ {i : SlistIndex} {c : Nat}, i.Below c → c ≤ height + 1 → i.OffRank →
      i.Within height := by
    intro i c hi hc hoff
    cases i with
    | rank l => cases hoff
    | node l => exact Nat.lt_of_lt_of_le hi (Nat.le_trans hc (Nat.le_of_eq (Nat.add_comm height 1)))
    | level nodeHeight l => exact hi
  refine ⟨?_, ?_, ?_⟩
  · refine (Along.congr_of (Slist.Sized height) FreshNode (fun _ _ => True)
      (fun s op h hop => ⟨iff_of_true trivial fun i hi => ?_, fun _ s' r hs => (h.step hop hs).1⟩)
      hnew hops).mp (Along.of_all fun _ _ _ => trivial)
    obtain ⟨m, L, hrep, -⟩ := h.refines
    exact hwithin ((hrep.uses h.tall hop).1 i hi) (slistReach_le h op)
  · obtain ⟨s, rets, hrun, h⟩ := run_invariant (Slist.Sized height) (fun s op h hop => by
      obtain ⟨m, hrefines⟩ := h.refines
      obtain ⟨s', r, hs, -⟩ := slistStep_refines op hrefines hop
      exact ⟨s', r, hs, (h.step hop hs).1⟩) hnew hops
    obtain ⟨m, L, hrep, -⟩ := h.refines
    exact ⟨s, rets, hrun, fun i hi => slistFreeUses_within h hrep List.mem_cons_self hi⟩
  · refine Along.congr_of (fun s => s.Sized height ∧ (0 < height → s.curHeight ≤ height))
      FreshNode _ (fun s op ⟨h, hcur⟩ hop => ?_)
      ⟨hnew, fun hpos => Nat.succ_le_of_lt hpos⟩ hops
    obtain ⟨m, L, hrep, -⟩ := h.refines
    obtain ⟨hall, htop⟩ := hrep.uses h.tall hop
    have hle : (∀ i ∈ slistUses s op, i.Within height) ↔ slistReach s op ≤ height := by
      constructor
      · intro hi
        rcases Nat.eq_zero_or_pos (slistReach s op) with hzero | hpos
        · rw [hzero]
          exact Nat.zero_le _
        · have hlt : slistReach s op - 1 < height := hi _ (htop hpos)
          omega
      · intro hle i hi
        have hbelow := hall i hi
        cases i with
        | rank l => exact Nat.lt_of_lt_of_le hbelow hle
        | node l => exact hwithin hbelow (slistReach_le h op) trivial
        | level nodeHeight l => exact hbelow
    refine ⟨hle.trans (slistReach_spares h hcur op), fun hi s' r hs => ?_⟩
    obtain ⟨h', hcur'⟩ := h.step hop hs
    exact ⟨h', fun hpos => Nat.le_trans hcur' (Nat.max_le.mpr ⟨hcur hpos, hle.mp hi⟩)⟩

/-- A list of height 0 has one level and no element of level_rank for it. -/
theorem slist_rank_overflows : Along slistStep FreshNode (slistNew 0 0 fun _ => 0)
      [.insert ⟨[1]⟩ (5 : Nat) [] 1] ∧
    ¬ Along slistStep (fun s op => ∀ i ∈ slistUses s op, i.Within 0) (slistNew 0 0 fun _ => 0)
      [.insert ⟨[1]⟩ (5 : Nat) [] 1] :=
  ⟨⟨⟨by decide, rfl⟩, fun _ _ _ => trivial⟩,
    fun h => Nat.lt_irrefl 0 (h.1 (.rank 0) (by decide +kernel))⟩

/-- The first insertion draws the highest level. -/
def slistSparing : List (SlistOp Nat) := slistSampleCalls.drop 1 ++ [.erase ⟨[2]⟩]

theorem slist_indices_within_sample :
    Along slistStep (fun s op => ∀ i ∈ slistUses s op, i.Within 2)
        (slistNew 2 0 fun _ => 0) slistSparing ∧
      Along slistStep (fun s op => ∀ i ∈ slistUses s op, i.OffRank → i.Within 2)
        (slistNew 2 0 fun _ => 0) slistSampleCalls ∧
      (∃ s rets, run slistStep (slistNew 2 0 fun _ => 0) slistSampleCalls = some (s, rets) ∧
        ∀ i ∈ slistFreeUses s s.fuel s.head, i.Within 2) ∧
      ¬ Along slistStep (fun s op => ∀ i ∈ slistUses s op, i.Within 2)
        (slistNew 2 0 fun _ => 0) slistSampleCalls := by
  have hfresh : Along slistStep FreshNode (slistNew 2 0 fun _ => 0) slistSparing := by
    decide +kernel
  have hsparing := (slist_indices_within (by decide) 0 (fun _ => 0) hfresh).2.2
  obtain ⟨hoff, hfree, hiff⟩ := slist_indices_within (by decide) 0 (fun _ => 0)
    slistSampleCalls_fresh
  exact ⟨hsparing.mpr (by decide +kernel), hoff, hfree,
    fun hall => absurd (hiff.mp hall) (by decide +kernel)⟩

end Run

end SimpleKit
