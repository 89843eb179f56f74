import SimpleKit.Lib.Sweep
import SimpleKit.Slist.Refine

set_option autoImplicit false

namespace SimpleKit
open Linked SortedBy Runs Sweep
open Cursor (Event)

variable {V : Type}

inductive SlistDir where
  | forward : SlistDir
  | reverse : SlistDir
  deriving DecidableEq, Repr

/-- The order in which a direction comes to the keys. -/
def SlistDir.before : SlistDir → Key → Key → Prop
  | .forward => fun k k' => k < k'
  | .reverse => fun k k' => k' < k

instance (dir : SlistDir) : IsStrictOrder Key dir.before :=
  match dir with
  | .forward => inferInstanceAs (IsStrictOrder Key fun k k' => k < k')
  | .reverse => inferInstanceAs (IsStrictOrder Key fun k k' => k > k')

def SlistDir.begin : SlistDir → SlistOp V
  | .forward => .beginIterate
  | .reverse => .beginRiterate

def SlistDir.iterate : SlistDir → SlistOp V
  | .forward => .iterate
  | .reverse => .riterate

def SlistDir.finish : SlistDir → SlistOp V
  | .forward => .endIterate
  | .reverse => .endRiterate

def Slist.cursor (s : Slist V) : SlistDir → Option SlistPtr
  | .forward => s.iterator
  | .reverse => s.riterator

def SlistDir.returned : SlistDir → SlistOp V → SlistRet V → Option Key
  | .forward, .iterate, .item key _ => some key
  | .reverse, .riterate, .item key _ => some key
  | _, _, _ => none

def SlistDir.keys (dir : SlistDir) (body : List (SlistOp V × SlistRet V)) : List Key :=
  body.filterMap fun x => dir.returned x.1 x.2

def SlistDir.event (dir : SlistDir) (m : SortedMap Key V) : SlistOp V → SlistRet V → Event Key
  | .insert key _ _ _, _ => .add key
  | .erase key, _ => .drop key
  | .popFront, _ => m.first.elim .quiet fun kv => .drop kv.1
  | .popBack, _ => m.last.elim .quiet fun kv => .drop kv.1
  | op, r => (dir.returned op r).elim .quiet .visit

def keySet (m : SortedMap Key V) : Set Key := {k | k ∈ m.keys}

def Slist.follow (s : Slist V) (node : SlistPtr) : SlistDir → Option SlistPtr
  | .forward => (s.levels 0).next node
  | .reverse => if (s.levels 0).prev node = some s.head then none else (s.levels 0).prev node

/-- What comes first, in a direction, of the nodes on both sides of a node. -/
def SlistDir.neighbour (lo hi : List SlistPtr) : SlistDir → Option SlistPtr
  | .forward => hi.head?
  | .reverse => lo.getLast?

variable {s s' : Slist V} {L lo hi : List SlistPtr} {node : SlistPtr} {m : SortedMap Key V}
  {dir : SlistDir}

theorem Slist.Rep.cursor_mem (h : s.Rep L) : ∀ x, s.cursor dir = some x → x ∈ L := by
  cases dir with
  | forward => exact h.iter
  | reverse => exact h.riter

theorem Slist.Rep.follow (h : s.Rep (lo ++ node :: hi)) :
    s.follow node dir = dir.neighbour lo hi := by
  have hholds := h.holds 0
  rw [h.level_zero] at hholds
  cases dir with
  | forward => exact (chain_next_mid hholds.next).2
  | reverse =>
    have hhead : s.head ∉ lo := fun hm => h.head (List.mem_append_left _ hm)
    rw [Slist.follow, back_mid hholds.prev, SlistDir.neighbour, ← getLast?_eq_last hhead]
    exact if_congr (by rw [Option.some.injEq, eq_comm]) rfl rfl

theorem mem_keySet (hm : m.Lists s.key s.value L) {k : Key} :
    k ∈ keySet m ↔ ∃ x ∈ L, s.key x = k := hm.mem_keys

theorem Slist.Rep.next_key (h : s.Rep (lo ++ node :: hi))
    (hm : m.Lists s.key s.value (lo ++ node :: hi)) :
    Next dir.before (keySet m) (s.key node) ((dir.neighbour lo hi).map s.key) := by
  obtain ⟨hlo, hcut, hlohi⟩ := List.pairwise_append.mp h.sorted
  obtain ⟨hnode, hhi⟩ := List.pairwise_cons.mp hcut
  have hbelow : ∀ x ∈ lo, s.key x < s.key node := fun x hx => hlohi x hx node (by simp)
  have hsplit : ∀ {k : Key}, k ∈ keySet m → (∃ x ∈ lo, s.key x = k) ∨ s.key node = k ∨
      ∃ x ∈ hi, s.key x = k := by
    intro k hk
    obtain ⟨x, hx, rfl⟩ := (mem_keySet hm).mp hk
    simp only [List.mem_append, List.mem_cons] at hx
    rcases hx with hx | rfl | hx
    · exact Or.inl ⟨x, hx, rfl⟩
    · exact Or.inr (Or.inl rfl)
    · exact Or.inr (Or.inr ⟨x, hx, rfl⟩)
  cases dir with
  | forward =>
    have hafter : ∀ k ∈ {k | k ∈ keySet m ∧ SlistDir.forward.before (s.key node) k},
        ∃ x ∈ hi, s.key x = k := by
      rintro k ⟨hk, hlt⟩
      rcases hsplit hk with ⟨x, hx, rfl⟩ | rfl | hx
      · exact absurd hlt (lt_asymm (hbelow x hx))
      · exact absurd hlt (lt_irrefl _)
      · exact hx
    cases hi with
    | nil => exact Set.eq_empty_of_forall_notMem fun k hk => by simpa using hafter k hk
    | cons y hi =>
      refine ⟨⟨(mem_keySet hm).mpr ⟨y, by simp, rfl⟩, hnode y (by simp)⟩, fun k hk => ?_⟩
      obtain ⟨x, hx, rfl⟩ := hafter k hk
      rcases List.mem_cons.mp hx with rfl | hx
      · exact Or.inl rfl
      · exact Or.inr ((List.pairwise_cons.mp hhi).1 x hx)
  | reverse =>
    have hafter : ∀ k ∈ {k | k ∈ keySet m ∧ SlistDir.reverse.before (s.key node) k},
        ∃ x ∈ lo, s.key x = k := by
      rintro k ⟨hk, hlt⟩
      rcases hsplit hk with hx | rfl | ⟨x, hx, rfl⟩
      · exact hx
      · exact absurd hlt (lt_irrefl _)
      · exact absurd hlt (lt_asymm (hnode x hx))
    rcases List.eq_nil_or_concat' lo with rfl | ⟨lo, y, rfl⟩
    · exact Set.eq_empty_of_forall_notMem fun k hk => by simpa using hafter k hk
    · rw [SlistDir.neighbour, List.getLast?_append, List.getLast?_singleton, Option.some_or]
      refine ⟨⟨(mem_keySet hm).mpr ⟨y, by simp, rfl⟩, hbelow y (by simp)⟩, fun k hk => ?_⟩
      obtain ⟨x, hx, rfl⟩ := hafter k hk
      rcases List.mem_append.mp hx with hx | hx
      · exact Or.inr ((List.pairwise_append.mp hlo).2.2 x hx y (by simp))
      · exact Or.inl (by rw [List.mem_singleton.mp hx])

theorem Slist.Rep.first_key (h : s.Rep L) (hm : m.Lists s.key s.value L) :
    (∀ y ∈ L.head?, First SlistDir.forward.before (keySet m) (some (s.key y))) ∧
      (∀ y ∈ L.getLast?, First SlistDir.reverse.before (keySet m) (some (s.key y))) ∧
      (L = [] → keySet m = ∅) := by
  refine ⟨fun y hy => ?_, fun y hy => ?_, fun hL => ?_⟩
  · obtain ⟨L, rfl⟩ := List.head?_eq_some_iff.mp hy
    refine ⟨(mem_keySet hm).mpr ⟨y, by simp, rfl⟩, fun k hk => ?_⟩
    obtain ⟨x, hx, rfl⟩ := (mem_keySet hm).mp hk
    rcases List.mem_cons.mp hx with rfl | hx
    · exact Or.inl rfl
    · exact Or.inr ((List.pairwise_cons.mp h.sorted).1 x hx)
  · obtain ⟨L, rfl⟩ := List.getLast?_eq_some_iff.mp hy
    refine ⟨(mem_keySet hm).mpr ⟨y, by simp, rfl⟩, fun k hk => ?_⟩
    obtain ⟨x, hx, rfl⟩ := (mem_keySet hm).mp hk
    rcases List.mem_append.mp hx with hx | hx
    · exact Or.inr ((List.pairwise_append.mp h.sorted).2.2 x hx y (by simp))
    · exact Or.inl (by rw [List.mem_singleton.mp hx])
  · subst hL
    exact Set.eq_empty_of_forall_notMem fun k hk => by simpa using (mem_keySet hm).mp hk

theorem keySet_insert {k : Key} (hk : k ∉ m.keys) (v : V) :
    keySet (m.insert k v) = insert k (keySet m) := by
  ext k'
  exact SortedMap.mem_keys_insert hk v

theorem keySet_erase (m : SortedMap Key V) (k : Key) : keySet (m.erase k) = keySet m \ {k} := by
  ext k'
  simp only [keySet, SortedMap.keys, SortedMap.erase, Set.mem_ofPred_eq, List.mem_map,
    List.mem_filter, decide_eq_true_eq, Set.mem_sdiff, Set.mem_singleton_iff]
  constructor
  · rintro ⟨e, ⟨he, hne⟩, rfl⟩
    exact ⟨⟨e, he, rfl⟩, hne⟩
  · rintro ⟨⟨e, he, rfl⟩, hne⟩
    exact ⟨e, ⟨he, hne⟩, rfl⟩

theorem map_update_key {c : Option SlistPtr} (hc : c ≠ some node) (key : SlistPtr → Key)
    (k : Key) : c.map (Function.update key node k) = c.map key := by
  cases c with
  | none => rfl
  | some x => exact congrArg some (Function.update_of_ne (fun he => hc (by rw [he])) _ _)

theorem Slist.Rep.cursor_ne (h : s.Rep L) (dir : SlistDir) (hn : node ∉ L) :
    s.cursor dir ≠ some node :=
  fun hc => hn (h.cursor_mem node hc)

theorem Slist.Rep.cursor_key (h : s.Rep L) (hm : m.Lists s.key s.value L) {k : Key}
    (hk : (s.cursor dir).map s.key = some k) : k ∈ keySet m := by
  obtain ⟨x, hx, rfl⟩ := Option.map_eq_some_iff.mp hk
  exact (mem_keySet hm).mpr ⟨x, h.cursor_mem x hx, rfl⟩

theorem Slist.Rep.insert_sweeps (h : s.Rep L) (hm : m.Lists s.key s.value L) (key : Key)
    (value : V) (coins : List Bool) {new : SlistPtr} (hnew : new ≠ s.head ∧ s.height new = 0)
    {ret : Int} (hs : slistInsert s key value coins new = some (s', ret)) :
    Step dir.before (keySet m) ((s.cursor dir).map s.key) (.add key)
      (keySet (if key ∈ m.keys then m else m.insert key value)) ((s'.cursor dir).map s'.key) := by
  by_cases hk : key ∈ m.keys
  · obtain ⟨ranks, nodes, hins⟩ := h.insert_found (hm.mem_keys.mp hk) value coins new
    rw [hins] at hs
    obtain ⟨rfl, -⟩ := Prod.mk.inj (Option.some.inj hs)
    rw [if_pos hk]
    have hsame : keySet m = insert key (keySet m) :=
      (Set.insert_eq_of_mem (show key ∈ keySet m from hk)).symm
    cases dir <;> exact .add hsame
  · have hn : new ∉ s.head :: L := by
      rw [List.mem_cons, not_or]
      refine ⟨hnew.1, fun hm => ?_⟩
      have := h.positive new hm
      omega
    obtain ⟨ranks, nodes, hins⟩ := h.insert_new (mt hm.mem_keys.mpr hk) value coins hn
    rw [hins] at hs
    obtain ⟨rfl, -⟩ := Prod.mk.inj (Option.some.inj hs)
    rw [if_neg hk]
    have hkey := map_update_key (h.cursor_ne dir fun hm => hn (List.mem_cons_of_mem _ hm))
      s.key key
    have hstep : Step dir.before (keySet m) ((s.cursor dir).map s.key) (.add key)
        (keySet (m.insert key value)) ((s.cursor dir).map (Function.update s.key new key)) := by
      rw [hkey]
      exact .add (keySet_insert hk value)
    cases dir <;> exact hstep

theorem Slist.Rep.erase_sweeps [Inhabited V] (h : s.Rep (lo ++ node :: hi))
    (hm : m.Lists s.key s.value (lo ++ node :: hi)) (hs : slistEraseNode s node = some s') :
    Step dir.before (keySet m) ((s.cursor dir).map s.key) (.drop (s.key node))
      (keySet (m.erase (s.key node))) ((s'.cursor dir).map s'.key) := by
  obtain ⟨c, -, -, -, herase⟩ := h.eraseNode
  rw [herase] at hs
  obtain rfl := Option.some.inj hs
  have hcursor : (s.erased lo hi node c).cursor dir =
      if s.cursor dir = some node then dir.neighbour lo hi else s.cursor dir := by
    cases dir <;> rfl
  have hkey : (s.erased lo hi node c).key = Function.update s.key node default := rfl
  have hnot := h.node_notMem
  rw [hcursor, hkey]
  by_cases hc : s.cursor dir = some node
  · have hne : dir.neighbour lo hi ≠ some node := by
      intro he
      refine hnot (List.mem_cons_of_mem _ (List.mem_append.mpr ?_))
      cases dir with
      | forward => exact Or.inr (List.mem_of_mem_head? he)
      | reverse => exact Or.inl (List.mem_of_getLast? he)
    rw [if_pos hc, map_update_key hne, hc, Option.map_some]
    exact .dropNext (keySet_erase m _) (h.next_key hm)
  · rw [if_neg hc, map_update_key hc]
    refine .drop (keySet_erase m _) fun hk => hc ?_
    obtain ⟨x, hx, hxk⟩ := Option.map_eq_some_iff.mp hk
    rw [hx, h.sorted.key_inj (h.cursor_mem x hx) (by simp) hxk]

theorem Slist.Rep.pop_sweeps [Inhabited V] (h : s.Rep L) (hm : m.Lists s.key s.value L)
    {pick : Option SlistPtr} (hpick : ∀ x ∈ pick, x ∈ L) {ret : Int}
    (hs : slistEraseAt s pick = some (s', ret)) :
    Step dir.before (keySet m) ((s.cursor dir).map s.key)
      ((pick.map fun x => (s.key x, s.value x)).elim .quiet fun kv => .drop kv.1)
      (keySet (sortedMapPop m (pick.map fun x => (s.key x, s.value x))).1)
      ((s'.cursor dir).map s'.key) := by
  cases pick with
  | none =>
    obtain ⟨rfl, -⟩ := Prod.mk.inj (Option.some.inj hs)
    exact .quiet rfl
  | some node =>
    obtain ⟨lo, hi, rfl⟩ := List.append_of_mem (hpick node rfl)
    obtain ⟨s1, herase, heq⟩ := Option.map_eq_some_iff.mp hs
    obtain ⟨rfl, -⟩ := Prod.mk.inj heq
    exact h.erase_sweeps hm herase

theorem Slist.Rep.advance_sweeps (h : s.Rep L) (dir : SlistDir)
    (hm : m.Lists s.key s.value L) (hs : s.cursor dir = some node) :
    Step dir.before (keySet m) ((s.cursor dir).map s.key) (.visit (s.key node)) (keySet m)
      ((s.follow node dir).map s.key) := by
  obtain ⟨lo, hi, rfl⟩ := List.append_of_mem (h.cursor_mem node hs)
  rw [hs, h.follow]
  exact .visit rfl (h.next_key hm)

theorem slistStep_sweeps [Inhabited V] (h : s.Refines m) {op : SlistOp V} (hop : FreshNode s op)
    (hdir : op ≠ dir.begin ∧ op ≠ dir.finish) {r : SlistRet V}
    (hs : slistStep s op = some (s', r)) :
    Step dir.before (keySet m) ((s.cursor dir).map s.key) (dir.event m op r)
      (keySet (sortedMapStep m op).1) ((s'.cursor dir).map s'.key) := by
  obtain ⟨L, h, hm⟩ := h
  have hfirst : m.first = L.head?.map fun x => (s.key x, s.value x) := by
    rw [SortedMap.first, hm, List.head?_map]
  have hlast : m.last = L.getLast?.map fun x => (s.key x, s.value x) := by
    rw [SortedMap.last, hm, List.getLast?_map]
  cases op with
  | insert key value coins new =>
    obtain ⟨x, hins, heq⟩ := Option.map_eq_some_iff.mp hs
    obtain ⟨rfl, -⟩ := Prod.mk.inj heq
    have hmap : (sortedMapStep m (.insert key value coins new)).1 =
        if key ∈ m.keys then m else m.insert key value := by
      rw [sortedMapStep]
      split <;> rfl
    rw [hmap]
    exact h.insert_sweeps hm key value coins hop hins
  | erase key =>
    obtain ⟨x, hx, heq⟩ := Option.map_eq_some_iff.mp hs
    obtain ⟨rfl, -⟩ := Prod.mk.inj heq
    rcases h.find_node hm key with ⟨lo, node, hi, hf, rfl, rfl, hk, -⟩ | ⟨hf, hk, -⟩
    · rw [slistErase, hf] at hx
      obtain ⟨s1, herase, heq⟩ := Option.map_eq_some_iff.mp hx
      obtain rfl := heq
      rw [sortedMapStep, if_pos hk]
      exact h.erase_sweeps hm herase
    · rw [slistErase, hf] at hx
      obtain rfl := Option.some.inj hx
      rw [sortedMapStep, if_neg hk]
      refine .drop ?_ fun hc => hk (h.cursor_key hm hc)
      exact (Set.sdiff_singleton_eq_self (show key ∉ keySet m from hk)).symm
  | popFront =>
    obtain ⟨x, hx, heq⟩ := Option.map_eq_some_iff.mp hs
    obtain ⟨rfl, -⟩ := Prod.mk.inj heq
    rw [slistPopFront, h.front] at hx
    rw [SlistDir.event, sortedMapStep, hfirst]
    exact h.pop_sweeps hm (fun y hy => List.mem_of_mem_head? hy) hx
  | popBack =>
    obtain ⟨x, hx, heq⟩ := Option.map_eq_some_iff.mp hs
    obtain ⟨rfl, -⟩ := Prod.mk.inj heq
    rw [slistPopBack, h.tail] at hx
    rw [SlistDir.event, sortedMapStep, hlast]
    exact h.pop_sweeps hm (fun y hy => List.mem_of_getLast? hy) hx
  | find key | rank key =>
    obtain ⟨v, -, heq⟩ := Option.map_eq_some_iff.mp hs
    obtain ⟨rfl, rfl⟩ := Prod.mk.inj heq
    cases dir <;> exact .quiet rfl
  | front | back | size =>
    obtain ⟨rfl, rfl⟩ := Prod.mk.inj (Option.some.inj hs)
    cases dir <;> exact .quiet rfl
  | beginIterate =>
    obtain ⟨rfl, rfl⟩ := Prod.mk.inj (Option.some.inj hs)
    cases dir with
    | forward => exact absurd rfl hdir.1
    | reverse => exact .quiet rfl
  | endIterate =>
    obtain ⟨rfl, rfl⟩ := Prod.mk.inj (Option.some.inj hs)
    cases dir with
    | forward => exact absurd rfl hdir.2
    | reverse => exact .quiet rfl
  | beginRiterate =>
    obtain ⟨rfl, rfl⟩ := Prod.mk.inj (Option.some.inj hs)
    cases dir with
    | forward => exact .quiet rfl
    | reverse => exact absurd rfl hdir.1
  | endRiterate =>
    obtain ⟨rfl, rfl⟩ := Prod.mk.inj (Option.some.inj hs)
    cases dir with
    | forward => exact .quiet rfl
    | reverse => exact absurd rfl hdir.2
  | iterate =>
    obtain ⟨rfl, rfl⟩ := Prod.mk.inj (Option.some.inj hs)
    rw [slistIterate]
    cases hit : s.iterator with
    | none => cases dir <;> exact .quiet rfl
    | some node =>
      cases dir with
      | forward => exact h.advance_sweeps .forward hm hit
      | reverse => exact .quiet rfl
  | riterate =>
    obtain ⟨rfl, rfl⟩ := Prod.mk.inj (Option.some.inj hs)
    rw [slistRiterate]
    cases hit : s.riterator with
    | none => cases dir <;> exact .quiet rfl
    | some node =>
      cases dir with
      | forward => exact .quiet rfl
      | reverse => exact h.advance_sweeps .reverse hm hit

theorem Slist.Rep.begin_sweeps [Inhabited V] (h : s.Rep L) (hm : m.Lists s.key s.value L)
    {r : SlistRet V} (hs : slistStep s dir.begin = some (s', r)) :
    First dir.before (keySet m) ((s'.cursor dir).map s'.key) := by
  obtain ⟨hfirst, hlast, hempty⟩ := h.first_key hm
  cases dir with
  | forward =>
    obtain ⟨rfl, -⟩ := Prod.mk.inj (Option.some.inj hs)
    show First _ _ (((s.levels 0).next s.head).map s.key)
    rw [h.front]
    cases hL : L.head? with
    | none => exact hempty (List.head?_eq_none_iff.mp hL)
    | some y => exact hfirst y hL
  | reverse =>
    obtain ⟨rfl, -⟩ := Prod.mk.inj (Option.some.inj hs)
    show First _ _ (s.tail.map s.key)
    rw [h.tail]
    cases hL : L.getLast? with
    | none => exact hempty (List.getLast?_eq_none_iff.mp hL)
    | some y => exact hlast y hL

def slistKeysAfter (ops : List (SlistOp V)) : List Key :=
  (specRun sortedMapStep (SortedMap.empty : SortedMap Key V) ops).1.keys

/-- The keys that were in the list when the calls `pre` were over and after each of the calls
made since. -/
def keptSince (pre : List (SlistOp V)) (body : List (SlistOp V × SlistRet V)) : Set Key :=
  {k | ∀ i ≤ body.length, k ∈ slistKeysAfter (pre ++ (body.take i).map Prod.fst)}

def ReturnsStored (dir : SlistDir) (pre : List (SlistOp V))
    (body : List (SlistOp V × SlistRet V)) : Prop :=
  ∀ l1 x l2 k, body = l1 ++ x :: l2 → dir.returned x.1 x.2 = some k →
    k ∈ slistKeysAfter (pre ++ l1.map Prod.fst)

/-- Where a sweep has come that was opened after `pre`. -/
structure SweptSince (dir : SlistDir) (pre : List (SlistOp V)) (m : SortedMap Key V)
    (c : Option Key) (body : List (SlistOp V × SlistRet V)) : Prop where
  map : m = (specRun sortedMapStep SortedMap.empty (pre ++ body.map Prod.fst)).1
  swept : Swept dir.before (keySet m) c (dir.keys body) (keptSince pre body)
  stored : ReturnsStored dir pre body

inductive SlistSweep (dir : SlistDir) : SortedMap Key V × Option Key →
    SlistOp V × SlistRet V → SortedMap Key V × Option Key → Prop
  | call {m : SortedMap Key V} {c c' : Option Key} {op : SlistOp V} {r : SlistRet V} :
      Step dir.before (keySet m) c (dir.event m op r) (keySet (sortedMapStep m op).1) c' →
      SlistSweep dir (m, c) (op, r) ((sortedMapStep m op).1, c')

theorem SlistDir.visited_event (dir : SlistDir) (m : SortedMap Key V) (op : SlistOp V)
    (r : SlistRet V) : visited (dir.event m op r) = dir.returned op r := by
  have hother : ∀ o : Option Key, visited (o.elim .quiet .visit) = o := by
    intro o
    cases o <;> rfl
  cases op with
  | popFront =>
    rw [SlistDir.event]
    cases m.first <;> cases dir <;> rfl
  | popBack =>
    rw [SlistDir.event]
    cases m.last <;> cases dir <;> rfl
  | insert key value coins new => cases dir <;> rfl
  | erase key => cases dir <;> rfl
  | _ => exact hother _

theorem SlistDir.keys_snoc (dir : SlistDir) (body : List (SlistOp V × SlistRet V))
    (x : SlistOp V × SlistRet V) :
    dir.keys (body ++ [x]) = dir.keys body ++ (dir.returned x.1 x.2).toList := by
  rw [SlistDir.keys, List.filterMap_append]
  cases hx : dir.returned x.1 x.2 <;> simp [hx, SlistDir.keys]

theorem slistKeysAfter_snoc (pre : List (SlistOp V)) (body : List (SlistOp V × SlistRet V))
    (x : SlistOp V × SlistRet V) :
    (specRun sortedMapStep (SortedMap.empty : SortedMap Key V)
      (pre ++ (body ++ [x]).map Prod.fst)).1 =
      (sortedMapStep (specRun sortedMapStep SortedMap.empty
        (pre ++ body.map Prod.fst)).1 x.1).1 := by
  rw [List.map_append, ← List.append_assoc, specRun_append]
  rfl

theorem keptSince_snoc {pre : List (SlistOp V)} {body : List (SlistOp V × SlistRet V)}
    {x : SlistOp V × SlistRet V} {k : Key} (hk : k ∈ keptSince pre (body ++ [x])) :
    k ∈ keptSince pre body ∧ k ∈ slistKeysAfter (pre ++ (body ++ [x]).map Prod.fst) := by
  refine ⟨fun i hi => ?_, ?_⟩
  · have hki := hk i (by rw [List.length_append]; omega)
    rwa [List.take_append_of_le_length hi] at hki
  · have hki := hk _ le_rfl
    rwa [List.take_length] at hki

theorem SweptSince.step {pre : List (SlistOp V)} {body : List (SlistOp V × SlistRet V)}
    {c c' : Option Key} {m' : SortedMap Key V} {x : SlistOp V × SlistRet V}
    (h : SweptSince dir pre m c body) (hs : SlistSweep dir (m, c) x (m', c')) :
    SweptSince dir pre m' c' (body ++ [x]) := by
  cases hs with
  | @call _ _ _ op r hstep =>
    have hmap : (sortedMapStep m op).1 = (specRun sortedMapStep SortedMap.empty
        (pre ++ (body ++ [(op, r)]).map Prod.fst)).1 := by
      rw [slistKeysAfter_snoc, ← h.map]
    refine ⟨hmap, ?_, ?_⟩
    · rw [SlistDir.keys_snoc, ← dir.visited_event m]
      refine h.swept.step hstep (fun k hk => (keptSince_snoc hk).1) fun k hk => ?_
      have hkeys := (keptSince_snoc hk).2
      rwa [slistKeysAfter, ← hmap] at hkeys
    · intro l1 y l2 k hsplit hk
      rcases List.eq_nil_or_concat' l2 with rfl | ⟨l2, z, rfl⟩
      · obtain ⟨rfl, hy⟩ := List.append_inj' hsplit rfl
        obtain rfl := (List.cons.inj hy).1
        rw [← dir.visited_event m] at hk
        have hmem := h.swept.stands k (hstep.cursor_of_visited hk)
        rw [h.map] at hmem
        exact hmem
      · rw [← List.cons_append, ← List.append_assoc] at hsplit
        exact h.stored l1 y l2 k (List.append_inj' hsplit rfl).1 hk

/-- The iterators stand on nodes that are linked in and in use. -/
def Slist.IteratorsLinked (s : Slist V) : Prop :=
  ∀ dir x, s.cursor dir = some x →
    x ≠ s.head ∧ 0 < s.height x ∧ ∃ n, s.walk (n+1) s.head = some x

theorem Slist.Rep.iteratorsLinked (h : s.Rep L) : s.IteratorsLinked := by
  intro dir x hx
  have hmem := h.cursor_mem x hx
  refine ⟨ne_of_mem_of_not_mem hmem h.head, h.positive x hmem, ?_⟩
  obtain ⟨lo, hi, rfl⟩ := List.append_of_mem hmem
  have hc := (h.holds 0).next
  rw [h.level_zero, show lo ++ x :: hi = (lo ++ [x]) ++ hi by simp] at hc
  have hwalk := Slist.walk_path ((chain_append _ _ _).mp hc).1
  rw [List.length_append, last_append] at hwalk
  exact ⟨lo.length, hwalk⟩

theorem keptSince_nil (pre : List (SlistOp V)) :
    keptSince pre [] =
      keySet (specRun sortedMapStep (SortedMap.empty : SortedMap Key V) pre).1 := by
  ext k
  constructor
  · intro hk
    have hk0 := hk 0 le_rfl
    rwa [List.take_nil, List.map_nil, List.append_nil] at hk0
  · intro hk i _
    rw [List.take_nil, List.map_nil, List.append_nil]
    exact hk

/-- Calls that leave a direction open sweep the keys in it. -/
theorem Slist.Refines.sweeps [Inhabited V] {pre body : List (SlistOp V)} (h : s.Refines m)
    (hm : m = (specRun sortedMapStep SortedMap.empty pre).1)
    (hfirst : First dir.before (keySet m) ((s.cursor dir).map s.key))
    (hops : Along slistStep FreshNode s body)
    (hbody : ∀ op ∈ body, op ≠ dir.begin ∧ op ≠ dir.finish) :
    ∃ s' rets m', run slistStep s body = some (s', rets) ∧ s'.Refines m' ∧
      SweptSince dir pre m' ((s'.cursor dir).map s'.key) (body.zip rets) := by
  obtain ⟨s', rets, ⟨m', c'⟩, hrun, htrace, h', rfl⟩ := run_refines
    (fun s t => s.Refines t.1 ∧ (s.cursor dir).map s.key = t.2) (SlistSweep dir) Prod.mk
    (fun s t op hst hop => by
      obtain ⟨m, c⟩ := t
      obtain ⟨h, rfl⟩ := hst
      obtain ⟨s', r, hs, h', -⟩ := slistStep_refines op h hop.2
      exact ⟨s', r, (_, _), hs, .call (slistStep_sweeps h hop.2 hop.1 hs), h', rfl⟩)
    (t := (m, (s.cursor dir).map s.key)) ⟨h, rfl⟩ (hops.and hbody)
  have hstart : SweptSince dir pre m ((s.cursor dir).map s.key) [] := by
    refine ⟨by rw [hm, List.map_nil, List.append_nil], ?_, fun l1 x l2 k hl => absurd hl (by simp)⟩
    rw [keptSince_nil, ← hm]
    exact hfirst.swept
  exact ⟨s', rets, m', hrun, h', Trace.invariant (fun t body => SweptSince dir pre t.1 t.2 body)
    (fun _ => True) (fun _ _ _ _ hsw _ hs => hsw.step hs) hstart htrace fun _ _ => trivial⟩

theorem Slist.cursor_of_end [Inhabited V]
    (h : (slistStep s dir.iterate).map Prod.snd = some (.code (-1))) : s.cursor dir = none := by
  by_contra hc
  obtain ⟨x, hx⟩ := Option.ne_none_iff_exists'.mp hc
  cases dir with
  | forward =>
    have hit : s.iterator = some x := hx
    simp [SlistDir.iterate, slistStep, slistIterate, hit, slistItem] at h
  | reverse =>
    have hit : s.riterator = some x := hx
    simp [SlistDir.iterate, slistStep, slistRiterate, hit, slistItem] at h

/-- However the calls are mixed, an iteration returns keys in its order, only such as are in the
list, and by the time it returns -1 once each of those that stayed; and neither iterator ever
stands on anything but a node of the list. -/
theorem slist_iteration [Inhabited V] (dir : SlistDir) (height : Nat) (head : SlistPtr)
    (garbage : Nat → UInt64) {pre body : List (SlistOp V)}
    (hops : Along slistStep FreshNode (slistNew height head garbage) (pre ++ dir.begin :: body))
    (hbody : ∀ op ∈ body, op ≠ dir.begin ∧ op ≠ dir.finish) :
    ∃ s rets0 s' rets,
      run slistStep (slistNew height head garbage) (pre ++ [dir.begin]) = some (s, rets0) ∧
      run slistStep s body = some (s', rets) ∧
      (dir.keys (body.zip rets)).Pairwise dir.before ∧
      ReturnsStored dir (pre ++ [dir.begin]) (body.zip rets) ∧
      ((slistStep s' dir.iterate).map Prod.snd = some (.code (-1)) →
        ∀ k ∈ keptSince (pre ++ [dir.begin]) (body.zip rets),
          (dir.keys (body.zip rets)).count k = 1) ∧
      s'.IteratorsLinked := by
  obtain ⟨s0, rets0, hrun0, -, h0⟩ := (slistNew_refines height head garbage).runs hops.left
  have hrest := hops.of_append hrun0
  obtain ⟨s, r, hs, h, -⟩ := slistStep_refines dir.begin h0 hrest.1
  have hm : (specRun sortedMapStep (SortedMap.empty : SortedMap Key V) (pre ++ [dir.begin])).1 =
      (specRun sortedMapStep SortedMap.empty pre).1 := by
    rw [specRun_append]
    cases dir <;> rfl
  have hsame : (sortedMapStep (specRun sortedMapStep (SortedMap.empty : SortedMap Key V) pre).1
      dir.begin).1 = (specRun sortedMapStep SortedMap.empty pre).1 := by
    cases dir <;> rfl
  rw [hsame] at h
  obtain ⟨L, hrep, hlists⟩ := h0
  obtain ⟨s', rets, m', hrun, h', hswept⟩ := h.sweeps hm.symm (hrep.begin_sweeps hlists hs)
    (hrest.2 s r hs) hbody
  refine ⟨s, rets0 ++ [r], s', rets, ?_, hrun, hswept.swept.sorted, hswept.stored, ?_, ?_⟩
  · rw [run_append hrun0, run_cons hs]
    rfl
  · intro hend k hk
    rw [Slist.cursor_of_end hend, Option.map_none] at hswept
    exact hswept.swept.once hk
  · obtain ⟨L', hrep', -⟩ := h'
    exact hrep'.iteratorsLinked

/-- Out of two keys the first is erased when it has been returned, and then the node is popped on
which both iterators stand. -/
def slistIterateSampleBody : List (SlistOp Nat) :=
  [.beginRiterate, .iterate, .erase ⟨[1]⟩, .popBack, .riterate]

theorem slist_iteration_sample : ∃ s rets0 s' rets,
    run slistStep (slistNew 2 0 fun _ => 0)
      (slistSampleCalls.take 2 ++ [SlistDir.forward.begin]) = some (s, rets0) ∧
    run slistStep s slistIterateSampleBody = some (s', rets) ∧
    (SlistDir.forward.keys (slistIterateSampleBody.zip rets)).Pairwise SlistDir.forward.before ∧
    ReturnsStored .forward (slistSampleCalls.take 2 ++ [SlistDir.forward.begin])
      (slistIterateSampleBody.zip rets) ∧
    ((slistStep s' SlistDir.forward.iterate).map Prod.snd = some (.code (-1)) →
      ∀ k ∈ keptSince (slistSampleCalls.take 2 ++ [SlistDir.forward.begin])
          (slistIterateSampleBody.zip rets),
        (SlistDir.forward.keys (slistIterateSampleBody.zip rets)).count k = 1) ∧
    s'.IteratorsLinked := by
  have hops : Along slistStep FreshNode (slistNew 2 0 fun _ => 0)
      (slistSampleCalls.take 2 ++ SlistDir.forward.begin :: slistIterateSampleBody) := by
    decide +kernel
  exact slist_iteration .forward 2 0 (fun _ => 0) hops
    (by simp [slistIterateSampleBody, SlistDir.begin, SlistDir.finish])

end SimpleKit
