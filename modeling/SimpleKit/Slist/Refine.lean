import Mathlib.Data.Fintype.Card
import SimpleKit.Lib.Run
import SimpleKit.Lib.SortedMap
import SimpleKit.Slist.Erase

set_option autoImplicit false

namespace SimpleKit
open Linked SortedBy Runs

variable {V : Type}

inductive SlistOp (V : Type) where
  | insert : Key → V → List Bool → SlistPtr → SlistOp V
  | erase : Key → SlistOp V
  | find : Key → SlistOp V
  | front : SlistOp V
  | back : SlistOp V
  | popFront : SlistOp V
  | popBack : SlistOp V
  | size : SlistOp V
  | rank : Key → SlistOp V
  | beginIterate : SlistOp V
  | iterate : SlistOp V
  | endIterate : SlistOp V
  | beginRiterate : SlistOp V
  | riterate : SlistOp V
  | endRiterate : SlistOp V

inductive SlistRet (V : Type) where
  | void : SlistRet V
  | code : Int → SlistRet V
  | found : V → SlistRet V
  | item : Key → V → SlistRet V
  | number : Nat → SlistRet V
  deriving DecidableEq, Repr

def slistItem (e : Option (Key × V)) : SlistRet V := e.elim (.code (-1)) fun kv => .item kv.1 kv.2

def slistStep [Inhabited V] (s : Slist V) : SlistOp V → Option (Slist V × SlistRet V)
  | .insert key value coins new => (slistInsert s key value coins new).map fun x => (x.1, .code x.2)
  | .erase key => (slistErase s key).map fun x => (x.1, .code x.2)
  | .find key => (slistFind s key).map fun v => (s, v.elim (.code (-1)) .found)
  | .front => some (s, slistItem (slistFront s))
  | .back => some (s, slistItem (slistBack s))
  | .popFront => (slistPopFront s).map fun x => (x.1, .code x.2)
  | .popBack => (slistPopBack s).map fun x => (x.1, .code x.2)
  | .size => some (s, .number (slistSize s))
  | .rank key => (slistRank s key).map fun r => (s, .code r)
  | .beginIterate => some (slistBeginIterate s, .void)
  | .iterate => some ((slistIterate s).1, slistItem (slistIterate s).2)
  | .endIterate => some (slistEndIterate s, .void)
  | .beginRiterate => some (slistBeginRiterate s, .void)
  | .riterate => some ((slistRiterate s).1, slistItem (slistRiterate s).2)
  | .endRiterate => some (slistEndRiterate s, .void)

def sortedMapPop (m : SortedMap Key V) (e : Option (Key × V)) : SortedMap Key V × SlistRet V :=
  match e with
  | none => (m, .code (-1))
  | some kv => (m.erase kv.1, .code 0)

/-- A sorted map under these calls; it says nothing about iteration. -/
def sortedMapStep (m : SortedMap Key V) : SlistOp V → SortedMap Key V × Option (SlistRet V)
  | .insert key value _ _ =>
    if key ∈ m.keys then (m, some (.code (-1))) else (m.insert key value, some (.code 0))
  | .erase key => if key ∈ m.keys then (m.erase key, some (.code 0)) else (m, some (.code (-1)))
  | .find key => (m, some ((m.lookup key).elim (.code (-1)) .found))
  | .front => (m, some (slistItem m.first))
  | .back => (m, some (slistItem m.last))
  | .popFront => ((sortedMapPop m m.first).1, some (sortedMapPop m m.first).2)
  | .popBack => ((sortedMapPop m m.last).1, some (sortedMapPop m m.last).2)
  | .size => (m, some (.number m.size))
  | .rank key => (m, some (.code (if key ∈ m.keys then (m.rank key : Int) + 1 else -1)))
  | _ => (m, none)

/-- calloc returns an address that is not in use: neither the head's nor that of a node,
all of which have a height. -/
def FreshNode (s : Slist V) : SlistOp V → Prop
  | .insert _ _ _ new => new ≠ s.head ∧ s.height new = 0
  | _ => True

instance (s : Slist V) (op : SlistOp V) : Decidable (FreshNode s op) :=
  match op with
  | .insert _ _ _ new => inferInstanceAs (Decidable (new ≠ s.head ∧ s.height new = 0))
  | .erase _ | .find _ | .front | .back | .popFront | .popBack | .size | .rank _ | .beginIterate
  | .iterate | .endIterate | .beginRiterate | .riterate | .endRiterate => .isTrue trivial

def Slist.Refines (s : Slist V) (m : SortedMap Key V) : Prop :=
  ∃ L, s.Rep L ∧ m.Lists s.key s.value L

variable {s : Slist V} {L : List SlistPtr} {m : SortedMap Key V}

theorem Slist.Rep.scratch (h : s.Rep L) (ranks : Nat → UInt64)
    (nodes : Nat → Option SlistPtr) :
    ({ s with levelRank := ranks, levelNode := nodes } : Slist V).Rep L :=
  ⟨h.sorted, h.head, h.holds, h.positive, h.free, h.low, h.current, h.size, h.tail, h.iter,
    h.riter⟩

theorem Slist.Rep.iterators (h : s.Rep L) {it rit : Option SlistPtr}
    (hit : ∀ x, it = some x → x ∈ L) (hrit : ∀ x, rit = some x → x ∈ L) :
    ({ s with iterator := it, riterator := rit } : Slist V).Rep L :=
  ⟨h.sorted, h.head, h.holds, h.positive, h.free, h.low, h.current, h.size, h.tail, hit, hrit⟩

theorem Slist.Rep.front (h : s.Rep L) : (s.levels 0).next s.head = L.head? := by
  have hc := (h.holds 0).next
  rw [h.level_zero] at hc
  exact chain_next hc

/-- The addresses run out long before a rank can. -/
theorem Slist.Rep.length_lt (h : s.Rep L) : L.length < 2^63 := by
  have hcard := List.Nodup.length_le_card h.sorted.nodup
  rw [Fintype.card_fin] at hcard
  omega

theorem Slist.Rep.rank (h : s.Rep L) (hm : m.Lists s.key s.value L) (key : Key) :
    slistRank s key = some (if key ∈ m.keys then (m.rank key : Int) + 1 else -1) := by
  rw [slistRank, h.search_top, hm.rank]
  cases hf : L.find? fun x => s.key x = key with
  | none =>
    have hno : key ∉ m.keys := by
      rw [hm.mem_keys]
      rintro ⟨x, hx, hk⟩
      exact absurd hk (by simpa using List.find?_eq_none.mp hf x hx)
    simp [hno]
  | some x =>
    have hx := List.mem_of_find?_eq_some hf
    have hk : s.key x = key := by simpa using List.find?_some hf
    have hlen : (below s.key key L).length < L.length := by
      refine lt_of_le_of_ne (List.length_filter_le _ _) fun he => ?_
      have := List.length_filter_eq_length_iff.mp he x hx
      simp [hk] at this
    have hlt := h.length_lt
    rw [if_pos (hm.mem_keys.mpr ⟨x, hx, hk⟩)]
    simp only [Option.map_some, Option.elim, h.pos_mem hx, hk, UInt64.toInt64_ofNat']
    rw [Int64.toInt_ofNat_of_lt (by omega)]
    rfl

theorem Slist.Rep.insert_refines (h : s.Rep L) (hm : m.Lists s.key s.value L) (key : Key)
    (value : V) (coins : List Bool) {new : SlistPtr} (hnew : new ≠ s.head ∧ s.height new = 0) :
    ∃ s', slistInsert s key value coins new =
        some (s', if key ∈ m.keys then -1 else 0) ∧
      s'.Refines (if key ∈ m.keys then m else m.insert key value) := by
  by_cases hk : key ∈ m.keys
  · obtain ⟨ranks, nodes, hins⟩ := h.insert_found (hm.mem_keys.mp hk) value coins new
    refine ⟨_, by rw [hins, if_pos hk], L, h.scratch ranks nodes, ?_⟩
    rwa [if_pos hk]
  · have hx : ¬ ∃ x ∈ L, s.key x = key := fun hx => hk (hm.mem_keys.mpr hx)
    have hn : new ∉ s.head :: L := by
      rw [List.mem_cons, not_or]
      refine ⟨hnew.1, fun hm => ?_⟩
      have := h.positive new hm
      omega
    obtain ⟨ranks, nodes, hins⟩ := h.insert_new hx value coins hn
    obtain ⟨hpos, hmax⟩ := chooseHeightFrom_bounds s.maxHeight coins 1
    change 0 < slistChooseHeight s.maxHeight coins at hpos
    change slistChooseHeight s.maxHeight coins ≤ max 1 s.maxHeight at hmax
    generalize slistChooseHeight s.maxHeight coins = height at hins hpos hmax
    have hrep := h.added hx value hpos hmax hn ranks nodes
    refine ⟨_, by rw [hins, if_neg hk], _, hrep, ?_⟩
    rw [if_neg hk]
    have hold : ∀ y ∈ L, (s.added L key value height new ranks nodes).key y = s.key y ∧
        (s.added L key value height new ranks nodes).value y = s.value y := by
      intro y hy
      have hne : y ≠ new := ne_of_mem_of_not_mem (List.mem_cons_of_mem _ hy) hn
      exact ⟨Function.update_of_ne hne _ _, Function.update_of_ne hne _ _⟩
    have hnk : (s.added L key value height new ranks nodes).key new = key :=
      Function.update_self ..
    have hnv : (s.added L key value height new ranks nodes).value new = value :=
      Function.update_self ..
    have hins := hm.insert (x := new) (by rwa [hnk]) hold
    rwa [hnk, hnv] at hins

theorem Slist.Rep.find_node (h : s.Rep L) (hm : m.Lists s.key s.value L) (key : Key) :
    (∃ lo node hi, slistFindNode s key = some (some node) ∧ L = lo ++ node :: hi ∧
        s.key node = key ∧ key ∈ m.keys ∧ m.lookup key = some (s.value node)) ∨
      slistFindNode s key = some none ∧ key ∉ m.keys ∧ m.lookup key = none := by
  rw [h.findNode, hm.lookup, hm.mem_keys]
  cases hf : L.find? fun x => s.key x = key with
  | none =>
    refine Or.inr ⟨rfl, ?_, rfl⟩
    rintro ⟨x, hx, hk⟩
    exact absurd hk (by simpa using List.find?_eq_none.mp hf x hx)
  | some x =>
    have hx := List.mem_of_find?_eq_some hf
    have hk : s.key x = key := by simpa using List.find?_some hf
    obtain ⟨lo, hi, hL⟩ := List.append_of_mem hx
    exact Or.inl ⟨lo, x, hi, rfl, hL, hk, ⟨x, hx, hk⟩, rfl⟩

section Calls
variable [Inhabited V]

theorem slistNew_rep (height : Nat) (head : SlistPtr) (garbage : Nat → UInt64) :
    (slistNew height head garbage : Slist V).Rep [] := by
  refine ⟨List.Pairwise.nil, by simp, fun l => ⟨rfl, trivial, trivial⟩, by simp, ?_, by simp,
    ?_, rfl, rfl, ?_, ?_⟩
  · intro x hx
    have hne : x ≠ head := fun he => hx (he ▸ List.mem_singleton_self _)
    show Function.update (fun _ : SlistPtr => 0) head ((height + 1) % 2^32 : Nat) x = 0
    rw [Function.update_of_ne hne]
  · exact ⟨Nat.one_pos, Nat.le_max_left 1 _⟩
  · rintro x ⟨⟩
  · rintro x ⟨⟩

theorem Slist.Rep.erase_refines {lo hi : List SlistPtr} {node : SlistPtr}
    (h : s.Rep (lo ++ node :: hi)) (hm : m.Lists s.key s.value (lo ++ node :: hi)) :
    ∃ s', slistEraseNode s node = some s' ∧ s'.Refines (m.erase (s.key node)) := by
  obtain ⟨c, hc, hcl, hempty, herase⟩ := h.eraseNode
  refine ⟨_, herase, lo ++ hi, h.erased hc hcl hempty, hm.erase fun y hy => ?_⟩
  have hne : y ≠ node := ne_of_mem_of_not_mem (List.mem_cons_of_mem _ hy) h.node_notMem
  exact ⟨Function.update_of_ne hne _ _, Function.update_of_ne hne _ _⟩

theorem Slist.Rep.pop_refines (h : s.Rep L) (hm : m.Lists s.key s.value L)
    (pick : List SlistPtr → Option SlistPtr) (hpick : ∀ x ∈ pick L, x ∈ L) :
    ∃ s' ret, slistEraseAt s (pick L) = some (s', ret) ∧
      s'.Refines (sortedMapPop m ((pick L).map fun x => (s.key x, s.value x))).1 ∧
      (sortedMapPop m ((pick L).map fun x => (s.key x, s.value x))).2 = .code ret := by
  cases hp : pick L with
  | none => exact ⟨s, -1, rfl, ⟨L, h, hm⟩, rfl⟩
  | some node =>
    obtain ⟨lo, hi, rfl⟩ := List.append_of_mem (hpick node hp)
    obtain ⟨s', herase, href⟩ := h.erase_refines hm
    exact ⟨s', 0, by simp [slistEraseAt, herase], href, rfl⟩

/-- Every call returns what the map returns, and the list represents the map after it. -/
theorem slistStep_refines {s : Slist V} {m : SortedMap Key V} (op : SlistOp V)
    (h : s.Refines m) (hop : FreshNode s op) :
    ∃ s' r, slistStep s op = some (s', r) ∧ s'.Refines (sortedMapStep m op).1 ∧
      ∀ r' ∈ (sortedMapStep m op).2, r = r' := by
  obtain ⟨L, h, hm⟩ := h
  have hfront : (s.levels 0).next s.head = L.head? := h.front
  have hfirst : m.first = L.head?.map fun x => (s.key x, s.value x) := by
    rw [SortedMap.first, hm, List.head?_map]
  have hlast : m.last = L.getLast?.map fun x => (s.key x, s.value x) := by
    rw [SortedMap.last, hm, List.getLast?_map]
  cases op with
  | insert key value coins new =>
    obtain ⟨s', hins, href⟩ := h.insert_refines hm key value coins hop
    refine ⟨s', _, by rw [slistStep, hins, Option.map_some], ?_, ?_⟩
    · by_cases hk : key ∈ m.keys <;> simpa [sortedMapStep, hk] using href
    · by_cases hk : key ∈ m.keys <;> simp [sortedMapStep, hk]
  | erase key =>
    rcases h.find_node hm key with ⟨lo, node, hi, hf, rfl, rfl, hk, -⟩ | ⟨hf, hk, -⟩
    · obtain ⟨s', herase, href⟩ := h.erase_refines hm
      refine ⟨s', .code 0, ?_, ?_, ?_⟩
      · simp [slistStep, slistErase, slistEraseAt, hf, herase]
      · simpa [sortedMapStep, hk] using href
      · simp [sortedMapStep, hk]
    · refine ⟨s, .code (-1), ?_, ⟨L, h, ?_⟩, ?_⟩
      · simp [slistStep, slistErase, slistEraseAt, hf]
      · simpa [sortedMapStep, hk] using hm
      · simp [sortedMapStep, hk]
  | find key =>
    rcases h.find_node hm key with ⟨lo, node, hi, hf, -, -, -, hl⟩ | ⟨hf, -, hl⟩
    · exact ⟨s, .found (s.value node), by simp [slistStep, slistFind, hf], ⟨L, h, hm⟩,
        by simp [sortedMapStep, hl]⟩
    · exact ⟨s, .code (-1), by simp [slistStep, slistFind, hf], ⟨L, h, hm⟩,
        by simp [sortedMapStep, hl]⟩
  | front =>
    refine ⟨s, _, rfl, ⟨L, h, hm⟩, ?_⟩
    simp [sortedMapStep, hfirst, slistFront, hfront]
  | back =>
    refine ⟨s, _, rfl, ⟨L, h, hm⟩, ?_⟩
    simp [sortedMapStep, hlast, slistBack, h.tail]
  | popFront =>
    obtain ⟨s', ret, hpop, href, hret⟩ :=
      h.pop_refines hm List.head? fun x hx => List.mem_of_mem_head? hx
    refine ⟨s', .code ret, ?_, ?_, ?_⟩
    · rw [slistStep, slistPopFront, hfront, hpop]
      rfl
    · rw [sortedMapStep, hfirst]
      exact href
    · rw [sortedMapStep, hfirst]
      simp [hret]
  | popBack =>
    obtain ⟨s', ret, hpop, href, hret⟩ :=
      h.pop_refines hm List.getLast? fun x hx => List.mem_of_getLast? hx
    refine ⟨s', .code ret, ?_, ?_, ?_⟩
    · rw [slistStep, slistPopBack, h.tail, hpop]
      rfl
    · rw [sortedMapStep, hlast]
      exact href
    · rw [sortedMapStep, hlast]
      simp [hret]
  | size =>
    refine ⟨s, _, rfl, ⟨L, h, hm⟩, ?_⟩
    have hlen := congrArg List.length hm
    simp only [List.length_map] at hlen
    simp [sortedMapStep, slistSize, h.size, SortedMap.size, hlen]
  | rank key =>
    refine ⟨s, _, by rw [slistStep, h.rank hm, Option.map_some], ⟨L, h, hm⟩, ?_⟩
    simp [sortedMapStep]
  | beginIterate =>
    refine ⟨_, _, rfl, ⟨L, h.iterators (fun x hx => ?_) h.riter, hm⟩, by simp [sortedMapStep]⟩
    rw [hfront] at hx
    exact List.mem_of_mem_head? hx
  | iterate =>
    refine ⟨_, _, rfl, ?_, by simp [sortedMapStep]⟩
    rw [slistIterate]
    cases hit : s.iterator with
    | none => exact ⟨L, h, hm⟩
    | some node =>
      refine ⟨L, h.iterators (fun x hx => ?_) h.riter, hm⟩
      have hc := (h.holds 0).next
      rw [h.level_zero] at hc
      exact chain_mem hc (List.mem_cons_of_mem _ (h.iter node hit)) hx
  | endIterate =>
    refine ⟨_, _, rfl, ⟨L, h.iterators (fun x hx => ?_) h.riter, hm⟩, by simp [sortedMapStep]⟩
    cases hx
  | beginRiterate =>
    refine ⟨_, _, rfl, ⟨L, h.iterators h.iter fun x hx => ?_, hm⟩, by simp [sortedMapStep]⟩
    rw [h.tail] at hx
    exact List.mem_of_getLast? hx
  | riterate =>
    refine ⟨_, _, rfl, ?_, by simp [sortedMapStep]⟩
    rw [slistRiterate]
    cases hit : s.riterator with
    | none => exact ⟨L, h, hm⟩
    | some node =>
      refine ⟨L, h.iterators h.iter fun x hx => ?_, hm⟩
      have hb := (h.holds 0).prev
      rw [h.level_zero] at hb
      split at hx
      · cases hx
      · next hne =>
        refine (List.mem_cons.mp (back_mem hb (h.riter node hit) hx)).resolve_left ?_
        rintro rfl
        exact hne hx
  | endRiterate =>
    refine ⟨_, _, rfl, ⟨L, h.iterators h.iter fun x hx => ?_, hm⟩, by simp [sortedMapStep]⟩
    cases hx

theorem Slist.Refines.runs {s : Slist V} {m : SortedMap Key V} (h : s.Refines m)
    {ops : List (SlistOp V)} (hops : Along slistStep FreshNode s ops) :
    ∃ s' rets, run slistStep s ops = some (s', rets) ∧
      List.Forall₂ (fun r o => ∀ r' ∈ o, r = r') rets (specRun sortedMapStep m ops).2 ∧
      s'.Refines (specRun sortedMapStep m ops).1 := by
  obtain ⟨s', rets, hrun, hrel, hrets⟩ := run_simulates Slist.Refines
    (fun r o => ∀ r' ∈ o, r = r') (fun s m op h hop => slistStep_refines op h hop) h hops
  exact ⟨s', rets, hrun, hrets, hrel⟩

theorem slistNew_refines (height : Nat) (head : SlistPtr) (garbage : Nat → UInt64) :
    (slistNew height head garbage : Slist V).Refines SortedMap.empty :=
  ⟨[], slistNew_rep height head garbage, rfl⟩

/-- Any sequence of calls returns what a sorted map returns, whatever the heights drawn and
the addresses allocated, and leaves a list in good order. -/
theorem slist_refines_map (height : Nat) (head : SlistPtr) (garbage : Nat → UInt64)
    {ops : List (SlistOp V)}
    (hops : Along slistStep FreshNode (slistNew height head garbage) ops) :
    ∃ s rets, run slistStep (slistNew height head garbage) ops = some (s, rets) ∧
      List.Forall₂ (fun r o => ∀ r' ∈ o, r = r') rets
        (specRun sortedMapStep (SortedMap.empty : SortedMap Key V) ops).2 ∧
      s.Refines (specRun sortedMapStep (SortedMap.empty : SortedMap Key V) ops).1 :=
  (slistNew_refines height head garbage).runs hops

def slistSampleCalls : List (SlistOp Nat) :=
  [.insert ⟨[2]⟩ 5 [true, true] 1, .insert ⟨[1]⟩ 6 [] 2, .rank ⟨[2]⟩, .popFront]

theorem slistSampleCalls_fresh :
    Along slistStep FreshNode (slistNew 2 0 fun _ => 0) slistSampleCalls := by
  decide +kernel

theorem slist_refines_map_sample : ∃ s rets,
    run slistStep (slistNew 2 0 fun _ => 0) slistSampleCalls = some (s, rets) ∧
      List.Forall₂ (fun r o => ∀ r' ∈ o, r = r') rets
        (specRun sortedMapStep (SortedMap.empty : SortedMap Key Nat) slistSampleCalls).2 ∧
      s.Refines (specRun sortedMapStep (SortedMap.empty : SortedMap Key Nat) slistSampleCalls).1 :=
  slist_refines_map 2 0 (fun _ => 0) slistSampleCalls_fresh

end Calls

def Slist.walk (s : Slist V) : Nat → SlistPtr → Option SlistPtr
  | 0, x => some x
  | n+1, x => ((s.levels 0).next x).bind (s.walk n)

theorem Slist.walk_path {a : SlistPtr} {l : List SlistPtr} (h : Path (s.levels 0).next a l) :
    s.walk l.length a = some (last a l) := by
  induction l generalizing a with
  | nil => rfl
  | cons b l ih => rw [List.length_cons, Slist.walk, h.1, Option.bind_some, ih h.2, last_cons]

theorem Slist.Rep.pos_last (h : s.Rep L) {lo hi : List SlistPtr} (hL : L = lo ++ hi) :
    s.pos L (last s.head lo) = UInt64.ofNat lo.length := by
  rcases List.eq_nil_or_concat' lo with rfl | ⟨l, x, rfl⟩
  · exact Slist.pos_head
  · rw [List.append_assoc] at hL
    rw [last_append, last_cons, last_nil, h.pos_at hL, List.length_append]
    rfl

/-- A span is the number of level-0 steps it skips. -/
theorem Slist.Rep.span_walk (h : s.Rep L) {l : Nat} {x y : SlistPtr}
    (hx : x = s.head ∨ l < s.height x) (hy : (s.levels l).next x = some y) :
    s.walk ((s.levels l).span x).toNat x = some y := by
  have hmem : x ∈ s.head :: s.level L l := by
    rcases hx with rfl | hx
    · simp
    · by_cases hm : x ∈ s.head :: L
      · exact (List.mem_cons.mp hm).elim (by simp +contextual)
          fun hm => List.mem_cons_of_mem _ (Slist.mem_level.mpr ⟨hm, hx⟩)
      · have := h.free x hm
        omega
  -- the level, cut after `x`
  obtain ⟨p, r, hlevel, hlast⟩ : ∃ p r, s.level L l = p ++ r ∧ last s.head p = x := by
    rcases List.mem_cons.mp hmem with rfl | hm
    · exact ⟨[], _, rfl, rfl⟩
    · obtain ⟨p, r, hpr⟩ := List.append_of_mem hm
      exact ⟨p ++ [x], r, by rw [hpr]; simp, by rw [last_append]; rfl⟩
  have hholds := h.holds l
  rw [hlevel] at hholds
  have hnext := ((chain_append _ _ _).mp hholds.next).2
  have hspan := ((spans_append _ _ _).mp hholds.span).2
  rw [hlast] at hnext hspan
  obtain ⟨r, rfl⟩ : ∃ r', r = y :: r' := by
    rw [chain_next hnext] at hy
    exact List.head?_eq_some_iff.mp hy
  have hpy : ∀ z ∈ p, s.key z < s.key y := by
    have hs := h.level_sorted l
    rw [hlevel] at hs
    exact fun z hz => (List.pairwise_append.mp hs).2.2 z hz y (by simp)
  -- level 0, cut in the same two places
  obtain ⟨lo, rest, hL, hlo⟩ : ∃ lo rest, L = lo ++ rest ∧ last s.head lo = x := by
    rcases List.mem_cons.mp hmem with rfl | hm
    · exact ⟨[], _, rfl, rfl⟩
    · obtain ⟨lo, rest, hLx⟩ := List.append_of_mem (Slist.mem_level.mp hm).1
      exact ⟨lo ++ [x], rest, by rw [hLx]; simp, by rw [last_append]; rfl⟩
  have hyL : y ∈ L := (Slist.mem_level.mp (by rw [hlevel]; simp : y ∈ s.level L l)).1
  have hyrest : y ∈ rest := by
    rw [hL] at hyL
    refine (List.mem_append.mp hyL).resolve_left fun hylo => ?_
    have hs := h.sorted
    rcases List.eq_nil_or_concat' lo with rfl | ⟨lo', w, rfl⟩
    · simp at hylo
    · rw [last_append, last_cons, last_nil] at hlo
      subst hlo
      have hxy : s.key w < s.key y := by
        rcases List.mem_cons.mp (last_mem s.head p) with he | hm
        · exact absurd (by rw [hL, ← he, hlast]; simp) h.head
        · exact hpy w (hlast ▸ hm)
      rw [hL, List.append_assoc] at hs
      rcases List.mem_append.mp hylo with hy | hy
      · exact lt_asymm hxy ((List.pairwise_append.mp hs).2.2 y hy w (by simp))
      · rw [List.mem_singleton.mp hy] at hxy
        exact lt_irrefl _ hxy
  obtain ⟨mid, rest, rfl⟩ := List.append_of_mem hyrest
  have hpos : s.pos L y = UInt64.ofNat lo.length + UInt64.ofNat (mid.length + 1) := by
    rw [h.pos_at (by rw [hL, ← List.append_assoc] : L = (lo ++ mid) ++ y :: rest),
      List.length_append, Nat.add_assoc, UInt64.ofNat_add]
  have hd : (s.levels l).span x = UInt64.ofNat (mid.length + 1) := by
    rw [hspan.1, hpos, ← hlo, h.pos_last hL]
    grind
  have hlen : mid.length + 1 < 2^64 := by
    have := h.length_lt
    rw [hL] at this
    simp only [List.length_append, List.length_cons] at this
    omega
  have hc := (h.holds 0).next
  rw [h.level_zero, hL, show lo ++ (mid ++ y :: rest) = lo ++ ((mid ++ [y]) ++ rest) by simp] at hc
  have hpath := ((chain_append _ _ _).mp ((chain_append _ _ _).mp hc).2).1
  rw [hlo] at hpath
  have hwalk := Slist.walk_path hpath
  rw [hd, UInt64.toNat_ofNat_of_lt' hlen]
  simpa [last_append] using hwalk

/-- After any calls every span with a successor counts the level-0 steps to it, and every
rank is one more than the number of smaller keys. -/
theorem slist_spans_and_ranks [Inhabited V] (height : Nat) (head : SlistPtr)
    (garbage : Nat → UInt64) {ops : List (SlistOp V)}
    (hops : Along slistStep FreshNode (slistNew height head garbage) ops) :
    ∃ s rets, run slistStep (slistNew height head garbage) ops = some (s, rets) ∧
      (∀ l x y, x = s.head ∨ l < s.height x → (s.levels l).next x = some y →
        s.walk ((s.levels l).span x).toNat x = some y) ∧
      ∀ key, slistRank s key = some
        (if key ∈ (specRun sortedMapStep (SortedMap.empty : SortedMap Key V) ops).1.keys then
          ((specRun sortedMapStep (SortedMap.empty : SortedMap Key V) ops).1.rank key : Int) + 1
        else -1) := by
  obtain ⟨s, rets, hrun, -, L, h, hm⟩ := (slistNew_refines height head garbage).runs hops
  exact ⟨s, rets, hrun, fun l x y hx hy => h.span_walk hx hy, fun key => h.rank hm key⟩

theorem slist_spans_and_ranks_sample : ∃ s rets,
    run slistStep (slistNew 2 0 fun _ => 0) slistSampleCalls = some (s, rets) ∧
      (∀ l x y, x = s.head ∨ l < s.height x → (s.levels l).next x = some y →
        s.walk ((s.levels l).span x).toNat x = some y) ∧
      ∀ key, slistRank s key = some
        (if key ∈ (specRun sortedMapStep (SortedMap.empty : SortedMap Key Nat)
            slistSampleCalls).1.keys then
          ((specRun sortedMapStep (SortedMap.empty : SortedMap Key Nat)
            slistSampleCalls).1.rank key : Int) + 1
        else -1) :=
  slist_spans_and_ranks 2 0 (fun _ => 0) slistSampleCalls_fresh

end SimpleKit
