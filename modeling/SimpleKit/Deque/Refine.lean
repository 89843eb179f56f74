import Mathlib.Data.Fintype.Card
import SimpleKit.Deque.Model
import SimpleKit.Lib.Linked
import SimpleKit.Lib.Run

/-!
The deque is a sequence. Its two pointers and the links of its nodes are read as one chain that
hangs off the deque itself, so that both ends are the same kind of place: a node goes in between
two neighbours or is taken out from between them, either of which may be the deque.
-/
set_option autoImplicit false

namespace SimpleKit
open Linked Runs

variable {V : Type} {s s' : Sdeque V} {node : SdequePtr} {v : V} {p q : Option SdequePtr}

/-- The deque itself is `none`, and its `next` is the head. -/
def Sdeque.nextOf (s : Sdeque V) : Option SdequePtr → Option (Option SdequePtr)
  | none => s.head.map some
  | some node => (s.nodes node).bind fun n => n.next.map some

def Sdeque.prevOf (s : Sdeque V) : Option SdequePtr → Option (Option SdequePtr)
  | none => none
  | some node => (s.nodes node).map SdequeNode.prev

/-- The pointers to `node`'s place change: what comes after `p` is `a`, and before `q` is `b`.
Whatever `node` itself becomes, the other nodes stay. -/
structure Sdeque.Relinks (s : Sdeque V) (node : SdequePtr) (p q a b : Option SdequePtr)
    (s' : Sdeque V) : Prop where
  head : s'.head = if p = none then a else s.head
  tail : s'.tail = if q = none then b else s.tail
  nodes : ∀ y, y ≠ node → s'.nodes y = (s.nodes y).map fun n =>
    ⟨n.value, if p = some y then a else n.next, if q = some y then b else n.prev⟩

structure Sdeque.Inserts (s : Sdeque V) (node : SdequePtr) (v : V) (p q : Option SdequePtr)
    (s' : Sdeque V) : Prop where
  links : s.Relinks node p q (some node) (some node) s'
  new : s'.nodes node = some ⟨v, q, p⟩
  count : s'.numNodes = s.numNodes + 1

structure Sdeque.Erases (s : Sdeque V) (node : SdequePtr) (p q : Option SdequePtr)
    (s' : Sdeque V) : Prop where
  links : s.Relinks node p q q p s'
  count : s'.numNodes = s.numNodes - 1

def Sdeque.Points (s : Sdeque V) (p : Option SdequePtr) : Prop :=
  ∀ y, p = some y → (s.nodes y).isSome

section Functions

theorem sdequePushFront_inserts (hnew : s.nodes node = none) (hhead : s.Points s.head) (v : V) :
    ∃ s', sdequePushFront s node v = some s' ∧ s.Inserts node v none s.head s' := by
  cases hs : s.head with
  | none =>
    refine ⟨{ s.setNode node (some ⟨v, none, none⟩) with
      head := some node, tail := some node, numNodes := s.numNodes + 1 }, ?_,
      ⟨⟨rfl, rfl, fun y hy => ?_⟩, Function.update_self .., rfl⟩⟩
    · simp [sdequePushFront, Sdeque.setNode, hs]
    · refine (Function.update_of_ne hy ..).trans ?_
      cases s.nodes y <;> rfl
  | some head =>
    obtain ⟨n, hn⟩ := Option.isSome_iff_exists.mp (hhead head hs)
    have hne : head ≠ node := by
      rintro rfl
      rw [hnew] at hn
      cases hn
    refine ⟨{ (s.setNode node (some ⟨v, some head, none⟩)).setNode head
        (some { n with prev := some node }) with
      head := some node, numNodes := s.numNodes + 1 }, ?_,
      ⟨⟨rfl, rfl, fun y hy => ?_⟩, ?_, rfl⟩⟩
    · simp [sdequePushFront, Sdeque.setPrev, Sdeque.setNode, hs, hne, hn]
    · by_cases hyh : y = head
      · subst hyh
        refine (Function.update_self ..).trans ?_
        simp [hn]
      · refine (Function.update_of_ne hyh ..).trans ((Function.update_of_ne hy ..).trans ?_)
        have hno : some head ≠ some y := fun he => hyh (Option.some.inj he).symm
        cases s.nodes y <;> simp [hno]
    · exact (Function.update_of_ne hne.symm ..).trans (Function.update_self ..)

theorem sdequePushBack_inserts (hnew : s.nodes node = none) (htail : s.Points s.tail) (v : V) :
    ∃ s', sdequePushBack s node v = some s' ∧ s.Inserts node v s.tail none s' := by
  cases hs : s.tail with
  | none =>
    refine ⟨{ s.setNode node (some ⟨v, none, none⟩) with
      head := some node, tail := some node, numNodes := s.numNodes + 1 }, ?_,
      ⟨⟨rfl, rfl, fun y hy => ?_⟩, Function.update_self .., rfl⟩⟩
    · simp [sdequePushBack, Sdeque.setNode, hs]
    · refine (Function.update_of_ne hy ..).trans ?_
      cases s.nodes y <;> rfl
  | some tail =>
    obtain ⟨n, hn⟩ := Option.isSome_iff_exists.mp (htail tail hs)
    have hne : tail ≠ node := by
      rintro rfl
      rw [hnew] at hn
      cases hn
    refine ⟨{ (s.setNode node (some ⟨v, none, some tail⟩)).setNode tail
        (some { n with next := some node }) with
      tail := some node, numNodes := s.numNodes + 1 }, ?_,
      ⟨⟨rfl, rfl, fun y hy => ?_⟩, ?_, rfl⟩⟩
    · simp [sdequePushBack, Sdeque.setNext, Sdeque.setNode, hs, hne, hn]
    · by_cases hyt : y = tail
      · subst hyt
        refine (Function.update_self ..).trans ?_
        simp [hn]
      · refine (Function.update_of_ne hyt ..).trans ((Function.update_of_ne hy ..).trans ?_)
        have hno : some tail ≠ some y := fun he => hyt (Option.some.inj he).symm
        cases s.nodes y <;> simp [hno]
    · exact (Function.update_of_ne hne.symm ..).trans (Function.update_self ..)

theorem sdequePopFront_erases {n : SdequeNode V} (hhead : s.head = some node)
    (hn : s.nodes node = some n) (hnext : s.Points n.next) (hself : n.next ≠ some node) :
    ∃ s', sdequePopFront s = some (s', 0) ∧ s.Erases node none n.next s' := by
  cases hq : n.next with
  | none =>
    refine ⟨{ s.setNode node none with
      head := none, tail := none, numNodes := s.numNodes - 1 }, ?_,
      ⟨⟨rfl, rfl, fun y hy => ?_⟩, rfl⟩⟩
    · simp [sdequePopFront, Sdeque.free, Sdeque.setNode, hhead, hn, hq]
    · refine (Function.update_of_ne hy ..).trans ?_
      cases s.nodes y <;> rfl
  | some head =>
    obtain ⟨m, hm⟩ := Option.isSome_iff_exists.mp (hnext head hq)
    have hne : head ≠ node := fun he => hself (he ▸ hq)
    refine ⟨{ (s.setNode head (some { m with prev := none })).setNode node none with
      head := some head, numNodes := s.numNodes - 1 }, ?_,
      ⟨⟨rfl, rfl, fun y hy => ?_⟩, rfl⟩⟩
    · simp [sdequePopFront, Sdeque.setPrev, Sdeque.free, Sdeque.setNode, hhead, hn, hq, hm,
        hne.symm]
    · refine (Function.update_of_ne hy ..).trans ?_
      by_cases hyh : y = head
      · subst hyh
        refine (Function.update_self ..).trans ?_
        simp [hm]
      · refine (Function.update_of_ne hyh ..).trans ?_
        have hno : some head ≠ some y := fun he => hyh (Option.some.inj he).symm
        cases s.nodes y <;> simp [hno]

theorem sdequePopBack_erases {n : SdequeNode V} (htail : s.tail = some node)
    (hn : s.nodes node = some n) (hprev : s.Points n.prev) (hself : n.prev ≠ some node) :
    ∃ s', sdequePopBack s = some (s', 0) ∧ s.Erases node n.prev none s' := by
  cases hp : n.prev with
  | none =>
    refine ⟨{ s.setNode node none with
      head := none, tail := none, numNodes := s.numNodes - 1 }, ?_,
      ⟨⟨rfl, rfl, fun y hy => ?_⟩, rfl⟩⟩
    · simp [sdequePopBack, Sdeque.free, Sdeque.setNode, htail, hn, hp]
    · refine (Function.update_of_ne hy ..).trans ?_
      cases s.nodes y <;> rfl
  | some tail =>
    obtain ⟨m, hm⟩ := Option.isSome_iff_exists.mp (hprev tail hp)
    have hne : tail ≠ node := fun he => hself (he ▸ hp)
    refine ⟨{ (s.setNode tail (some { m with next := none })).setNode node none with
      tail := some tail, numNodes := s.numNodes - 1 }, ?_,
      ⟨⟨rfl, rfl, fun y hy => ?_⟩, rfl⟩⟩
    · simp [sdequePopBack, Sdeque.setNext, Sdeque.free, Sdeque.setNode, htail, hn, hp, hm,
        hne.symm]
    · refine (Function.update_of_ne hy ..).trans ?_
      by_cases hyt : y = tail
      · subst hyt
        refine (Function.update_self ..).trans ?_
        simp [hm]
      · refine (Function.update_of_ne hyt ..).trans ?_
        have hno : some tail ≠ some y := fun he => hyt (Option.some.inj he).symm
        cases s.nodes y <;> simp [hno]

end Functions

section Links
variable {a b : Option SdequePtr}

theorem Sdeque.Relinks.nextOf_before (h : s.Relinks node p q a b s') (hp : s.Points p)
    (hne : p ≠ some node) : s'.nextOf p = a.map some := by
  cases p with
  | none =>
    rw [nextOf, h.head]
    rfl
  | some y =>
    obtain ⟨n, hn⟩ := Option.isSome_iff_exists.mp (hp y rfl)
    rw [nextOf, h.nodes y (fun he => hne (congrArg some he)), hn]
    simp

theorem Sdeque.Relinks.nextOf_other (h : s.Relinks node p q a b s') {y : Option SdequePtr}
    (hne : y ≠ some node) (hy : y ≠ p) : s'.nextOf y = s.nextOf y := by
  cases y with
  | none => rw [nextOf, nextOf, h.head, if_neg hy.symm]
  | some y =>
    rw [nextOf, nextOf, h.nodes y (fun he => hne (congrArg some he))]
    cases s.nodes y <;> simp [hy.symm]

theorem Sdeque.Relinks.prevOf_after (h : s.Relinks node p q a b s') (hq : s.Points q)
    {y : Option SdequePtr} (hy : (q.map some) = some y) (hne : y ≠ some node) :
    s'.prevOf y = some b := by
  obtain ⟨y, hqy, rfl⟩ := Option.map_eq_some_iff.mp hy
  obtain ⟨n, hn⟩ := Option.isSome_iff_exists.mp (hq y hqy)
  rw [prevOf, h.nodes y (fun he => hne (congrArg some he)), hn]
  simp [hqy]

theorem Sdeque.Relinks.prevOf_other (h : s.Relinks node p q a b s') {y : Option SdequePtr}
    (hne : y ≠ some node) (hy : q.map some ≠ some y) : s'.prevOf y = s.prevOf y := by
  cases y with
  | none => rfl
  | some y =>
    have hno : q ≠ some y := fun he => hy (congrArg (Option.map some) he)
    rw [prevOf, prevOf, h.nodes y (fun he => hne (congrArg some he))]
    cases s.nodes y <;> simp [hno]

theorem Sdeque.Relinks.value (h : s.Relinks node p q a b s') {y : SdequePtr} (hne : y ≠ node) :
    (s'.nodes y).map SdequeNode.value = (s.nodes y).map SdequeNode.value := by
  rw [h.nodes y hne, Option.map_map]
  rfl

end Links

def chainOf (entries : List (SdequePtr × V)) : List (Option SdequePtr) :=
  entries.map fun x => some x.1

structure Sdeque.Rep (s : Sdeque V) (entries : List (SdequePtr × V)) : Prop where
  next : Chain s.nextOf none (chainOf entries)
  prev : Back s.prevOf none (chainOf entries)
  tail : s.tail = last none (chainOf entries)
  nodup : (entries.map Prod.fst).Nodup
  value : ∀ x ∈ entries, (s.nodes x.1).map SdequeNode.value = some x.2
  count : s.numNodes = UInt64.ofNat entries.length

section Chains
variable {entries front rear : List (SdequePtr × V)}

theorem chainOf_append : chainOf (front ++ rear) = chainOf front ++ chainOf rear :=
  List.map_append

theorem chainOf_split : chainOf (front ++ (node, v) :: rear) =
    chainOf front ++ some node :: chainOf rear :=
  chainOf_append

theorem mem_chainOf {y : Option SdequePtr} : y ∈ chainOf entries ↔ ∃ x ∈ entries, some x.1 = y :=
  List.mem_map

theorem chain_nodup (h : (entries.map Prod.fst).Nodup) : (none :: chainOf entries).Nodup := by
  refine List.nodup_cons.mpr ⟨fun hmem => ?_, ?_⟩
  · obtain ⟨x, -, hx⟩ := mem_chainOf.mp hmem
    cases hx
  · have hmap : chainOf entries = (entries.map Prod.fst).map some := by
      rw [List.map_map]
      rfl
    rw [hmap]
    exact h.map (Option.some_injective _)

theorem nodup_split : ((front ++ (node, v) :: rear).map Prod.fst).Nodup ↔
    (∀ x ∈ front ++ rear, x.1 ≠ node) ∧ ((front ++ rear).map Prod.fst).Nodup := by
  rw [List.map_append, List.map_cons, List.nodup_middle, List.nodup_cons, ← List.map_append,
    List.mem_map]
  refine and_congr_left' ⟨fun h x hx he => h ⟨x, hx, he⟩, ?_⟩
  rintro h ⟨x, hx, he⟩
  exact h x hx he

theorem Sdeque.Rep.new : (sdequeNew : Sdeque V).Rep [] :=
  ⟨rfl, trivial, rfl, List.nodup_nil, fun _ hx => absurd hx List.not_mem_nil, rfl⟩

theorem Sdeque.Rep.allocated (h : s.Rep entries) {x : SdequePtr × V} (hx : x ∈ entries) :
    ∃ n, s.nodes x.1 = some n ∧ n.value = x.2 :=
  Option.map_eq_some_iff.mp (h.value x hx)

theorem Sdeque.Rep.points (h : s.Rep entries) (hp : p ∈ none :: chainOf entries) : s.Points p := by
  rintro y rfl
  obtain ⟨x, hx, he⟩ := mem_chainOf.mp ((List.mem_cons.mp hp).resolve_left nofun)
  obtain ⟨n, hn, -⟩ := h.allocated hx
  rw [← Option.some.inj he, hn]
  rfl

theorem not_mem_chainOf (h : ∀ x ∈ entries, x.1 ≠ node) {y : Option SdequePtr}
    (hy : y ∈ none :: chainOf entries) : y ≠ some node := by
  rintro rfl
  obtain ⟨x, hx, he⟩ := mem_chainOf.mp ((List.mem_cons.mp hy).resolve_left nofun)
  exact h x hx (Option.some.inj he)

theorem last_rear (hq : q.map some = (chainOf rear).head?) (a b : Option SdequePtr) :
    (if q = none then b else last a (chainOf rear)) = last b (chainOf rear) := by
  cases rear with
  | nil => exact if_pos (Option.map_eq_none_iff.mp hq)
  | cons x rear =>
    have hsome : q ≠ none := by
      rintro rfl
      cases hq
    exact if_neg hsome

theorem Sdeque.Rep.insert (h : s.Rep (front ++ rear)) (hnew : s.nodes node = none)
    (hp : p = last none (chainOf front)) (hq : q.map some = (chainOf rear).head?)
    (hi : s.Inserts node v p q s') : s'.Rep (front ++ (node, v) :: rear) := by
  subst hp
  have hout : ∀ x ∈ front ++ rear, x.1 ≠ node := by
    rintro x hx rfl
    obtain ⟨n, hn, -⟩ := h.allocated hx
    rw [hnew] at hn
    cases hn
  have hne : ∀ y ∈ none :: chainOf (front ++ rear), y ≠ some node := fun y => not_mem_chainOf hout
  have hpoints : ∀ y ∈ none :: chainOf (front ++ rear), s.Points y := fun y => h.points
  have hnd := chain_nodup h.nodup
  have hchain := h.next
  have hback := h.prev
  rw [chainOf_append] at hne hpoints hnd hchain hback
  have hlast := last_mem_of_subset none (List.subset_append_left (chainOf front) (chainOf rear))
  have hqs : s.Points q := by
    rintro y rfl
    refine hpoints (some y) ?_ y rfl
    exact List.mem_cons_of_mem _ (List.mem_append_right _ (List.mem_of_mem_head? hq.symm))
  refine ⟨?_, ?_, ?_, nodup_split.mpr ⟨hout, h.nodup⟩, fun x hx => ?_, ?_⟩
  · rw [chainOf_split]
    refine chain_insert hnd (fun hmem => hne _ hmem rfl) hchain
      (hi.links.nextOf_before (hpoints _ hlast) (hne _ hlast)) ?_
      fun y hy => hi.links.nextOf_other (hne y hy)
    rw [Sdeque.nextOf, hi.new]
    exact hq.trans (chain_next ((chain_append none _ _).mp hchain).2).symm
  · rw [chainOf_split]
    refine back_insert hnd hback ?_ ?_ ?_
    · rw [Sdeque.prevOf, hi.new]
      rfl
    · intro y hy
      refine hi.links.prevOf_after hqs (hq.trans hy) (hne y ?_)
      exact List.mem_cons_of_mem _ (List.mem_append_right _ (List.mem_of_mem_head? hy))
    · intro y hy hyh
      exact hi.links.prevOf_other (hne y (List.mem_cons_of_mem _ hy)) (hq ▸ hyh)
  · rw [chainOf_split, last_append, last_cons, hi.links.tail, h.tail, chainOf_append, last_append]
    exact last_rear hq _ _
  · rcases List.mem_cons.mp (List.perm_middle.mem_iff.mp hx) with rfl | hx
    · rw [hi.new]
      rfl
    · rw [hi.links.value (hout x hx)]
      exact h.value x hx
  · rw [hi.count, h.count, List.length_append, List.length_append, List.length_cons,
      ← Nat.add_assoc, UInt64.ofNat_add _ 1]
    rfl

theorem Sdeque.Rep.erase (h : s.Rep (front ++ (node, v) :: rear))
    (hp : p = last none (chainOf front)) (hq : q.map some = (chainOf rear).head?)
    (he : s.Erases node p q s') : s'.Rep (front ++ rear) := by
  subst hp
  obtain ⟨hout, hnodup⟩ := nodup_split.mp h.nodup
  have hne : ∀ y ∈ none :: chainOf (front ++ rear), y ≠ some node := fun y => not_mem_chainOf hout
  have hpoints : ∀ y ∈ none :: chainOf (front ++ (node, v) :: rear), s.Points y := fun y => h.points
  have hnd := chain_nodup h.nodup
  have hchain := h.next
  have hback := h.prev
  rw [chainOf_append] at hne
  rw [chainOf_split] at hpoints hnd hchain hback
  have hlast := List.subset_append_left (chainOf front)
  have hqs : s.Points q := by
    rintro y rfl
    refine hpoints (some y) ?_ y rfl
    refine List.mem_cons_of_mem _ (List.mem_append_right _ (List.mem_cons_of_mem _ ?_))
    exact List.mem_of_mem_head? hq.symm
  refine ⟨?_, ?_, ?_, hnodup, fun x hx => ?_, ?_⟩
  · rw [chainOf_append]
    refine chain_erase hnd hchain ?_ fun y hy => he.links.nextOf_other (hne y hy)
    rw [he.links.nextOf_before (hpoints _ (last_mem_of_subset none (hlast _)))
      (hne _ (last_mem_of_subset none (hlast _))), hq]
    exact (chain_next_mid hchain).2.symm
  · rw [chainOf_append]
    refine back_erase hnd hback ?_ ?_
    · intro y hy
      rw [back_mid hback]
      refine he.links.prevOf_after hqs (hq.trans hy) (hne y ?_)
      exact List.mem_cons_of_mem _ (List.mem_append_right _ (List.mem_of_mem_head? hy))
    · intro y hy hyh
      exact he.links.prevOf_other (hne y (List.mem_cons_of_mem _ hy)) (hq ▸ hyh)
  · rw [he.links.tail, h.tail, chainOf_split, chainOf_append, last_append, last_append, last_cons]
    exact last_rear hq _ _
  · rw [he.links.value (hout x hx)]
    exact h.value x (List.perm_middle.mem_iff.mpr (List.mem_cons_of_mem _ hx))
  · rw [he.count, h.count, List.length_append, List.length_append, List.length_cons,
      ← Nat.add_assoc, UInt64.ofNat_add _ 1]
    exact UInt64.add_sub_cancel _ _

end Chains

section Ends
variable {entries : List (SdequePtr × V)}

theorem Sdeque.Rep.head (h : s.Rep entries) : s.head.map some = (chainOf entries).head? := by
  change s.nextOf none = _
  exact chain_next h.next

theorem Sdeque.Rep.pushFront (h : s.Rep entries) (hnew : s.nodes node = none) (v : V) :
    ∃ s', sdequePushFront s node v = some s' ∧ s'.Rep ((node, v) :: entries) := by
  have h0 : s.Rep ([] ++ entries) := h
  have hhead : s.Points s.head := by
    rintro y hy
    have hmem := h.head
    rw [hy] at hmem
    exact h.points (List.mem_cons_of_mem none (List.mem_of_mem_head? hmem.symm)) y rfl
  obtain ⟨s', hs', hi⟩ := sdequePushFront_inserts hnew hhead v
  exact ⟨s', hs', h0.insert hnew rfl h.head hi⟩

theorem Sdeque.Rep.pushBack (h : s.Rep entries) (hnew : s.nodes node = none) (v : V) :
    ∃ s', sdequePushBack s node v = some s' ∧ s'.Rep (entries ++ [(node, v)]) := by
  have h0 : s.Rep (entries ++ []) := by rwa [List.append_nil]
  have htail : s.Points s.tail := by
    rw [h.tail]
    exact h.points (last_mem none _)
  obtain ⟨s', hs', hi⟩ := sdequePushBack_inserts hnew htail v
  exact ⟨s', hs', h0.insert hnew h.tail rfl hi⟩

theorem Sdeque.Rep.popFront (h : s.Rep ((node, v) :: entries)) :
    ∃ s', sdequePopFront s = some (s', 0) ∧ s'.Rep entries := by
  have hhead : s.head = some node := Option.map_injective (Option.some_injective _) h.head
  obtain ⟨n, hn, -⟩ := h.allocated List.mem_cons_self
  have hnext : n.next.map some = (chainOf entries).head? := by
    have hmid := (chain_next_mid (a := none) (l := []) h.next).2
    rwa [Sdeque.nextOf, hn] at hmid
  have hmem : ∀ y, n.next = some y → some y ∈ chainOf entries := fun y hy => by
    rw [hy] at hnext
    exact List.mem_of_mem_head? hnext.symm
  have hself : n.next ≠ some node := fun hy =>
    (List.nodup_cons.mp (List.nodup_cons.mp (chain_nodup h.nodup)).2).1 (hmem node hy)
  have hpoints : s.Points n.next := fun y hy =>
    h.points (List.mem_cons_of_mem none (List.mem_cons_of_mem _ (hmem y hy))) y rfl
  obtain ⟨s', hs', he⟩ := sdequePopFront_erases hhead hn hpoints hself
  have h0 : s.Rep ([] ++ (node, v) :: entries) := h
  exact ⟨s', hs', h0.erase rfl hnext he⟩

theorem Sdeque.Rep.popBack (h : s.Rep (entries ++ [(node, v)])) :
    ∃ s', sdequePopBack s = some (s', 0) ∧ s'.Rep entries := by
  have htail := h.tail
  have hback := h.prev
  have hnd := chain_nodup h.nodup
  rw [chainOf_split] at htail hback hnd
  rw [last_append] at htail
  obtain ⟨n, hn, -⟩ := h.allocated (x := (node, v)) (by simp)
  have hprev : n.prev = last none (chainOf entries) := by
    have hmid := back_mid hback
    rw [Sdeque.prevOf, hn] at hmid
    exact Option.some.inj hmid
  have hmem := last_mem none (chainOf entries)
  have hself : n.prev ≠ some node := by
    rw [hprev]
    intro he
    rw [he] at hmem
    exact not_mem_of_nodup_append hnd List.mem_cons_self hmem
  have hpoints : s.Points n.prev := by
    rw [hprev]
    refine h.points ?_
    rw [chainOf_split]
    exact last_mem_of_subset none (List.subset_append_left _ _)
  obtain ⟨s', hs', he⟩ := sdequePopBack_erases htail hn hpoints hself
  refine ⟨s', hs', ?_⟩
  have h' := h.erase hprev rfl he
  rwa [List.append_nil] at h'

end Ends

section Walks
variable {entries : List (SdequePtr × V)} {nodes : List SdequePtr}

theorem Sdeque.visits_next {a : Option SdequePtr} (h : Chain s.nextOf a (nodes.map some))
    (ha : s.nextOf a = p.map some) (halloc : ∀ y ∈ nodes, (s.nodes y).isSome) :
    s.Visits SdequeNode.next p nodes := by
  induction nodes generalizing a p with
  | nil => exact Option.map_eq_none_iff.mp (ha.symm.trans h)
  | cons y nodes ih =>
    obtain ⟨n, hn⟩ := Option.isSome_iff_exists.mp (halloc y List.mem_cons_self)
    have hp : p.map some = some (some y) := ha.symm.trans h.1
    refine ⟨Option.map_injective (Option.some_injective _) hp, n, hn, ih h.2 ?_ ?_⟩
    · rw [Sdeque.nextOf, hn]
      rfl
    · exact fun z hz => halloc z (List.mem_cons_of_mem y hz)

theorem Sdeque.visits_prev (h : Back s.prevOf none (nodes.map some))
    (halloc : ∀ y ∈ nodes, (s.nodes y).isSome) :
    s.Visits SdequeNode.prev (last none (nodes.map some)) nodes.reverse := by
  induction nodes using List.reverseRecOn with
  | nil => rfl
  | append_singleton nodes y ih =>
    rw [List.map_append, back_append] at h
    obtain ⟨n, hn⟩ := Option.isSome_iff_exists.mp (halloc y (by simp))
    have hprev : n.prev = last none (nodes.map some) := by
      have hy := h.2.1
      rw [Sdeque.prevOf, hn] at hy
      exact Option.some.inj hy
    rw [List.map_append, last_append, List.reverse_append]
    refine ⟨rfl, n, hn, ?_⟩
    rw [hprev]
    exact ih h.1 fun z hz => halloc z (List.mem_append_left _ hz)

theorem Sdeque.Rep.isSome (h : s.Rep entries) : ∀ y ∈ entries.map Prod.fst, (s.nodes y).isSome := by
  intro y hy
  obtain ⟨x, hx, rfl⟩ := List.mem_map.mp hy
  obtain ⟨n, hn, -⟩ := h.allocated hx
  rw [hn]
  rfl

theorem chainOf_eq : chainOf entries = (entries.map Prod.fst).map some := by
  rw [List.map_map]
  rfl

theorem Sdeque.Rep.head_prev (h : s.Rep entries) (hhead : s.head = some node) :
    (s.nodes node).map SdequeNode.prev = some none := by
  have hnode := h.head
  have hback := h.prev
  cases entries with
  | nil =>
    rw [hhead] at hnode
    cases hnode
  | cons x entries =>
    rw [hhead] at hnode
    obtain rfl := Option.some.inj (Option.some.inj hnode)
    exact hback.1

theorem Sdeque.Rep.tail_next (h : s.Rep entries) (htail : s.tail = some node) :
    (s.nodes node).map SdequeNode.next = some none := by
  have hnode := h.tail
  rcases List.eq_nil_or_concat' entries with rfl | ⟨entries, x, rfl⟩
  · rw [htail] at hnode
    cases hnode
  · obtain ⟨n, hn, -⟩ := h.allocated (x := x) (by simp)
    have hend := (chain_next_mid (chainOf_append ▸ h.next)).2
    rw [htail, chainOf_append, last_append] at hnode
    obtain rfl := Option.some.inj hnode
    rw [Sdeque.nextOf, hn] at hend
    rw [hn]
    exact congrArg some (Option.map_eq_none_iff.mp hend)

theorem Sdeque.Rep.size (h : s.Rep entries) : s.numNodes.toNat = entries.length := by
  have hlen : entries.length ≤ 2^60 := by
    have hcard := h.nodup.length_le_card
    rwa [List.length_map, Fintype.card_fin] at hcard
  rw [h.count, UInt64.toNat_ofNat']
  omega

theorem Sdeque.Rep.holds (h : s.Rep entries) : s.Holds (entries.map Prod.snd) where
  nodes := by
    have hnext := h.next
    have hprev := h.prev
    have htail := h.tail
    rw [chainOf_eq] at hnext hprev htail
    refine ⟨entries.map Prod.fst, visits_next hnext rfl h.isSome, ?_, ?_⟩
    · rw [htail]
      exact visits_prev hprev h.isSome
    · rw [List.map_map, List.map_map]
      exact List.map_congr_left h.value
  head_prev _ := h.head_prev
  tail_next _ := h.tail_next
  head := by
    have hhead := h.head
    cases entries with
    | nil => exact iff_of_true (Option.map_eq_none_iff.mp hhead) rfl
    | cons x entries =>
      refine iff_of_false (fun hnone => ?_) (List.cons_ne_nil _ _)
      rw [hnone] at hhead
      cases hhead
  tail := by
    rw [h.tail]
    rcases List.eq_nil_or_concat' entries with rfl | ⟨entries, x, rfl⟩
    · exact iff_of_true rfl rfl
    · rw [chainOf_append, last_append]
      exact iff_of_false nofun (by simp)
  size := by rw [h.size, List.length_map]

end Walks

section Run
variable {entries : List (SdequePtr × V)}

theorem Sdeque.Rep.front (h : s.Rep entries) (value : Bool) : ∃ x, sdequeFront s value = some x ∧
    SdequeRet.value x.1 x.2 = sequenceEnd (entries.map Prod.snd).head? value := by
  have hhead := h.head
  cases entries with
  | nil =>
    have hnone : s.head = none := Option.map_eq_none_iff.mp hhead
    rw [sdequeFront, hnone]
    exact ⟨_, rfl, rfl⟩
  | cons x entries =>
    have hsome : s.head = some x.1 := Option.map_injective (Option.some_injective _) hhead
    obtain ⟨n, hn, hv⟩ := h.allocated List.mem_cons_self
    rw [sdequeFront, hsome]
    cases value with
    | false => exact ⟨_, rfl, rfl⟩
    | true =>
      refine ⟨(0, some n.value), ?_, ?_⟩
      · dsimp only
        rw [if_pos rfl, hn]
        rfl
      · rw [hv]
        rfl

theorem Sdeque.Rep.back (h : s.Rep entries) (value : Bool) : ∃ x, sdequeBack s value = some x ∧
    SdequeRet.value x.1 x.2 = sequenceEnd (entries.map Prod.snd).getLast? value := by
  have htail := h.tail
  rcases List.eq_nil_or_concat' entries with rfl | ⟨entries, x, rfl⟩
  · rw [sdequeBack, htail]
    exact ⟨_, rfl, rfl⟩
  · rw [chainOf_append, last_append] at htail
    have hsome : s.tail = some x.1 := htail
    obtain ⟨n, hn, hv⟩ := h.allocated (x := x) (by simp)
    have hlast : ((entries ++ [x]).map Prod.snd).getLast? = some x.2 := by simp
    rw [sdequeBack, hsome, hlast]
    cases value with
    | false => exact ⟨_, rfl, rfl⟩
    | true =>
      refine ⟨(0, some n.value), ?_, ?_⟩
      · dsimp only
        rw [if_pos rfl, hn]
        rfl
      · rw [hv]
        rfl

theorem sdequeStep_refines {op : SdequeOp V} (h : s.Rep entries) (hop : SdequeOk s op) :
    ∃ s' ret, sdequeStep s op = some (s', ret) ∧
      (∃ entries', s'.Rep entries' ∧
        entries'.map Prod.snd = (sequenceStep (entries.map Prod.snd) op).1) ∧
      ret = (sequenceStep (entries.map Prod.snd) op).2 := by
  cases op with
  | pushFront node v =>
    obtain ⟨s', hs', h'⟩ := h.pushFront hop v
    exact ⟨s', .void, by rw [sdequeStep, hs']; rfl, ⟨_, h', rfl⟩, rfl⟩
  | pushBack node v =>
    obtain ⟨s', hs', h'⟩ := h.pushBack hop v
    exact ⟨s', .void, by rw [sdequeStep, hs']; rfl, ⟨_, h', List.map_append⟩, rfl⟩
  | popFront =>
    cases entries with
    | nil =>
      have hnone : s.head = none := h.holds.head.mpr rfl
      exact ⟨s, .code (-1), by rw [sdequeStep, sdequePopFront, hnone]; rfl, ⟨[], h, rfl⟩, rfl⟩
    | cons x entries =>
      obtain ⟨s', hs', h'⟩ := h.popFront
      exact ⟨s', .code 0, by rw [sdequeStep, hs']; rfl, ⟨entries, h', rfl⟩, rfl⟩
  | popBack =>
    rcases List.eq_nil_or_concat' entries with rfl | ⟨entries, x, rfl⟩
    · have hnone : s.tail = none := h.tail
      exact ⟨s, .code (-1), by rw [sdequeStep, sdequePopBack, hnone]; rfl, ⟨[], h, rfl⟩, rfl⟩
    · obtain ⟨s', hs', h'⟩ := h.popBack
      refine ⟨s', .code 0, by rw [sdequeStep, hs']; rfl, ⟨entries, h', ?_⟩, ?_⟩
      · simp [sequenceStep]
      · simp [sequenceStep]
  | front value =>
    obtain ⟨x, hx, hret⟩ := h.front value
    exact ⟨s, _, by rw [sdequeStep, hx]; rfl, ⟨entries, h, rfl⟩, hret⟩
  | back value =>
    obtain ⟨x, hx, hret⟩ := h.back value
    exact ⟨s, _, by rw [sdequeStep, hx]; rfl, ⟨entries, h, rfl⟩, hret⟩
  | size =>
    refine ⟨s, _, rfl, ⟨entries, h, rfl⟩, ?_⟩
    rw [sdequeSize, h.size]
    simp [sequenceStep]

/-- After every sequence of calls, whatever addresses calloc answers, the results are those of a
sequence with two ends, and the nodes hold that sequence in both directions. -/
theorem sdeque_refines_sequence {ops : List (SdequeOp V)}
    (hops : Along sdequeStep SdequeOk sdequeNew ops) :
    ∃ s rets, run sdequeStep sdequeNew ops = some (s, rets) ∧
      rets = (specRun sequenceStep [] ops).2 ∧ s.Holds (specRun sequenceStep [] ops).1 := by
  obtain ⟨s, rets, hrun, ⟨entries, h, hl⟩, hrets⟩ := run_simulates
    (fun s l => ∃ entries, s.Rep entries ∧ entries.map Prod.snd = l) (fun ret ret' => ret = ret')
    (fun s l op ⟨entries, h, hl⟩ hop => by
      obtain ⟨s', ret, hs', hrep, hret⟩ := sdequeStep_refines h hop
      rw [← hl]
      exact ⟨s', ret, hs', hrep, hret⟩) ⟨[], Sdeque.Rep.new, rfl⟩ hops
  exact ⟨s, rets, hrun, List.forall₂_eq_eq_eq ▸ hrets, hl ▸ h.holds⟩

/-- The one-element and the empty deque are passed at both ends, and an address is used again. -/
def sdequeSampleOps (node1 node2 : SdequePtr) : List (SdequeOp Nat) :=
  [.popFront, .pushFront node1 10, .popBack, .pushBack node1 20, .pushFront node2 30, .back true,
    .popBack, .front true, .popFront, .back false, .size]

theorem sdeque_refines_sequence_sample :
    ∃ s rets, run sdequeStep sdequeNew (sdequeSampleOps 1 2) = some (s, rets) ∧
      rets = (specRun sequenceStep [] (sdequeSampleOps 1 2)).2 ∧
      s.Holds (specRun sequenceStep [] (sdequeSampleOps 1 2)).1 :=
  sdeque_refines_sequence (by decide)

end Run

end SimpleKit
