import SimpleKit.Lib.Cursor
import SimpleKit.Shash.KeepUp

set_option autoImplicit false

namespace SimpleKit
open Linked SortedBy Runs Cursor

variable {V : Type} {s : Shash V} {chain chain' : ShashPtr → List ShashPtr} {m : KeyMap V}

section Selected
variable {q : ShashPtr → Bool} {p : ShashPtr} {rest : List ShashPtr}

theorem tableNodes_filter (hc : ∀ t b, chain' (.bucket t b) = (chain (.bucket t b)).filter q)
    (table n b : Nat) : tableNodes chain' table n b = (tableNodes chain table n b).filter q := by
  induction n generalizing b with
  | zero => rfl
  | succ n ih => rw [tableNodes, tableNodes, List.filter_append, hc, ih]

theorem Shash.after_filter (hc : ∀ t b, chain' (.bucket t b) = (chain (.bucket t b)).filter q)
    (i : Nat) : s.after chain' i = (s.after chain i).filter q := by
  simp only [Shash.after]
  split
  · exact tableNodes_filter hc _ _ _
  · rfl

theorem Shash.Remaining.filter (h : s.Remaining chain (p :: rest)) (hp : q p = true)
    (hc : ∀ t b, chain' (.bucket t b) = (chain (.bucket t b)).filter q) :
    s.Remaining chain' (p :: rest.filter q) := by
  obtain ⟨hit, hi, table, l, r, ht, hch, hrest⟩ := h
  refine ⟨hit, hi, table, l.filter q, r.filter q, ht, ?_, ?_⟩
  · rw [hc, hch, List.filter_append, List.filter_cons_of_pos hp]
  · rw [hrest, List.filter_append, List.filter_append, tableNodes_filter hc,
      Shash.after_filter hc]

theorem Shash.Rep.remaining_unique (h : s.Rep chain m) {rest' : List ShashPtr}
    (hr : s.Remaining chain (p :: rest)) (hr' : s.Remaining chain (p :: rest')) :
    rest = rest' := by
  have hnd := h.order_nodup
  obtain ⟨l, hl⟩ := h.remaining_suffix hr
  obtain ⟨l', hl'⟩ := h.remaining_suffix hr'
  rw [← hl] at hnd hl'
  have hp : p ∉ l ∧ p ∉ rest := by
    rw [List.nodup_middle, List.nodup_cons, List.mem_append, not_or] at hnd
    exact hnd.1
  rcases List.append_eq_append_iff.mp hl' with ⟨d, hd, he⟩ | ⟨d, hd, he⟩
  · cases d with
    | nil => exact (List.cons.inj he).2.symm
    | cons x d =>
      rw [List.cons_append] at he
      obtain ⟨rfl, -⟩ := List.cons.inj he
      exact absurd (by rw [hd]; simp) hp.1
  · cases d with
    | nil => exact (List.cons.inj he).2
    | cons x d =>
      rw [List.cons_append] at he
      obtain ⟨rfl, hrest⟩ := List.cons.inj he
      exact absurd (by rw [hrest]; simp) hp.2

/-- Putting nodes into the chains may put them into what remains and changes nothing else. -/
theorem Shash.Rep.remaining_unfilter (h : s.Rep chain m) (hr : s.Remaining chain (p :: rest))
    (hp : q p = true) (hc : ∀ t b, chain (.bucket t b) = (chain' (.bucket t b)).filter q) :
    ∃ rest', s.Remaining chain' (p :: rest') ∧ rest'.filter q = rest := by
  obtain ⟨hit, hi, table, l, r, ht, hch, -⟩ := id hr
  have hmem : p ∈ chain' (.bucket table s.iteratorBucket) := by
    have hpc : p ∈ chain (.bucket table s.iteratorBucket) := by simp [hch]
    rw [hc] at hpc
    exact (List.mem_filter.mp hpc).1
  obtain ⟨l', r', hlr⟩ := List.append_of_mem hmem
  have hr' : s.Remaining chain' (p :: _) := ⟨hit, hi, table, l', r', ht, hlr, rfl⟩
  exact ⟨_, hr', h.remaining_unique (hr'.filter hp hc) hr⟩

end Selected

theorem Shash.Rep.order_keys (h : s.Rep chain m) : ((s.order chain).map s.key).Nodup := by
  refine List.Nodup.map_on ?_ h.order_nodup
  intro p hp q hq he
  obtain ⟨t, b, hb⟩ := s.bucketFor_bucket (s.key p)
  have hp := h.mem_order.mp hp
  have hq := h.mem_order.mp hq
  rw [← he, hb] at hq
  rw [hb] at hp
  exact h.chains.key_inj hp hq he

theorem Shash.Rep.order_mem (h : s.Rep chain m) {p : ShashPtr} (hp : p ∈ s.order chain) :
    s.key p ∈ m := by
  obtain ⟨t, b, hb⟩ := s.bucketFor_bucket (s.key p)
  have hp := h.mem_order.mp hp
  rw [hb] at hp
  exact Finmap.mem_keys.mp (h.key_mem hp)

theorem Shash.Rep.mem_order_keys (h : s.Rep chain m) {k : Key} (hk : k ∈ m) :
    k ∈ (s.order chain).map s.key := by
  obtain ⟨v, hv⟩ := Option.isSome_iff_exists.mp (Finmap.lookup_isSome.mpr hk)
  obtain ⟨p, hp, rfl, -⟩ := (h.lookup k v).mp hv
  exact List.mem_map_of_mem (h.mem_order.mpr hp)

theorem Shash.Rep.opened (h : s.Rep chain m) : (shashBeginIterate s).Rep chain m := by
  obtain ⟨j, b, it, hframe⟩ := shashBegin_frame (s := s) 2 0
  have hbegin := h.begin
  rw [shashBeginIterate, hframe] at hbegin ⊢
  exact h.with_iterator hbegin

def Shash.Walks (s : Shash V) (c : Walk Key) : Prop :=
  ∃ chain m rest, s.Rep chain m ∧ s.Remaining chain rest ∧ c.present = {k | k ∈ m} ∧
    c.todo = rest.map s.key

theorem Shash.Rep.walks (h : s.Rep chain m) {rest : List ShashPtr}
    (hr : s.Remaining chain rest) :
    ∃ c : Walk Key, s.Walks c ∧ c.present = {k | k ∈ m} ∧ c.todo = rest.map s.key := by
  have hsuf := h.remaining_suffix hr
  refine ⟨⟨{k | k ∈ m}, rest.map s.key, ?_, ?_⟩, ⟨chain, m, rest, h, hr, rfl, rfl⟩, rfl, rfl⟩
  · exact List.Nodup.sublist (hsuf.sublist.map _) h.order_keys
  · intro k hk
    obtain ⟨p, hp, rfl⟩ := List.mem_map.mp hk
    exact h.order_mem (hsuf.subset hp)

def iterEvent : ShashOp V → ShashRet V → Event Key
  | .insert key _, .code ret => if ret = 0 then .add key else .quiet
  | .erase key, .code ret => if ret = 0 then .drop key else .quiet
  | .iterate, .item key _ => .visit key
  | _, _ => .quiet

def ShashOp.Inside : ShashOp V → Prop
  | .beginIterate => False
  | .endIterate => False
  | _ => True

/-- A call that moves the iterator does not cross to `buckets[1]` too early. -/
def CrossStep (s : Shash V) : ShashOp V → Prop
  | .iterate => s.CrossOk
  | .erase key => (∃ p, s.iterator = some p ∧ s.key p = key) → s.CrossOk
  | _ => True

section Steps
variable {rest : List ShashPtr} {key : Key}

/-- Rehash work, done only with the iterator closed, leaves the walk as it is. -/
theorem Shash.Rep.remaining_check {s1 : Shash V} {chain1 : ShashPtr → List ShashPtr}
    (hr : s.Remaining chain rest) (hcheck : shashCheckRehash s = some s1)
    (hopen : s.iterator ≠ none → s1 = s ∧ chain1 = chain) :
    s1.Remaining chain1 rest ∧ rest.map s1.key = rest.map s.key := by
  cases rest with
  | nil =>
    refine ⟨?_, rfl⟩
    exact (shashCheckRehash_iterator hcheck).trans hr
  | cons p rest =>
    obtain ⟨rfl, rfl⟩ := hopen (by simp [hr.1])
    exact ⟨hr, rfl⟩

theorem Shash.Rep.remaining_add (h : s.Rep chain m) (hr : s.Remaining chain rest) (value : V) :
    ∃ rest', (s.added key value (s.place chain key)).Remaining (s.addedChain chain key) rest' ∧
      rest'.filter (· ≠ .node s.freshNode) = rest := by
  cases rest with
  | nil => exact ⟨[], hr, rfl⟩
  | cons p rest =>
    have hnew : ∀ t b, ShashPtr.node s.freshNode ∉ chain (.bucket t b) :=
      h.chains.fresh_notMem
    have hp : p ≠ .node s.freshNode := by
      rintro rfl
      obtain ⟨-, table, -, hmem⟩ := h.iter _ hr.1
      exact hnew _ _ hmem
    have hc : ∀ t b, chain (.bucket t b) =
        (s.addedChain chain key (.bucket t b)).filter (· ≠ .node s.freshNode) := by
      intro t b
      have hself : (chain (.bucket t b)).filter (· ≠ .node s.freshNode) =
          chain (.bucket t b) := by
        refine List.filter_eq_self.mpr fun x hx => ?_
        have hne : x ≠ .node s.freshNode := fun he => hnew t b (he ▸ hx)
        simpa using hne
      rw [Shash.addedChain]
      by_cases hb : ShashPtr.bucket t b = s.bucketFor key
      · have hsplit := below_append_above (h.chains.sorted t b) key
        rw [← hb, Function.update_self, List.filter_append, List.filter_cons_of_neg (by simp),
          ← List.filter_append, hsplit, hself]
      · rw [Function.update_of_ne hb, hself]
    obtain ⟨rest', hr', hf⟩ := h.remaining_unfilter hr (by simpa using hp) hc
    refine ⟨p :: rest', hr', ?_⟩
    rw [List.filter_cons_of_pos (by simpa using hp), hf]

theorem Shash.Rep.chain_remove (h : s.Rep chain m) {t b : Nat} {p : ShashPtr}
    {l r : List ShashPtr} (hch : chain (.bucket t b) = l ++ p :: r) (t' b' : Nat) :
    Function.update chain (.bucket t b) (l ++ r) (.bucket t' b') =
      (chain (.bucket t' b')).filter (· ≠ p) := by
  have hnd := (List.nodup_cons.mp (h.chains.nodup t b)).2
  have hself : ∀ x : List ShashPtr, p ∉ x → x.filter (· ≠ p) = x := by
    intro x hx
    refine List.filter_eq_self.mpr fun y hy => ?_
    have hne : y ≠ p := fun he => hx (he ▸ hy)
    simpa using hne
  by_cases hb : ShashPtr.bucket t' b' = .bucket t b
  · rw [hch, List.nodup_middle, List.nodup_cons] at hnd
    rw [hb, Function.update_self, hch, List.filter_append, List.filter_cons_of_neg (by simp),
      ← List.filter_append, hself _ hnd.1]
  · rw [Function.update_of_ne hb, hself]
    intro hp
    exact hb (h.chains.same hp (by rw [hch]; simp))

theorem Shash.Rep.walks_add (h : s.Rep chain m) (hr : s.Remaining chain rest)
    (hk : key.length < 2^31) (habs : key ∉ m) (value : V) {c : Walk Key}
    (hp : c.present = {k | k ∈ m}) (ht : c.todo = rest.map s.key) :
    ∃ c', Step c (.add key) c' ∧ (s.added key value (s.place chain key)).Walks c' := by
  obtain ⟨rest', hr', hf⟩ := h.remaining_add hr value
  obtain ⟨c', hw, hp', ht'⟩ := (h.add hk habs value).walks hr'
  refine ⟨c', Step.add ?_ ?_ ?_, hw⟩
  · rw [hp]
    exact habs
  · rw [hp', hp]
    ext k
    exact Finmap.mem_insert
  · -- the new node is the only one in what remains with this key
    have hnew : (s.added key value (s.place chain key)).key (.node s.freshNode) = key :=
      Function.update_self ..
    have hold : ∀ x, x ≠ .node s.freshNode →
        (s.added key value (s.place chain key)).key x = s.key x :=
      fun x hx => Function.update_of_ne hx _ _
    have hmem : ∀ x ∈ rest', x ≠ .node s.freshNode → s.key x ≠ key := by
      intro x hx hne he
      have hxr : x ∈ rest := by
        rw [← hf]
        exact List.mem_filter.mpr ⟨hx, by simpa using hne⟩
      exact habs (he ▸ h.order_mem ((h.remaining_suffix hr).subset hxr))
    rw [ht', ht, ← hf, List.filter_map]
    have hsel : rest'.filter ((fun k => decide (k ≠ key)) ∘
        (s.added key value (s.place chain key)).key) = rest'.filter (· ≠ .node s.freshNode) := by
      refine List.filter_congr fun x hx => ?_
      by_cases hne : x = .node s.freshNode
      · simp [hne, hnew]
      · simp [hne, hold x hne, hmem x hx hne]
    rw [hsel]
    refine List.map_congr_left fun x hx => hold x ?_
    simpa using (List.mem_filter.mp hx).2

theorem Shash.Rep.walks_remove [Inhabited V] (h : s.Rep chain m) {t b : Nat} {p : ShashPtr}
    {l r : List ShashPtr} (hch : chain (.bucket t b) = l ++ p :: r)
    (hr : s.Remaining chain rest) (hit : s.iterator ≠ some p) :
    (s.unlink p (last (.bucket t b) l)).Remaining
      (Function.update chain (.bucket t b) (l ++ r)) (rest.filter (· ≠ p)) ∧
    (rest.filter (· ≠ p)).map (s.unlink p (last (.bucket t b) l)).key =
      (rest.map s.key).filter (· ≠ s.key p) := by
  constructor
  · cases rest with
    | nil => exact hr
    | cons x rest =>
      have hx : x ≠ p := fun he => hit (he ▸ hr.1)
      rw [List.filter_cons_of_pos (by simpa using hx)]
      exact hr.filter (by simpa using hx) (h.chain_remove hch)
  · have hpc : p ∈ chain (.bucket t b) := by simp [hch]
    have hsel : rest.filter ((fun k => decide (k ≠ s.key p)) ∘ s.key) =
        rest.filter (· ≠ p) := by
      refine List.filter_congr fun x hx => ?_
      by_cases hne : x = p
      · simp [hne]
      · obtain ⟨t', b', hb'⟩ := s.bucketFor_bucket (s.key x)
        have hx := h.mem_order.mp ((h.remaining_suffix hr).subset hx)
        rw [hb'] at hx
        have hkx : s.key x ≠ s.key p := fun he => hne (h.chains.key_inj hx hpc he)
        simp [hne, hkx]
    rw [List.filter_map, hsel]
    refine List.map_congr_left fun x hx => Function.update_of_ne ?_ _ _
    simpa using (List.mem_filter.mp hx).2

theorem Shash.Rep.present_erase {p : ShashPtr} :
    {k | k ∈ m.erase (s.key p)} = {k | k ∈ m} \ {s.key p} := by
  ext k
  simp [and_comm]

end Steps

/-- The last node of `buckets[0]` is left for good when the first chains of `buckets[1]` are
empty and a later one is not. -/
theorem Shash.Rep.not_crossOk {table : Nat} (h : s.Rep chain m)
    (ht : s.buckets1 = some table)
    (hempty : tableNodes chain table (2^s.numBuckets0) 0 = []) (hafter : s.after chain 0 ≠ [])
    {p : ShashPtr} (hp : p ∈ tableNodes chain s.buckets0 (2^s.numBuckets0) 0)
    (hr : s.Remaining chain (p :: s.after chain 0)) : ¬ s.CrossOk := by
  obtain ⟨hit, hi, table', l, r, htab, hch, hrest⟩ := hr
  obtain ⟨b, -, -, hpb⟩ := mem_tableNodes.mp hp
  have hsame := h.chains.same hpb (show p ∈ chain (.bucket table' s.iteratorBucket) by simp [hch])
  have hc := h.chain_next
  have hidx : s.iteratorIndex = 0 := by
    by_contra hne
    rw [Shash.bucketsAt, if_neg hne] at htab
    exact (h.shape.table1 _ htab).1 (by cases hsame; rfl)
  rw [hidx] at htab hrest
  simp only [Shash.bucketsAt, if_true, Option.some.injEq] at htab
  subst htab
  simp only [Shash.numBucketsAt, if_true] at hrest
  have hlen := congrArg List.length hrest
  simp only [List.length_append] at hlen
  have hr0 : r = [] := List.eq_nil_of_length_eq_zero (by omega)
  have htail : tableNodes chain s.buckets0 (2^s.numBuckets0 - (s.iteratorBucket + 1))
      (s.iteratorBucket + 1) = [] := List.eq_nil_of_length_eq_zero (by omega)
  have hnext : s.next p = none := by
    have := hc s.buckets0 s.iteratorBucket
    rw [hch, hr0] at this
    exact (chain_next_mid this).2
  intro hok
  have hnone := hok p hit table ht hidx hnext ((Shash.scan_none fun b => hc _ b).mpr htail)
    ((Shash.scan_none fun b => hc _ b).mpr hempty)
  refine hafter ?_
  rw [Shash.after, if_pos rfl, ht]
  exact (Shash.scan_none fun b => hc _ b).mp hnone

theorem Shash.Rep.remaining_length {rest : List ShashPtr} (h : s.Rep chain m)
    (hr : s.Remaining chain rest) : rest.length ≤ m.keys.card := by
  have hsuf := h.remaining_suffix hr
  rw [← List.length_map s.key, ← List.toFinset_card_of_nodup
    (List.Nodup.sublist (hsuf.sublist.map _) h.order_keys)]
  refine Finset.card_le_card fun k hk => ?_
  obtain ⟨p, hp, rfl⟩ := List.mem_map.mp (List.mem_toFinset.mp hk)
  exact Finmap.mem_keys.mpr (h.order_mem (hsuf.subset hp))

theorem specRun_card (m : KeyMap V) (ops : List (ShashOp V)) :
    (specRun mapStep m ops).1.keys.card ≤ m.keys.card + ops.length := by
  induction ops generalizing m with
  | nil => exact le_refl _
  | cons op ops ih =>
    have hstep : (mapStep m op).1.keys.card ≤ m.keys.card + 1 := by
      cases op with
      | insert k v =>
        refine (Finset.card_le_card (t := insert k m.keys) fun k' hk' => ?_).trans
          (Finset.card_insert_le k m.keys)
        rw [mapStep] at hk'
        split at hk'
        · exact Finset.mem_insert_of_mem hk'
        · rw [Finmap.mem_keys, Finmap.mem_insert] at hk'
          rwa [Finset.mem_insert, Finmap.mem_keys]
      | erase k =>
        refine (Finset.card_le_card fun k' hk' => ?_).trans (Nat.le_succ m.keys.card)
        rw [mapStep] at hk'
        split at hk'
        · exact Finmap.mem_keys.mpr (Finmap.mem_erase.mp (Finmap.mem_keys.mp hk')).2
        · exact hk'
      | _ => exact Nat.le_succ _
    have hrest := ih (mapStep m op).1
    rw [List.length_cons]
    refine hrest.trans ?_
    omega

/-- The chain of the key is one of those of `buckets[1]` that the first scan reaches. -/
def Shash.Early (s : Shash V) (key : Key) : Prop :=
  bucketIndex (shashHashKey key) s.numBuckets0 < s.rehashBucket ∧
    bucketIndex (shashHashKey key) s.numBuckets1 < 2^s.numBuckets0

theorem Shash.Early.of_stage {s' : Shash V} {key : Key} (h : s.Early key)
    (hs : s'.stage = s.stage) : s'.Early key := by
  simp only [Shash.stage, Prod.mk.injEq] at hs
  obtain ⟨h0, h1, -, hmark⟩ := hs
  rwa [Shash.Early, h0, h1, hmark]

theorem Shash.Rep.crossOk (h : s.Rep chain m) {key : Key} (hk : key ∈ m) (hearly : s.Early key) :
    s.CrossOk := by
  intro p _ table ht _ _ _ hnone
  obtain ⟨v, hv⟩ := Option.isSome_iff_exists.mp (Finmap.lookup_isSome.mpr hk)
  obtain ⟨q, hq, -⟩ := (h.lookup key v).mp hv
  have hb : s.bucketFor key = .bucket table (bucketIndex (shashHashKey key) s.numBuckets1) := by
    simp [Shash.bucketFor, show s.buckets1 = some table from ht, hearly.1]
  have hmem : q ∈ tableNodes chain table (2^s.numBuckets0) 0 :=
    mem_tableNodes.mpr ⟨_, Nat.zero_le _, by rw [Nat.zero_add]; exact hearly.2, hb ▸ hq⟩
  rw [(Shash.scan_none fun b => h.chain_next _ b).mp hnone] at hmem
  exact absurd hmem List.not_mem_nil

variable [Inhabited V]

/-- Every call inside an iteration is a step of the walk. -/
theorem shashStep_walks {s' : Shash V} {c : Walk Key} {op : ShashOp V} {ret : ShashRet V}
    (hw : s.Walks c) (hop : (op.Short ∧ op.Inside) ∧ CrossStep s op)
    (hs : shashStep s op = some (s', ret)) :
    ∃ c', Step c (iterEvent op ret) c' ∧ s'.Walks c' := by
  obtain ⟨chain, m, rest, h, hr, hp, ht⟩ := id hw
  obtain ⟨⟨hk, hin⟩, hcross⟩ := hop
  cases op with
  | insert key value =>
    obtain ⟨s1, chain1, hcheck, h1, hopen, hins⟩ := h.insert hk value
    obtain ⟨hr1, hkeys⟩ := Shash.Rep.remaining_check hr hcheck hopen
    by_cases hmem : key ∈ m
    · simp only [shashStep, hins, hmem, if_true, Option.map_some, Option.some.injEq,
        Prod.mk.injEq] at hs
      obtain ⟨rfl, rfl⟩ := hs
      obtain ⟨c', hw', hp', ht'⟩ := h1.walks hr1
      exact ⟨c', Step.quiet (hp'.trans hp.symm) (by rw [ht', ht, hkeys]), hw'⟩
    · simp only [shashStep, hins, hmem, if_false, Option.map_some, Option.some.injEq,
        Prod.mk.injEq] at hs
      obtain ⟨rfl, rfl⟩ := hs
      exact h1.walks_add hr1 hk hmem value hp (by rw [ht, hkeys])
  | erase key =>
    obtain ⟨s1, chain1, hcheck, h1, hopen, habs, hpres⟩ := h.erase hk
    obtain ⟨hr1, hkeys⟩ := Shash.Rep.remaining_check hr hcheck hopen
    by_cases hmem : key ∈ m
    · obtain ⟨t, b, l, r, p, hch, rfl, herase⟩ := hpres hmem
      simp only [shashStep, herase, Option.map_some, Option.some.injEq, Prod.mk.injEq] at hs
      obtain ⟨rfl, rfl⟩ := hs
      by_cases hit : s1.iterator = some p
      · -- the iterator moves on before its node is unlinked
        have hopened : s.iterator ≠ none := by
          rw [← shashCheckRehash_iterator hcheck, hit]
          simp
        obtain ⟨rfl, rfl⟩ := hopen hopened
        obtain ⟨rest, rfl⟩ : ∃ r, rest = p :: r := by
          cases rest with
          | nil => exact absurd hr1 hopened
          | cons x r => exact ⟨r, by rw [Option.some.inj (hr1.1.symm.trans hit)]⟩
        have hok : s1.CrossOk := hcross ⟨p, hit, rfl⟩
        have hadv := (h1.advance hr1).1 hok
        obtain ⟨h2, hne⟩ := h1.advanced hit
        obtain ⟨j, i, it, hframe⟩ := shashAdvance_frame (s := s1) p
        rw [if_pos hit]
        have hkey : (shashAdvance s1 p).key = s1.key := by rw [hframe]
        obtain ⟨hr2, hk2⟩ := h2.walks_remove hch hadv hne
        have h3 := h2.remove hch hne
        rw [hkey] at h3 hk2
        obtain ⟨c', hw', hp', ht'⟩ := h3.walks hr2
        refine ⟨c', Step.drop ?_ ?_, hw'⟩
        · rw [hp', hp, Shash.Rep.present_erase]
        · rw [ht', ht, hk2]
          simp
      · rw [if_neg hit]
        obtain ⟨hr2, hk2⟩ := h1.walks_remove hch hr1 hit
        obtain ⟨c', hw', hp', ht'⟩ := (h1.remove hch hit).walks hr2
        refine ⟨c', Step.drop ?_ ?_, hw'⟩
        · rw [hp', hp, Shash.Rep.present_erase]
        · rw [ht', ht, hk2, hkeys]
    · simp only [shashStep, habs hmem, Option.map_some, Option.some.injEq, Prod.mk.injEq] at hs
      obtain ⟨rfl, rfl⟩ := hs
      obtain ⟨c', hw', hp', ht'⟩ := h1.walks hr1
      exact ⟨c', Step.quiet (hp'.trans hp.symm) (by rw [ht', ht, hkeys]), hw'⟩
  | find key =>
    obtain ⟨s1, chain1, hcheck, h1, hopen, hfind⟩ := h.find hk
    obtain ⟨hr1, hkeys⟩ := Shash.Rep.remaining_check hr hcheck hopen
    simp only [shashStep, hfind, Option.map_some, Option.some.injEq, Prod.mk.injEq] at hs
    obtain ⟨rfl, rfl⟩ := hs
    obtain ⟨c', hw', hp', ht'⟩ := h1.walks hr1
    exact ⟨c', Step.quiet (hp'.trans hp.symm) (by rw [ht', ht, hkeys]), hw'⟩
  | size =>
    simp only [shashStep, Option.some.injEq, Prod.mk.injEq] at hs
    obtain ⟨rfl, rfl⟩ := hs
    exact ⟨c, Step.quiet rfl rfl, hw⟩
  | iterate =>
    cases rest with
    | nil =>
      have hit : s.iterator = none := hr
      simp only [shashStep, shashIterate, hit, Option.elim, Option.some.injEq,
        Prod.mk.injEq] at hs
      obtain ⟨rfl, rfl⟩ := hs
      exact ⟨c, Step.quiet rfl rfl, hw⟩
    | cons p rest =>
      have hit : s.iterator = some p := hr.1
      simp only [shashStep, shashIterate, hit, Option.elim, Option.some.injEq,
        Prod.mk.injEq] at hs
      obtain ⟨rfl, rfl⟩ := hs
      obtain ⟨c', hw', hp', ht'⟩ := (h.advanced hit).1.walks ((h.advance hr).1 hcross)
      have hkey : (shashAdvance s p).key = s.key := by
        obtain ⟨j, i, it, hframe⟩ := shashAdvance_frame (s := s) p
        rw [hframe]
      refine ⟨c', Step.visit (hp'.trans hp.symm) ?_, hw'⟩
      rw [ht', ht, hkey, List.map_cons]
  | beginIterate => exact absurd hin id
  | endIterate => exact absurd hin id

theorem shashStep_inside {s' : Shash V} {op : ShashOp V} {ret : ShashRet V} (hop : op.Inside)
    (hs : shashStep s op = some (s', ret)) :
    (s.iterator = none → s'.iterator = none) ∧ (s.iterator ≠ none → s'.stage = s.stage) := by
  by_cases hcall : op.Call
  · obtain ⟨s1, hcheck, hstage, -, hit⟩ := shashStep_call hcall hs
    refine ⟨fun h => hit ((shashCheckRehash_iterator hcheck).trans h), fun h => ?_⟩
    rw [shashCheckRehash_open h, Option.some.injEq] at hcheck
    rw [hstage, hcheck]
  · refine ⟨fun h => ?_, fun _ => (shashStep_stage hcall hs).1⟩
    cases op with
    | size =>
      cases hs
      exact h
    | iterate =>
      cases hs
      simp only [shashIterate, h]
    | beginIterate => exact hop.elim
    | endIterate => exact hop.elim
    | _ => exact absurd trivial hcall

/-- A key that stays in those chains keeps an iteration from crossing too early. -/
theorem Shash.Refines.crossStep {key : Key} {ops : List (ShashOp V)} (h : s.Refines m)
    (hstay : s.iterator ≠ none → key ∈ m ∧ s.Early key)
    (hops : ∀ op ∈ ops, op.Short ∧ op.Inside ∧ op ≠ .erase key) :
    Along shashStep CrossStep s ops := by
  induction ops generalizing s m with
  | nil => trivial
  | cons op ops ih =>
    obtain ⟨⟨hk, hin, hne⟩, hops⟩ := List.forall_mem_cons.mp hops
    obtain ⟨chain, hrep⟩ := id h
    have hok : s.iterator ≠ none → s.CrossOk := fun hit => hrep.crossOk (hstay hit).1 (hstay hit).2
    refine ⟨?_, fun s1 r hs => ?_⟩
    · cases op with
      | iterate => exact fun p hp => hok (fun hnone => by rw [hnone] at hp; cases hp) p hp
      | erase k =>
        rintro ⟨p, hp, -⟩
        exact hok (by simp [hp])
      | _ => trivial
    · obtain ⟨s1', r', hs', h1, -⟩ := shashStep_refines op h hk
      rw [hs, Option.some.injEq, Prod.mk.injEq] at hs'
      obtain ⟨hclosed, hstage⟩ := shashStep_inside hin hs
      refine ih (hs'.1 ▸ h1) (fun hit1 => ?_) hops
      have hit : s.iterator ≠ none := fun hnone => hit1 (hclosed hnone)
      refine ⟨?_, (hstay hit).2.of_stage (hstage hit)⟩
      have hmem := (hstay hit).1
      cases op with
      | insert k v =>
        rw [mapStep]
        split
        · exact hmem
        · exact Finmap.mem_insert.mpr (Or.inr hmem)
      | erase k =>
        rw [mapStep]
        split
        · exact Finmap.mem_erase.mpr ⟨fun he => hne (by rw [he]), hmem⟩
        · exact hmem
      | _ => exact hmem

theorem Shash.Rep.iterates {n : Nat} {s' : Shash V} {rets : List (ShashRet V)}
    (h : s.Rep chain m) (hn : m.keys.card ≤ n)
    (hcross : Along shashStep CrossStep s (List.replicate n .iterate))
    (hrun : run shashStep s (List.replicate n .iterate) = some (s', rets)) :
    s'.iterator = none := by
  obtain ⟨rest, hr⟩ : ∃ rest, s.Remaining chain rest := by
    cases hit : s.iterator with
    | none => exact ⟨[], hit⟩
    | some p =>
      obtain ⟨rest, hr⟩ := h.remaining hit
      exact ⟨_, hr⟩
  have hlen := (h.remaining_length hr).trans hn
  clear hn
  induction n generalizing s rest rets with
  | zero =>
    obtain ⟨rfl, -⟩ := Prod.mk.inj (Option.some.inj hrun)
    rwa [List.eq_nil_of_length_eq_zero (Nat.le_zero.mp hlen)] at hr
  | succ n ih =>
    rw [List.replicate_succ] at hcross hrun
    obtain ⟨s1, r, rs1, hs, hy, rfl⟩ := run_cons_some hrun
    have hlater := hcross.2 s1 r hs
    cases rest with
    | nil =>
      rw [shashStep, shashIterate, show s.iterator = none from hr] at hs
      cases hs
      exact ih h hlater hy [] hr (Nat.zero_le n)
    | cons p rest =>
      rw [shashStep, shashIterate, hr.1] at hs
      cases hs
      exact ih (h.advanced hr.1).1 hlater hy rest ((h.advance hr).1 hcross.1)
        (Nat.le_of_succ_le_succ hlen)

def keysAfter (ops : List (ShashOp V)) : Set Key :=
  {k | k ∈ (specRun mapStep (∅ : KeyMap V) ops).1}

def iterHistory (ops : List (ShashOp V)) (rets : List (ShashRet V)) : List (Event Key) :=
  List.zipWith iterEvent ops rets

/-- From any reachable table, an iteration to its end is complete if no step of it crosses
too early. -/
theorem shash_iteration_complete {pre body : List (ShashOp V)} {s s' : Shash V}
    {rets0 rets : List (ShashRet V)} (hpre : ∀ op ∈ pre, op.Short)
    (hbody : ∀ op ∈ body, op.Short ∧ op.Inside)
    (hreach : run shashStep shashNew pre = some (s, rets0))
    (hrun : run shashStep (shashBeginIterate s) body = some (s', rets))
    (hend : (shashIterate s').2 = none)
    (hcross : Along shashStep CrossStep (shashBeginIterate s) body) :
    Complete (keysAfter pre) (iterHistory body rets) := by
  obtain ⟨s1, rets1, hreach', -, chain, h⟩ := Shash.Refines.runs ⟨_, shashNew_rep⟩ hpre
  rw [hreach] at hreach'
  obtain ⟨rfl, rfl⟩ := Prod.mk.inj (Option.some.inj hreach')
  have hkey : (shashBeginIterate s).key = s.key := by
    obtain ⟨j, b, it, hframe⟩ := shashBegin_frame (s := s) 2 0
    rw [shashBeginIterate, hframe]
  obtain ⟨c, hw, hp, ht⟩ := h.opened.walks h.begin
  obtain ⟨c', htrace, chain', m', rest', h', hr', -, ht'⟩ := run_traces Shash.Walks Step iterEvent
    (fun s c op s' ret hw hop hs => shashStep_walks hw hop hs) hw (hcross.and hbody) hrun
  have hclosed : rest' = [] := by
    cases rest' with
    | nil => rfl
    | cons p rest' => simp [shashIterate, hr'.1] at hend
  have hcomplete := complete_of_trace htrace
    (by rw [hp, ht, hkey]; exact fun k hk => h.mem_order_keys hk) (by rw [ht', hclosed]; rfl)
  rw [hp] at hcomplete
  exact hcomplete

/-- The table of `skipCalls` with one more key, which goes to the first chain of `buckets[1]`. -/
def iterationTable : List (ShashOp Nat) := skipCalls ++ [.insert ⟨[0, 0]⟩ 0]

/-- The iterator stands on the key that is erased. -/
def iterationMixed : List (ShashOp Nat) :=
  [.iterate, .erase (skipKey 3), .find (skipKey 2), .insert (skipKey 600) 1, .iterate, .size]

def iterationCalls : List (ShashOp Nat) := iterationMixed ++ List.replicate 600 .iterate

theorem iterationCalls_inside :
    ∀ op ∈ iterationCalls, op.Short ∧ op.Inside ∧ op ≠ .erase ⟨[0, 0]⟩ := by
  refine List.forall_mem_append.mpr ⟨?_, fun op hop => ?_⟩
  · simp [iterationMixed, ShashOp.Short, ShashOp.Inside, skipKey, Key.length]
  · rw [List.eq_of_mem_replicate hop]
    exact ⟨trivial, trivial, fun he => by cases he⟩

theorem iterationTable_short : ∀ op ∈ iterationTable, op.Short := List.forall_mem_append.mpr
  ⟨fun op hop => (skipCalls_call op (List.mem_append_left _ hop)).2,
    List.forall_mem_singleton.mpr (by simp [ShashOp.Short, Key.length])⟩

/-- The insertion has moved one more bucket of the rehash. -/
theorem iterationTable_state : ∃ s rets chain m,
    run shashStep shashNew iterationTable = some (s, rets) ∧ s.Rep chain m ∧
      s.stage = (9, 10, some 1, 2) ∧ ⟨[0, 0]⟩ ∈ m ∧ m.keys.card ≤ 514 := by
  obtain ⟨s1, rets1, chain1, m1, hrun1, hm1, h1, -, -, -, hstage1, hit1, -⟩ := skipCalls_state
  obtain ⟨s, r, hstep, ⟨chain, h⟩, -⟩ := shashStep_refines (.insert ⟨[0, 0]⟩ 0) ⟨chain1, h1⟩
    (by simp [ShashOp.Short, Key.length])
  refine ⟨s, rets1 ++ [r], chain, _, ?_, h, ?_, ?_, ?_⟩
  · rw [iterationTable, run_append hrun1, run_cons hstep]
    rfl
  · generalize hcalls : skipCalls = calls at hrun1
    have hk := shashNew_keepsUp.along (skipCalls_closed hcalls) hrun1
    have htab : s1.buckets1 = some 1 := congrArg (·.2.2.1) hstage1
    rw [(hk.call (show ShashOp.Call (.insert ⟨[0, 0]⟩ 0) from trivial) hit1 hstep).2.2.2
      (by simp [htab]), hstage1]
    rfl
  · rw [mapStep]
    split
    · assumption
    · exact Finmap.mem_insert.mpr (Or.inl rfl)
  · have hcard := specRun_card m1 [.insert (⟨[0, 0]⟩ : Key) (0 : Nat)]
    have hfew : m1.keys.card ≤ 513 := by
      rw [← hm1]
      refine (specRun_card ∅ skipCalls).trans ?_
      simp [skipCalls, skipEntries]
    exact hcard.trans (Nat.succ_le_succ hfew)

theorem shash_iteration_complete_sample : ∃ s rets0 s' rets,
    run shashStep shashNew iterationTable = some (s, rets0) ∧ s.buckets1 ≠ none ∧
      run shashStep (shashBeginIterate s) iterationCalls = some (s', rets) ∧
      (shashIterate s').2 = none ∧
      Complete (keysAfter iterationTable) (iterHistory iterationCalls rets) := by
  obtain ⟨s, rets0, chain, m, hrun0, h, hstage, hmem, hfew⟩ := iterationTable_state
  have hstay : (shashBeginIterate s).Early ⟨[0, 0]⟩ := by
    have hbegin : (shashBeginIterate s).stage = (9, 10, some 1, 2) :=
      (shashStep_stage (show ¬ ShashOp.beginIterate.Call from id) rfl).1.trans hstage
    simp only [Shash.stage, Prod.mk.injEq] at hbegin
    rw [Shash.Early, hbegin.1, hbegin.2.1, hbegin.2.2.2]
    decide
  have hcross : Along shashStep CrossStep (shashBeginIterate s) iterationCalls :=
    Shash.Refines.crossStep ⟨chain, h.opened⟩ (fun _ => ⟨hmem, hstay⟩) iterationCalls_inside
  have hops := fun op hop => (iterationCalls_inside op hop).1
  obtain ⟨s2, rets2, hrun2, -, chain2, h2⟩ := Shash.Refines.runs ⟨chain, h.opened⟩
    (List.forall_mem_append.mp hops).1
  obtain ⟨s', rets3, hrun3, -⟩ := Shash.Refines.runs ⟨chain2, h2⟩
    (List.forall_mem_append.mp hops).2
  have hrun : run shashStep (shashBeginIterate s) iterationCalls = some (s', rets2 ++ rets3) := by
    rw [iterationCalls, run_append hrun2, hrun3]
    rfl
  -- there are more calls left than keys
  have hend : (shashIterate s').2 = none := by
    have hcard := specRun_card m iterationMixed
    rw [shashIterate, h2.iterates ?_ (hcross.of_append hrun2) hrun3]
    exact hcard.trans ((Nat.add_le_add_right hfew _).trans (by simp [iterationMixed]))
  have htab : s.buckets1 = some 1 := congrArg (·.2.2.1) hstage
  exact ⟨s, rets0, s', _, hrun0, by simp [htab], hrun, hend,
    shash_iteration_complete iterationTable_short (fun op hop => ⟨(iterationCalls_inside op hop).1,
      (iterationCalls_inside op hop).2.1⟩) hrun0 hrun hend hcross⟩

section Skip
variable {s : Shash V} {chain : ShashPtr → List ShashPtr} {m : KeyMap V} {table : Nat}

/-- From there, iterating to the end returns keys of `buckets[0]` only. -/
theorem Shash.Rep.iterate_skips {n : Nat} {t : List ShashPtr} (h : s.Rep chain m)
    (ht : s.buckets1 = some table) (hempty : tableNodes chain table (2^s.numBuckets0) 0 = [])
    (hafter : s.after chain 0 ≠ [])
    (hsub : ∀ p ∈ t, p ∈ tableNodes chain s.buckets0 (2^s.numBuckets0) 0) (hn : t.length ≤ n)
    (hr : s.iterator = none ∨ t ≠ [] ∧ s.Remaining chain (t ++ s.after chain 0)) :
    ∃ s' rets, run shashStep s (List.replicate n .iterate) = some (s', rets) ∧
      s'.iterator = none ∧ ∀ k v, .item k v ∈ rets → k ∈ t.map s.key := by
  induction n generalizing s t with
  | zero =>
    refine ⟨s, [], rfl, ?_, by simp⟩
    rcases hr with hr | ⟨hne, -⟩
    · exact hr
    · exact absurd (List.eq_nil_of_length_eq_zero (Nat.le_zero.mp hn)) hne
  | succ n ih =>
    rcases hr with hit | ⟨hne, hr⟩
    · have hstep : shashStep s .iterate = some (s, .code (-1)) := by
        simp [shashStep, shashIterate, hit]
      obtain ⟨s', rets, hrun, hend, hkeys⟩ := ih (t := []) h ht hempty hafter (by simp)
        (Nat.zero_le n) (Or.inl hit)
      refine ⟨s', .code (-1) :: rets, by rw [List.replicate_succ, run_cons hstep, hrun]; rfl,
        hend, fun k v hkv => ?_⟩
      have hkv : .item k v ∈ rets := by simpa using hkv
      exact absurd (hkeys k v hkv) (by simp)
    · obtain ⟨p, t, rfl⟩ := List.exists_cons_of_ne_nil hne
      have hit : s.iterator = some p := hr.1
      have hstep : shashStep s .iterate =
          some (shashAdvance s p, .item (s.key p) (s.value p)) := by
        simp [shashStep, shashIterate, hit]
      have hrep := (h.advanced hit).1
      have hnext : (shashAdvance s p).iterator = none ∨
          t ≠ [] ∧ (shashAdvance s p).Remaining chain (t ++ s.after chain 0) := by
        by_cases hok : s.CrossOk
        · by_cases ht0 : t = []
          · subst ht0
            exact absurd hok (h.not_crossOk ht hempty hafter (hsub p (by simp)) hr)
          · exact Or.inr ⟨ht0, (h.advance hr).1 hok⟩
        · exact Or.inl ((h.advance hr).2 hok)
      obtain ⟨j, b, it, hframe⟩ := shashAdvance_frame (s := s) p
      rw [hframe] at hstep hrep hnext
      obtain ⟨s', rets, hrun, hend, hkeys⟩ := ih hrep ht hempty hafter
        (fun q hq => hsub q (by simp [hq])) (by simpa using hn) hnext
      refine ⟨s', _ :: rets, by rw [List.replicate_succ, run_cons hstep, hrun]; rfl, hend, ?_⟩
      intro k v hkv
      rcases List.mem_cons.mp hkv with he | hkv
      · cases he
        simp
      · exact List.mem_cons_of_mem _ (hkeys k v hkv)

end Skip

/-- Iterating over that table to the end never returns the key in `buckets[1]`. -/
theorem shash_iteration_skips : ∃ s rets0 s' rets,
    run shashStep shashNew skipCalls = some (s, rets0) ∧
      run shashStep (shashBeginIterate s) (List.replicate 511 .iterate) = some (s', rets) ∧
      (shashIterate s').2 = none ∧
      ¬ Complete (keysAfter skipCalls) (iterHistory (List.replicate 511 .iterate) rets) := by
  obtain ⟨s, rets0, chain, m, hrun0, hm, h, hmem, hnum, hb0, hstage, -, hbf⟩ := skipCalls_state
  simp only [Shash.stage, Prod.mk.injEq] at hstage
  obtain ⟨hn0, -, hb1, -⟩ := hstage
  have hlast : skipKey 512 ∈ m := (hmem _).mpr ⟨512, by omega, le_refl _, rfl⟩
  have hhome : s.bucketFor (skipKey 512) = .bucket 1 512 := by
    rw [hbf 512 (by omega) (le_refl _), if_pos rfl]
  -- a node of `buckets[1]` can only be the one of the last key
  have htable1 : ∀ b p, p ∈ chain (.bucket 1 b) → b = 512 := by
    intro b p hp
    have hb := h.chains.home 1 b p hp
    obtain ⟨i, h1, h2, hi⟩ := (hmem _).mp (Finmap.mem_keys.mp (h.key_mem hp))
    rw [hi, hbf i h1 h2] at hb
    split at hb
    · cases hb
      rfl
    · cases hb
  have hempty : tableNodes chain 1 (2^s.numBuckets0) 0 = [] := by
    refine List.eq_nil_iff_forall_not_mem.mpr fun p hp => ?_
    obtain ⟨b, -, hlt, hp⟩ := mem_tableNodes.mp hp
    have := htable1 b p hp
    rw [hn0] at hlt
    omega
  generalize htn : tableNodes chain s.buckets0 (2^s.numBuckets0) 0 = t
  have hsplit : s.order chain = t ++ s.after chain 0 := by rw [Shash.order, htn]
  have htkeys : ∀ p ∈ t, s.key p ∈ m ∧ s.key p ≠ skipKey 512 := by
    intro p hp
    refine ⟨h.order_mem (by rw [hsplit]; exact List.mem_append_left _ hp), fun he => ?_⟩
    rw [← htn] at hp
    obtain ⟨b, -, -, hp⟩ := mem_tableNodes.mp hp
    have hb := h.chains.home _ b p hp
    rw [he, hhome, hb0] at hb
    cases hb
  have hafter : s.after chain 0 ≠ [] := by
    intro hnil
    obtain ⟨p, hp, hpk⟩ := List.mem_map.mp (h.mem_order_keys hlast)
    rw [hsplit, hnil, List.append_nil] at hp
    exact (htkeys p hp).2 hpk
  have htne : t ≠ [] := by
    rintro rfl
    obtain ⟨p, hp, hpk⟩ := List.mem_map.mp
      (h.mem_order_keys ((hmem (skipKey 1)).mpr ⟨1, le_refl _, by omega, rfl⟩))
    have hp := h.mem_order.mp hp
    rw [hpk, hbf 1 (le_refl _) (by omega), if_neg (by omega)] at hp
    have hpt : p ∈ tableNodes chain s.buckets0 (2^s.numBuckets0) 0 :=
      mem_tableNodes.mpr ⟨1, by omega, by rw [hn0]; omega, by rw [hb0]; exact hp⟩
    rw [htn] at hpt
    simp at hpt
  have hlen : t.length ≤ 511 := by
    have hnd : (t.map s.key).Nodup := by
      have hall := h.order_keys
      rw [hsplit, List.map_append] at hall
      exact (List.nodup_append.mp hall).1
    have hsub : (t.map s.key).toFinset ⊆ m.keys.erase (skipKey 512) := by
      intro k hk
      obtain ⟨p, hp, rfl⟩ := List.mem_map.mp (List.mem_toFinset.mp hk)
      exact Finset.mem_erase.mpr ⟨(htkeys p hp).2, Finmap.mem_keys.mpr (htkeys p hp).1⟩
    have hcard := Finset.card_le_card hsub
    rw [List.toFinset_card_of_nodup hnd, List.length_map,
      Finset.card_erase_of_mem (Finmap.mem_keys.mpr hlast), ← h.size, hnum] at hcard
    exact hcard
  have hbegin := h.begin
  have hopened := h.opened
  obtain ⟨j, b, it, hframe⟩ := shashBegin_frame (s := s) 2 0
  rw [shashBeginIterate, hframe, hsplit] at hbegin
  rw [shashBeginIterate, hframe] at hopened
  obtain ⟨s', rets, hrun, hclosed, hkeys⟩ := hopened.iterate_skips hb1 hempty hafter
    (fun p hp => by rw [← htn] at hp; exact hp) hlen (Or.inr ⟨htne, hbegin⟩)
  refine ⟨s, rets0, s', rets, hrun0, by rw [shashBeginIterate, hframe]; exact hrun,
    by simp [shashIterate, hclosed], fun hc => ?_⟩
  have hevent : ∀ e ∈ iterHistory (List.replicate 511 (ShashOp.iterate : ShashOp Nat)) rets,
      ∃ ret ∈ rets, e = iterEvent .iterate ret := by
    intro e he
    obtain ⟨i, hi, rfl⟩ := List.mem_iff_getElem.mp he
    have hlt : i < rets.length := by
      rw [iterHistory, List.length_zipWith] at hi
      omega
    refine ⟨rets[i], List.getElem_mem hlt, ?_⟩
    simp only [iterHistory, List.getElem_zipWith, List.getElem_replicate]
  have honce := hc.once (skipKey 512) (by rw [keysAfter, hm]; exact hlast) (by
    intro hd
    obtain ⟨ret, -, he⟩ := hevent _ hd
    cases ret <;> cases he)
  rw [List.count_eq_zero_of_not_mem] at honce
  · exact absurd honce (by simp)
  · intro hv
    obtain ⟨ret, hret, he⟩ := hevent _ hv
    cases ret with
    | item k v =>
      cases he
      obtain ⟨p, hp, hpk⟩ := List.mem_map.mp (hkeys _ v hret)
      exact (htkeys p hp).2 hpk
    | void => cases he
    | code n => cases he
    | found v => cases he
    | number n => cases he

end SimpleKit
