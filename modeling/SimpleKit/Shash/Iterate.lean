import SimpleKit.Shash.Rehash

/-!
The order in which the iterator visits the nodes, and what one step leaves to visit.
Leaving `buckets[0]` the code keeps the bucket count of `buckets[0]` as the bound for
`buckets[1]`; `CrossOk` is the condition under which that bound misses nothing.
-/
set_option autoImplicit false

namespace SimpleKit
open Linked SortedBy

variable {V : Type} {s : Shash V} {chain : ShashPtr → List ShashPtr}
  {m : KeyMap V}

def tableNodes (chain : ShashPtr → List ShashPtr) (table : Nat) : Nat → Nat → List ShashPtr
  | 0, _ => []
  | n+1, b => chain (.bucket table b) ++ tableNodes chain table n (b+1)

theorem mem_tableNodes {table n b : Nat} {p : ShashPtr} :
    p ∈ tableNodes chain table n b ↔ ∃ i, b ≤ i ∧ i < b+n ∧ p ∈ chain (.bucket table i) := by
  induction n generalizing b with
  | zero => simp [tableNodes]; omega
  | succ n ih =>
    rw [tableNodes, List.mem_append, ih]
    constructor
    · rintro (hp | ⟨i, h1, h2, hp⟩)
      · exact ⟨b, le_refl b, by omega, hp⟩
      · exact ⟨i, by omega, by omega, hp⟩
    · rintro ⟨i, h1, h2, hp⟩
      rcases Nat.eq_or_lt_of_le h1 with rfl | h1
      · exact Or.inl hp
      · exact Or.inr ⟨i, by omega, by omega, hp⟩

def Shash.after (s : Shash V) (chain : ShashPtr → List ShashPtr) (i : Nat) : List ShashPtr :=
  match (if i = 0 then s.buckets1 else none) with
  | some table => tableNodes chain table (2^s.numBuckets1) 0
  | none => []

def Shash.order (s : Shash V) (chain : ShashPtr → List ShashPtr) : List ShashPtr :=
  tableNodes chain s.buckets0 (2^s.numBuckets0) 0 ++ s.after chain 0

theorem Shash.Chains.tableNodes_nodup {home : Key → ShashPtr} {skip : Option ShashPtr}
    (h : s.Chains home skip chain) (table n b : Nat) : (tableNodes chain table n b).Nodup := by
  induction n generalizing b with
  | zero => exact List.nodup_nil
  | succ n ih =>
    refine List.nodup_append.mpr ⟨(h.sorted table b).nodup, ih (b+1), ?_⟩
    rintro p hp q hq rfl
    obtain ⟨i, hi, -, hpi⟩ := mem_tableNodes.mp hq
    have := h.same hp hpi
    cases this
    omega

theorem Shash.mem_after {i : Nat} {p : ShashPtr} :
    p ∈ s.after chain i ↔ i = 0 ∧ ∃ table, s.buckets1 = some table ∧
      ∃ b, b < 2^s.numBuckets1 ∧ p ∈ chain (.bucket table b) := by
  simp only [Shash.after]
  split
  · next table ht =>
    by_cases hi : i = 0
    · simp only [hi, if_true] at ht
      simp [mem_tableNodes, hi, ht]
    · simp [hi] at ht
  · next ht =>
    by_cases hi : i = 0
    · simp only [hi, if_true] at ht
      simp [ht]
    · simp [hi]

theorem Shash.Rep.mem_order (h : s.Rep chain m) {p : ShashPtr} :
    p ∈ s.order chain ↔ p ∈ chain (s.bucketFor (s.key p)) := by
  have hlt : ∀ n, bucketIndex (shashHashKey (s.key p)) n < 2^n := by
    intro n
    rw [bucketIndex_eq]
    exact Nat.mod_lt _ (Nat.two_pow_pos n)
  rw [Shash.order, List.mem_append, mem_tableNodes, Shash.mem_after]
  constructor
  · rintro (⟨b, -, -, hp⟩ | ⟨-, table, -, b, -, hp⟩)
    · rwa [h.chains.home _ _ p hp]
    · rwa [h.chains.home _ _ p hp]
  · intro hp
    simp only [Shash.bucketFor] at hp
    split at hp
    · next table ht =>
      split at hp
      · exact Or.inr ⟨rfl, table, ht, _, hlt _, hp⟩
      · exact Or.inl ⟨_, Nat.zero_le _, by simpa using hlt s.numBuckets0, hp⟩
    · exact Or.inl ⟨_, Nat.zero_le _, by simpa using hlt s.numBuckets0, hp⟩

theorem Shash.Rep.order_nodup (h : s.Rep chain m) : (s.order chain).Nodup := by
  have hafter : (s.after chain 0).Nodup := by
    simp only [Shash.after, if_true]
    split
    · exact h.chains.tableNodes_nodup _ _ _
    · exact List.nodup_nil
  refine List.nodup_append.mpr ⟨h.chains.tableNodes_nodup _ _ _, hafter, ?_⟩
  rintro p hp q hq rfl
  obtain ⟨b, -, -, hp⟩ := mem_tableNodes.mp hp
  obtain ⟨-, table, ht, b', -, hq⟩ := Shash.mem_after.mp hq
  have := h.chains.same hp hq
  cases this
  exact (h.shape.table1 _ ht).1 rfl

def Shash.Remaining (s : Shash V) (chain : ShashPtr → List ShashPtr) : List ShashPtr → Prop
  | [] => s.iterator = none
  | p :: rest => s.iterator = some p ∧ s.iteratorIndex ≤ 1 ∧ ∃ table l r,
      s.bucketsAt s.iteratorIndex = some table ∧
      chain (.bucket table s.iteratorBucket) = l ++ p :: r ∧
      rest = r ++ tableNodes chain table
        (2^s.numBucketsAt s.iteratorIndex - (s.iteratorBucket + 1)) (s.iteratorBucket + 1) ++
        s.after chain s.iteratorIndex

/-- If the next step goes on to `buckets[1]` and finds nothing in as many chains as
`buckets[0]` has, then there is nothing in the others either. -/
def Shash.CrossOk (s : Shash V) : Prop :=
  ∀ p ∈ s.iterator, ∀ table ∈ s.buckets1, s.iteratorIndex = 0 → s.next p = none →
    s.scan s.buckets0 (2^s.numBuckets0 - (s.iteratorBucket + 1)) (s.iteratorBucket + 1) = none →
    s.scan table (2^s.numBuckets0) 0 = none → s.scan table (2^s.numBuckets1) 0 = none

theorem tableNodes_split (chain : ShashPtr → List ShashPtr) (table : Nat) {n b : Nat} (hb : b < n) :
    tableNodes chain table n 0 =
      tableNodes chain table b 0 ++ chain (.bucket table b) ++
        tableNodes chain table (n - (b+1)) (b+1) := by
  have happ : ∀ k c d, tableNodes chain table (k+c) d =
      tableNodes chain table k d ++ tableNodes chain table c (d+k) := by
    intro k c
    induction k with
    | zero => simp [tableNodes]
    | succ k ih =>
      intro d
      rw [show k+1+c = (k+c)+1 by omega, tableNodes, tableNodes, ih, List.append_assoc]
      congr 3
      omega
  obtain ⟨c, rfl⟩ : ∃ c, n = b+(c+1) := ⟨n-b-1, by omega⟩
  rw [happ b (c+1) 0, tableNodes, Nat.zero_add, ← List.append_assoc]
  congr 2
  omega

section Scan
variable {t n b b' : Nat} {p : ShashPtr}

theorem Shash.scan_congr {s' : Shash V} (hn : s'.next = s.next) :
    s'.scan t n b = s.scan t n b := by
  induction n generalizing b with
  | zero => rfl
  | succ n ih => simp only [Shash.scan, hn, ih]

theorem Shash.scan_none (hc : ∀ b, Chain s.next (.bucket t b) (chain (.bucket t b))) :
    s.scan t n b = none ↔ tableNodes chain t n b = [] := by
  induction n generalizing b with
  | zero => simp [scan, tableNodes]
  | succ n ih =>
    have hn := chain_next (hc b)
    cases hcb : chain (.bucket t b) with
    | nil => simp [scan, tableNodes, hn, hcb, ih]
    | cons q r => simp [scan, tableNodes, hn, hcb]

theorem Shash.scan_some (hc : ∀ b, Chain s.next (.bucket t b) (chain (.bucket t b)))
    (hs : s.scan t n b = some (b', p)) :
    b' < b+n ∧ ∃ r, chain (.bucket t b') = p :: r ∧
      tableNodes chain t n b = p :: r ++ tableNodes chain t (b+n - (b'+1)) (b'+1) := by
  induction n generalizing b with
  | zero => simp [scan] at hs
  | succ n ih =>
    have hn := chain_next (hc b)
    cases hcb : chain (.bucket t b) with
    | nil =>
      simp only [scan, hn, hcb, List.head?_nil] at hs
      obtain ⟨hb, r, hr, ht⟩ := ih hs
      refine ⟨by omega, r, hr, ?_⟩
      rw [tableNodes, hcb, List.nil_append, ht]
      congr 2
      omega
    | cons q r =>
      simp only [scan, hn, hcb, List.head?_cons, Option.some.injEq, Prod.mk.injEq] at hs
      obtain ⟨rfl, rfl⟩ := hs
      refine ⟨by omega, r, hcb, ?_⟩
      rw [tableNodes, hcb]
      congr 2
      omega

theorem Shash.scan_mono {n' : Nat} (hs : s.scan t n b = some (b', p)) (hn : n ≤ n') :
    s.scan t n' b = some (b', p) := by
  induction n generalizing b n' with
  | zero => simp [scan] at hs
  | succ n ih =>
    obtain ⟨n', rfl⟩ : ∃ k, n' = k+1 := ⟨n'-1, by omega⟩
    simp only [scan] at hs ⊢
    cases hb : s.next (.bucket t b) with
    | some q => simpa [hb] using hs
    | none =>
      simp only [hb] at hs
      exact ih hs (by omega)

end Scan

theorem Shash.remaining_scan (hc : ∀ t b, Chain s.next (.bucket t b) (chain (.bucket t b)))
    {s' : Shash V} {i table b b' : Nat} {p : ShashPtr} (hi : i ≤ 1)
    (ht : s.bucketsAt i = some table)
    (hs : s.scan table (2^s.numBucketsAt i - b) b = some (b', p)) (hb : b ≤ 2^s.numBucketsAt i)
    (hs' : s' = { s with iteratorBucket := b', iterator := some p, iteratorIndex := i }) :
    s'.Remaining chain
      (tableNodes chain table (2^s.numBucketsAt i - b) b ++ s.after chain i) := by
  obtain ⟨-, r, hr, htn⟩ := Shash.scan_some (fun b => hc table b) hs
  have he : b + (2^s.numBucketsAt i - b) - (b'+1) = 2^s.numBucketsAt i - (b'+1) := by omega
  rw [htn, hs', he]
  exact ⟨rfl, hi, table, [], r, ht, hr, rfl⟩

theorem Shash.Rep.chain_next (h : s.Rep chain m) (t b : Nat) :
    Chain s.next (.bucket t b) (chain (.bucket t b)) := h.chains.next t b (by simp)

theorem Shash.Rep.iterator_lt (h : s.Rep chain m) {i table b : Nat} {p : ShashPtr} (hi : i ≤ 1)
    (ht : s.bucketsAt i = some table) (hp : p ∈ chain (.bucket table b)) :
    b + 1 ≤ 2^s.numBucketsAt i := by
  have hb := h.chains.home table b p hp
  have hlt : ∀ n, bucketIndex (shashHashKey (s.key p)) n < 2^n := by
    intro n
    rw [bucketIndex_eq]
    exact Nat.mod_lt _ (Nat.two_pow_pos n)
  rcases Nat.le_one_iff_eq_zero_or_eq_one.mp hi with rfl | rfl
  · simp only [Shash.bucketsAt, if_true, Option.some.injEq] at ht
    subst ht
    simp only [Shash.bucketFor] at hb
    split at hb
    · next table ht =>
      split at hb
      · cases hb
        exact absurd rfl (h.shape.table1 _ ht).1
      · cases hb
        exact hlt _
    · cases hb
      exact hlt _
  · have ht1 : s.buckets1 = some table := ht
    simp only [Shash.bucketFor, ht1] at hb
    split at hb
    · cases hb
      exact hlt _
    · cases hb
      exact absurd rfl (h.shape.table1 _ ht1).1

/-- What remains is a tail of the whole order, so nothing occurs in it twice. -/
theorem Shash.Rep.remaining_suffix (h : s.Rep chain m) {rest : List ShashPtr}
    (hr : s.Remaining chain rest) : rest <:+ s.order chain := by
  cases rest with
  | nil => exact List.nil_suffix
  | cons p rest =>
    obtain ⟨-, hi, table, l, r, ht, hch, hrest⟩ := hr
    have hlt := h.iterator_lt (p := p) hi ht (by rw [hch]; simp)
    have hsplit := tableNodes_split chain table hlt
    rw [hch] at hsplit
    rcases Nat.le_one_iff_eq_zero_or_eq_one.mp hi with hi | hi
    · rw [hi] at ht hrest hsplit
      simp only [Shash.bucketsAt, if_true, Option.some.injEq] at ht
      subst ht
      refine ⟨tableNodes chain s.buckets0 s.iteratorBucket 0 ++ l, ?_⟩
      rw [hrest, Shash.order]
      simp only [Shash.numBucketsAt, if_true] at hsplit ⊢
      rw [hsplit]
      simp
    · rw [hi] at ht hrest hsplit
      have ht1 : s.buckets1 = some table := ht
      refine ⟨tableNodes chain s.buckets0 (2^s.numBuckets0) 0 ++
        (tableNodes chain table s.iteratorBucket 0 ++ l), ?_⟩
      have hafter : s.after chain 0 = tableNodes chain table (2^s.numBuckets1) 0 := by
        simp [Shash.after, ht1]
      rw [hrest, Shash.order, hafter]
      simp only [Shash.numBucketsAt, one_ne_zero, if_false] at hsplit ⊢
      rw [hsplit]
      simp [Shash.after]

theorem shashIterateFrom_hit {numBuckets n i table b : Nat} {p : ShashPtr}
    (ht : s.bucketsAt i = some table)
    (hs : s.scan table (numBuckets - s.iteratorBucket) s.iteratorBucket = some (b, p)) :
    shashIterateFrom numBuckets (n+1) i s =
      { s with iteratorBucket := b, iterator := some p, iteratorIndex := i } := by
  simp only [shashIterateFrom, ht, hs]

theorem shashIterateFrom_miss {numBuckets n i table : Nat} (ht : s.bucketsAt i = some table)
    (hs : s.scan table (numBuckets - s.iteratorBucket) s.iteratorBucket = none) :
    shashIterateFrom numBuckets (n+1) i s = shashIterateFrom numBuckets n (i+1)
      (if i = 0 then { s with iteratorBucket := 0 } else s) := by
  simp only [shashIterateFrom, ht, hs]

theorem shashIterateFrom_end {numBuckets n i : Nat} (ht : s.bucketsAt i = none) :
    shashIterateFrom numBuckets (n+1) i s = s := by
  simp only [shashIterateFrom, ht]

/-- The crossing to `buckets[1]`: what remains is what is there, unless nothing is found in as
many chains as `buckets[0]` has. -/
theorem Shash.Rep.cross (h : s.Rep chain m) {s2 : Shash V}
    (hs2 : { s with iterator := none, iteratorBucket := 0 } = s2) :
    (shashIterateFrom (2^s.numBuckets0) 1 1 s2).Remaining chain (s.after chain 0) ∧
        (∀ table ∈ s.buckets1, s.scan table (2^s.numBuckets0) 0 ≠ none) ∨
      (shashIterateFrom (2^s.numBuckets0) 1 1 s2).iterator = none ∧
        ∃ table ∈ s.buckets1, s.scan table (2^s.numBuckets0) 0 = none := by
  have hscan : ∀ t n b, s2.scan t n b = s.scan t n b :=
    fun t n b => Shash.scan_congr (by rw [← hs2])
  have hbucket : s2.iteratorBucket = 0 := by rw [← hs2]
  have hclosed : s2.iterator = none := by rw [← hs2]
  have hat : s2.bucketsAt 1 = s.buckets1 := by
    rw [← hs2]
    rfl
  cases ht : s.buckets1 with
  | none =>
    left
    have hnone : s.after chain 0 = [] := by simp [Shash.after, ht]
    rw [hnone, shashIterateFrom_end (hat.trans ht)]
    exact ⟨hclosed, by simp⟩
  | some table =>
    cases hsc : s.scan table (2^s.numBuckets0) 0 with
    | some bq =>
      left
      obtain ⟨b', q⟩ := bq
      obtain ⟨hd, -, -⟩ := h.shape.double (by simp [ht])
      have hsc1 : s.scan table (2^s.numBucketsAt 1 - 0) 0 = some (b', q) := by
        refine Shash.scan_mono hsc ?_
        simp only [Shash.numBucketsAt, hd]
        exact Nat.pow_le_pow_right (by omega) (by simp)
      have hrem := Shash.remaining_scan h.chain_next (le_refl 1) ht hsc1 (Nat.zero_le _)
        (show { s2 with iteratorBucket := b', iterator := some q, iteratorIndex := 1 } = _ by
          rw [← hs2])
      rw [shashIterateFrom_hit (hat.trans ht) (by rw [hscan, hbucket]; exact hsc)]
      refine ⟨by simpa [Shash.after, ht, Shash.numBucketsAt] using hrem, ?_⟩
      rintro _ ⟨⟩
      simp [hsc]
    | none =>
      right
      rw [shashIterateFrom_miss (hat.trans ht) (by rw [hscan, hbucket]; exact hsc)]
      exact ⟨hclosed, table, rfl, hsc⟩

/-- One step of the iterator. What remains afterwards is the rest, unless the crossing to
`buckets[1]` misses it; then the iterator is closed. -/
theorem Shash.Rep.advance (h : s.Rep chain m) {p : ShashPtr} {rest : List ShashPtr}
    (hr : s.Remaining chain (p :: rest)) :
    (s.CrossOk → (shashAdvance s p).Remaining chain rest) ∧
      (¬ s.CrossOk → (shashAdvance s p).Remaining chain []) := by
  obtain ⟨hit, hidx, table, l, r, htab, hchain, hrest⟩ := hr
  have hc := h.chain_next
  have hnext : s.next p = r.head? := by
    have := hc table s.iteratorBucket
    rw [hchain] at this
    exact (chain_next_mid this).2
  cases r with
  | cons q r =>
    have hok : s.CrossOk := by
      intro p' hp' _ _ _ hn
      rw [hit] at hp'
      cases hp'
      simp [hnext] at hn
    refine ⟨fun _ => ?_, fun hno => absurd hok hno⟩
    have hadv : shashAdvance s p = { s with iterator := some q } := by
      simp [shashAdvance, hnext]
    rw [hadv, hrest]
    exact ⟨rfl, hidx, table, l ++ [p], r, htab, by simpa using hchain, rfl⟩
  | nil =>
    have hn : s.next p = none := hnext
    generalize hs1 : ({ s with
      iterator := none, iteratorBucket := s.iteratorBucket + 1 } : Shash V) = s1
    have hadv : shashAdvance s p = shashIterateFrom (2^s.numBucketsAt s.iteratorIndex)
        (2 - s.iteratorIndex) s.iteratorIndex s1 := by
      simp only [shashAdvance, hn, Nat.one_shiftLeft, ← hs1]
      rfl
    have hscan : ∀ t n b, s1.scan t n b = s.scan t n b := by
      intro t n b
      rw [← hs1]
      exact Shash.scan_congr rfl
    have hbucket : s1.iteratorBucket = s.iteratorBucket + 1 := by rw [← hs1]
    have hclosed : s1.iterator = none := by rw [← hs1]
    have hat : ∀ i, s1.bucketsAt i = s.bucketsAt i := by
      rw [← hs1]
      exact fun _ => rfl
    have hlt : s.iteratorBucket + 1 ≤ 2^s.numBucketsAt s.iteratorIndex :=
      h.iterator_lt (p := p) hidx htab (by rw [hchain]; simp)
    have hfound : ∀ b' q, s.scan table (2^s.numBucketsAt s.iteratorIndex -
        (s.iteratorBucket + 1)) (s.iteratorBucket + 1) = some (b', q) →
        ({ s1 with iteratorBucket := b', iterator := some q, iteratorIndex := s.iteratorIndex } :
          Shash V).Remaining chain rest := by
      intro b' q hsc
      rw [hrest]
      refine Shash.remaining_scan hc hidx htab hsc hlt ?_
      rw [← hs1]
    rcases Nat.le_one_iff_eq_zero_or_eq_one.mp hidx with hi | hi
    · rw [hi] at hadv htab hfound hrest
      simp only [Shash.bucketsAt, if_true, Option.some.injEq] at htab
      subst htab
      cases hsc : s.scan s.buckets0 (2^s.numBuckets0 - (s.iteratorBucket + 1))
          (s.iteratorBucket + 1) with
      | some bq =>
        obtain ⟨b', q⟩ := bq
        have hok : s.CrossOk := by
          intro _ _ _ _ _ _ hno
          simp [hsc] at hno
        refine ⟨fun _ => ?_, fun hno => absurd hok hno⟩
        rw [hadv, shashIterateFrom_hit (hat 0) (by rw [hscan, hbucket]; exact hsc)]
        exact hfound b' q hsc
      | none =>
        have hnil : tableNodes chain s.buckets0 (2^s.numBuckets0 - (s.iteratorBucket + 1))
            (s.iteratorBucket + 1) = [] := (Shash.scan_none fun b => hc _ b).mp hsc
        have hrest' : rest = s.after chain 0 := by
          simpa [Shash.numBucketsAt, hnil] using hrest
        rw [hrest', hadv, shashIterateFrom_miss (hat 0) (by rw [hscan, hbucket]; exact hsc),
          if_pos rfl]
        rcases h.cross (show _ = { s1 with iteratorBucket := 0 } by rw [← hs1]) with
          ⟨hrem, hsome⟩ | ⟨hend, table, ht1, hsc1⟩
        · have hok : s.CrossOk := fun _ _ table ht1 _ _ _ hno => absurd hno (hsome table ht1)
          exact ⟨fun _ => hrem, fun hno => absurd hok hno⟩
        · refine ⟨fun hok => ?_, fun _ => hend⟩
          have hall := hok p hit table ht1 hi hn hsc hsc1
          have hnone : s.after chain 0 = [] := by
            rw [Shash.after, if_pos rfl, Option.mem_def.mp ht1]
            exact (Shash.scan_none fun b => hc _ b).mp hall
          rw [hnone]
          exact hend
    · rw [hi] at hadv htab hfound hrest
      have hok : s.CrossOk := by
        intro _ _ _ _ h0
        omega
      refine ⟨fun _ => ?_, fun hno => absurd hok hno⟩
      cases hsc : s.scan table (2^s.numBucketsAt 1 - (s.iteratorBucket + 1))
          (s.iteratorBucket + 1) with
      | some bq =>
        obtain ⟨b', q⟩ := bq
        rw [hadv, shashIterateFrom_hit ((hat 1).trans htab) (by rw [hscan, hbucket]; exact hsc)]
        exact hfound b' q hsc
      | none =>
        have hnil : rest = [] := by
          simpa [Shash.after, (Shash.scan_none fun b => hc _ b).mp hsc] using hrest
        rw [hnil, hadv,
          shashIterateFrom_miss ((hat 1).trans htab) (by rw [hscan, hbucket]; exact hsc)]
        exact hclosed

theorem shashIterateFrom_frame (numBuckets n i : Nat) : ∃ j b it,
    shashIterateFrom numBuckets n i s =
      { s with iteratorIndex := j, iteratorBucket := b, iterator := it } := by
  induction n generalizing i s with
  | zero => exact ⟨_, _, _, rfl⟩
  | succ n ih =>
    simp only [shashIterateFrom]
    split
    · exact ⟨_, _, _, rfl⟩
    · split
      · exact ⟨_, _, _, rfl⟩
      · obtain ⟨j, b, it, he⟩ := ih (i+1) (s := if i = 0 then { s with iteratorBucket := 0 } else s)
        refine ⟨j, b, it, he.trans ?_⟩
        split <;> rfl

theorem shashBegin_frame (n i : Nat) : ∃ j b it, shashBeginFrom n i s =
    { s with iteratorIndex := j, iteratorBucket := b, iterator := it } := by
  induction n generalizing i with
  | zero => exact ⟨_, _, _, rfl⟩
  | succ n ih =>
    simp only [shashBeginFrom]
    split
    · exact ⟨_, _, _, rfl⟩
    · split
      · exact ⟨_, _, _, rfl⟩
      · exact ih (i+1)

theorem shashAdvance_frame (p : ShashPtr) : ∃ j b it, shashAdvance s p =
    { s with iteratorIndex := j, iteratorBucket := b, iterator := it } := by
  simp only [shashAdvance]
  split
  · exact ⟨_, _, _, rfl⟩
  · obtain ⟨j, b, it, he⟩ := shashIterateFrom_frame
      (1 <<< s.numBucketsAt s.iteratorIndex) (2 - s.iteratorIndex) s.iteratorIndex
      (s := { s with iterator := s.next p, iteratorBucket := s.iteratorBucket + 1 })
    exact ⟨j, b, it, he⟩

theorem Shash.Rep.with_iterator (h : s.Rep chain m) {i b : Nat} {it : Option ShashPtr}
    {rest : List ShashPtr}
    (hr : ({ s with iteratorIndex := i, iteratorBucket := b, iterator := it } : Shash V).Remaining
      chain rest) :
    ({ s with iteratorIndex := i, iteratorBucket := b, iterator := it } : Shash V).Rep chain m := by
  refine ⟨⟨h.shape.small, h.shape.table0, h.shape.table1, h.shape.double⟩,
    ⟨h.chains.next, h.chains.prev, h.chains.node, h.chains.home, h.chains.short,
      h.chains.sorted⟩, h.lookup, h.size, ?_⟩
  intro p hp
  cases rest with
  | nil => exact absurd (hr.symm.trans hp) (by simp)
  | cons q rest =>
    obtain ⟨hq, hi, table, l, r, ht, hch, -⟩ := hr
    have hpq : q = p := Option.some.inj (hq.symm.trans hp)
    refine ⟨hi, table, ht, ?_⟩
    rw [hch, hpq]
    simp

theorem Shash.Rep.remaining (h : s.Rep chain m) {p : ShashPtr} (hit : s.iterator = some p) :
    ∃ rest, s.Remaining chain (p :: rest) := by
  obtain ⟨hi, table, ht, hp⟩ := h.iter p hit
  obtain ⟨l, r, hlr⟩ := List.append_of_mem hp
  exact ⟨_, hit, hi, table, l, r, ht, hlr, rfl⟩

theorem Shash.Rep.advanced (h : s.Rep chain m) {p : ShashPtr} (hit : s.iterator = some p) :
    (shashAdvance s p).Rep chain m ∧ (shashAdvance s p).iterator ≠ some p := by
  obtain ⟨rest, hr⟩ := h.remaining hit
  have hsuf := h.remaining_suffix hr
  have hnd := List.Nodup.sublist hsuf.sublist h.order_nodup
  obtain ⟨j, b, it, he⟩ := shashAdvance_frame (s := s) p
  have hne : ∀ rest', (shashAdvance s p).Remaining chain rest' → p ∉ rest' →
      (shashAdvance s p).Rep chain m ∧ (shashAdvance s p).iterator ≠ some p := by
    intro rest' hr' hp'
    refine ⟨?_, ?_⟩
    · rw [he] at hr' ⊢
      exact h.with_iterator hr'
    · intro hsome
      cases rest' with
      | nil => exact absurd (hr'.symm.trans hsome) (by simp)
      | cons q rest' =>
        have hpq : q = p := Option.some.inj (hr'.1.symm.trans hsome)
        exact hp' (by simp [hpq])
  by_cases hok : s.CrossOk
  · exact hne _ ((h.advance hr).1 hok) (List.nodup_cons.mp hnd).1
  · exact hne _ ((h.advance hr).2 hok) (by simp)

theorem Shash.Rep.begin (h : s.Rep chain m) :
    (shashBeginIterate s).Remaining chain (s.order chain) := by
  have hc := h.chain_next
  have hfound : ∀ i table b p, i ≤ 1 → s.bucketsAt i = some table →
      s.scan table (2^s.numBucketsAt i) 0 = some (b, p) →
      ({ s with iteratorIndex := i, iteratorBucket := b, iterator := some p } : Shash V).Remaining
        chain (tableNodes chain table (2^s.numBucketsAt i) 0 ++ s.after chain i) := by
    intro i table b p hi ht hs
    exact Shash.remaining_scan hc hi ht hs (Nat.zero_le _) rfl
  simp only [shashBeginIterate, shashBeginFrom, Nat.one_shiftLeft, Shash.order]
  cases hs0 : s.scan s.buckets0 (2^s.numBuckets0) 0 with
  | some bp =>
    simpa [Shash.bucketsAt, Shash.numBucketsAt, hs0] using
      hfound 0 s.buckets0 bp.1 bp.2 (by omega) rfl hs0
  | none =>
    rw [(Shash.scan_none fun b => hc _ b).mp hs0, List.nil_append]
    cases ht1 : s.buckets1 with
    | none => simp [Shash.bucketsAt, Shash.numBucketsAt, hs0, ht1, Shash.after, Shash.Remaining]
    | some table =>
      cases hs1 : s.scan table (2^s.numBuckets1) 0 with
      | some bp =>
        simpa [Shash.bucketsAt, Shash.numBucketsAt, hs0, hs1, ht1, Shash.after] using
          hfound 1 table bp.1 bp.2 (le_refl 1) ht1 hs1
      | none =>
        have hnil := (Shash.scan_none fun b => hc table b).mp hs1
        simp [Shash.bucketsAt, Shash.numBucketsAt, hs0, hs1, ht1, Shash.after, hnil,
          Shash.Remaining]

end SimpleKit
