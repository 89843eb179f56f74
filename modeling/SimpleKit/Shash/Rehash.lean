import SimpleKit.Shash.Chains

set_option autoImplicit false

namespace SimpleKit
open Linked SortedBy

variable {V : Type} {s : Shash V} {chain : ShashPtr → List ShashPtr}

abbrev KeyMap (V : Type) := Finmap fun _ : Key => V

/-- The array numbers and exponents, the same whatever the chains hold. -/
structure Shash.Shape (s : Shash V) : Prop where
  small : s.numBuckets0 ≤ shashMaxNumBuckets
  table0 : s.buckets0 < s.freshTable
  table1 : ∀ table, s.buckets1 = some table → table ≠ s.buckets0 ∧ table < s.freshTable
  double : s.buckets1 ≠ none → s.numBuckets1 = s.numBuckets0 + 1 ∧
    s.numBuckets1 ≤ shashMaxNumBuckets ∧ s.rehashBucket < 2^s.numBuckets0

structure Shash.Rep (s : Shash V) (chain : ShashPtr → List ShashPtr) (m : KeyMap V) :
    Prop where
  shape : s.Shape
  chains : s.Chains s.bucketFor none chain
  lookup : ∀ k v, m.lookup k = some v ↔
    ∃ p ∈ chain (s.bucketFor k), s.key p = k ∧ s.value p = v
  size : s.numNode = m.keys.card
  iter : ∀ p, s.iterator = some p → s.iteratorIndex ≤ 1 ∧
    ∃ table, s.bucketsAt s.iteratorIndex = some table ∧
      p ∈ chain (.bucket table s.iteratorBucket)

variable {m : KeyMap V}

theorem Shash.Rep.key_mem (h : s.Rep chain m) {t b : Nat} {p : ShashPtr}
    (hp : p ∈ chain (.bucket t b)) : s.key p ∈ m.keys := by
  have hl := (h.lookup (s.key p) (s.value p)).mpr
    ⟨p, by rwa [h.chains.home t b p hp], rfl, rfl⟩
  exact Finmap.mem_keys.mpr (Finmap.mem_of_lookup_eq_some hl)

theorem Shash.Rep.length_le (h : s.Rep chain m) (t b : Nat) :
    (chain (.bucket t b)).length ≤ s.numNode := by
  rw [h.size]
  exact length_le_card (h.chains.sorted t b) fun p hp => h.key_mem hp

theorem Shash.bucketFor_table (h : s.Shape) (k : Key) {t b : Nat}
    (hb : s.bucketFor k = .bucket t b) : t < s.freshTable := by
  simp only [Shash.bucketFor] at hb
  split at hb
  · next table ht =>
    split at hb
    · cases hb
      exact (h.table1 _ ht).2
    · cases hb
      exact h.table0
  · cases hb
    exact h.table0

/-- Moving the mark past a bucket rehomes the keys of that bucket only. -/
theorem Shash.bucketFor_succ {table : Nat} (ht : s.buckets1 = some table)
    (hne : table ≠ s.buckets0) (k : Key) :
    ({ s with rehashBucket := s.rehashBucket + 1 } : Shash V).bucketFor k =
      if s.bucketFor k = .bucket s.buckets0 s.rehashBucket then
        .bucket table (bucketIndex (shashHashKey k) s.numBuckets1)
      else s.bucketFor k := by
  simp only [Shash.bucketFor, ht]
  rcases lt_trichotomy (bucketIndex (shashHashKey k) s.numBuckets0) s.rehashBucket with hi | hi | hi
  · have h1 : bucketIndex (shashHashKey k) s.numBuckets0 < s.rehashBucket + 1 := by omega
    simp [hi, h1, hne]
  · simp [hi]
  · have h1 : ¬ bucketIndex (shashHashKey k) s.numBuckets0 < s.rehashBucket + 1 := by omega
    have h2 : ¬ bucketIndex (shashHashKey k) s.numBuckets0 < s.rehashBucket := by omega
    have h3 : bucketIndex (shashHashKey k) s.numBuckets0 ≠ s.rehashBucket := by omega
    simp [h1, h2, h3]

section Move
variable {home : Key → ShashPtr} {skip : Option ShashPtr} {table : Nat}

/-- The nodes `r` still to be moved in the middle of a migration: linked to each other,
outside of every chain, and homed in the new array. -/
structure Shash.Moving (s : Shash V) (home : Key → ShashPtr)
    (chain : ShashPtr → List ShashPtr) (table : Nat) (r : List ShashPtr) : Prop where
  next : ∀ p r', r = p :: r' → Chain s.next p r'
  node : ∀ p ∈ r, ∃ n < s.freshNode, p = .node n
  home : ∀ p ∈ r, home (s.key p) =
    .bucket table (bucketIndex (shashHashKey (s.key p)) s.numBuckets1)
  short : ∀ p ∈ r, (s.key p).length < 2^31
  nodup : (r.map s.key).Nodup
  apart : ∀ p ∈ r, ∀ t b, ∀ q ∈ chain (.bucket t b), s.key q ≠ s.key p

theorem Shash.Moving.notMem {r : List ShashPtr} (h : s.Moving home chain table r)
    {p : ShashPtr} (hp : p ∈ r) (t b : Nat) : p ∉ chain (.bucket t b) :=
  fun hq => h.apart p hp t b p hq rfl

/-- The migration loop puts every remaining node into the chain of its home and changes
nothing but links. -/
theorem shashMoveLoop_spec (keys : Finset Key) {r : List ShashPtr} {fuel : Nat}
    (hf : r.length ≤ fuel)
    (hc : s.Chains home skip chain) (hm : s.Moving home chain table r)
    (hskip : ∀ b, skip ≠ some (.bucket table b))
    (hkeys : ∀ t b, ∀ p ∈ chain (.bucket t b), s.key p ∈ keys) (hr : ∀ p ∈ r, s.key p ∈ keys)
    (hcard : keys.card = s.numNode) :
    ∃ next prev chain', shashMoveLoop table fuel r.head? s = some { s with next, prev } ∧
      ({ s with next, prev } : Shash V).Chains home skip chain' ∧
      ∀ t b p, p ∈ chain' (.bucket t b) ↔
        p ∈ chain (.bucket t b) ∨ p ∈ r ∧ home (s.key p) = .bucket t b := by
  induction r generalizing s chain fuel with
  | nil => exact ⟨s.next, s.prev, chain, by cases fuel <;> rfl, hc, by simp⟩
  | cons p r ih =>
    obtain ⟨fuel, rfl⟩ : ∃ n, fuel = n+1 := ⟨fuel-1, by simp at hf; omega⟩
    obtain ⟨n, hn, rfl⟩ := hm.node p (by simp)
    generalize hb : bucketIndex (shashHashKey (s.key (.node n))) s.numBuckets1 = b
    have hhome : home (s.key (.node n)) = .bucket table b := by
      rw [← hb]
      exact hm.home _ (by simp)
    have hshort := hm.short (.node n) (by simp)
    have hlen : (chain (.bucket table b)).length < s.fuel := by
      have := length_le_card (hc.sorted table b) (hkeys table b)
      rw [Shash.fuel]
      omega
    have hplace := hc.placeLoop (hskip b) hshort hlen
    have hlink := hc.link hn (hm.notMem (by simp)) hshort hhome (hskip b)
      (fun q hq => hm.apart _ (by simp) table b q hq)
    generalize hdst : last (.bucket table b) (below s.key (s.key (.node n))
      (chain (.bucket table b))) = dst at *
    generalize hch : Function.update chain (.bucket table b) _ = chain1 at *
    have hmem : ∀ t' b' q, q ∈ chain1 (.bucket t' b') ↔
        q ∈ chain (.bucket t' b') ∨ q = .node n ∧ home (s.key q) = .bucket t' b' := by
      intro t' b' q
      rw [← hch]
      by_cases hne : ShashPtr.bucket t' b' = .bucket table b
      · rw [hne, Function.update_self, mem_insert_iff]
        have : q = .node n → home (s.key q) = .bucket table b := by
          rintro rfl
          exact hhome
        tauto
      · rw [Function.update_of_ne hne]
        have : q = .node n → home (s.key q) ≠ .bucket t' b' := by
          rintro rfl he
          exact hne (he.symm.trans hhome)
        tauto
    have hdstmem : dst ∈ ShashPtr.bucket table b :: chain (.bucket table b) := by
      rw [← hdst]
      exact last_mem_of_subset _ (List.filter_sublist.subset)
    have hdstr : ∀ q ∈ r, q ≠ dst := by
      rintro q hq rfl
      rcases List.mem_cons.mp hdstmem with he | he
      · obtain ⟨k, -, hk⟩ := hm.node q (by simp [hq])
        exact ShashPtr.noConfusion (hk.symm.trans he)
      · exact hm.notMem (by simp [hq]) table b he
    have hnr : ∀ q ∈ r, s.key q ≠ s.key (.node n) := by
      intro q hq he
      exact (List.nodup_cons.mp hm.nodup).1 (he ▸ List.mem_map_of_mem hq)
    have hm1 : (s.link (.node n) dst).Moving home chain1 table r := by
      refine ⟨?_, fun q hq => hm.node q (by simp [hq]), fun q hq => hm.home q (by simp [hq]),
        fun q hq => hm.short q (by simp [hq]), (List.nodup_cons.mp hm.nodup).2, ?_⟩
      · rintro q r' rfl
        refine chain_congr ?_ (hm.next _ _ rfl).2
        intro y hy
        have hyn : y ≠ .node n := fun he => hnr y hy (by rw [he])
        simp [Shash.link, Function.update_of_ne (hdstr y hy), Function.update_of_ne hyn]
      · intro q hq t' b' y hy
        rcases (hmem t' b' y).mp hy with hy | ⟨rfl, -⟩
        · exact hm.apart q (by simp [hq]) t' b' y hy
        · exact (hnr q hq).symm
    have hnext : s.next (.node n) = r.head? := chain_next (hm.next _ _ rfl)
    obtain ⟨next, prev, chain', hrun, hc', hmem'⟩ := ih (s := s.link (.node n) dst)
      (show r.length ≤ fuel by simpa using hf) hlink hm1
      (by
        intro t' b' q hq
        rcases (hmem t' b' q).mp hq with hq | ⟨rfl, -⟩
        · exact hkeys t' b' q hq
        · exact hr _ (by simp))
      (fun q hq => hr q (by simp [hq])) hcard
    refine ⟨next, prev, chain', ?_, hc', ?_⟩
    · simp only [shashMoveLoop, List.head?_cons, hb, hplace, Option.bind_eq_bind,
        Option.bind_some, hnext, hrun]
      rfl
    · intro t' b' q
      have hkey : (s.link (.node n) dst).key = s.key := rfl
      rw [hmem' t' b' q, hmem t' b' q, hkey, List.mem_cons]
      tauto

theorem shashMoveLoop_frame {fuel : Nat} {p : Option ShashPtr} {s' : Shash V}
    (h : shashMoveLoop table fuel p s = some s') : ∃ next prev, s' = { s with next, prev } := by
  induction fuel generalizing p s with
  | zero =>
    cases p with
    | none => exact ⟨s.next, s.prev, (Option.some.inj h).symm⟩
    | some p => simp [shashMoveLoop] at h
  | succ fuel ih =>
    cases p with
    | none => exact ⟨s.next, s.prev, (Option.some.inj h).symm⟩
    | some p =>
      obtain ⟨dst, -, h⟩ := Option.bind_eq_some_iff.mp h
      obtain ⟨next, prev, rfl⟩ := ih h
      exact ⟨next, prev, rfl⟩

end Move

theorem Shash.Rep.start (h : s.Rep chain m) : (shashStartRehash s).Rep chain m := by
  rw [shashStartRehash]
  split
  · next hs =>
    obtain ⟨h1, hit, -, hmax⟩ := hs
    have hbf : ∀ k, ({ s with
        numBuckets1 := s.numBuckets0 + 1
        buckets1 := some s.freshTable
        rehashBucket := 0 } : Shash V).bucketFor k = s.bucketFor k := by
      intro k
      simp [Shash.bucketFor, h1]
    have hchain : ∀ b, chain (.bucket s.freshTable b) = [] := by
      intro b
      refine List.eq_nil_iff_forall_not_mem.mpr fun p hp => ?_
      exact absurd (Shash.bucketFor_table h.shape _ (h.chains.home _ _ p hp)) (lt_irrefl _)
    refine ⟨⟨h.shape.small, ?_, ?_, ?_⟩, ⟨?_, h.chains.prev, h.chains.node, ?_, h.chains.short,
      h.chains.sorted⟩, ?_, h.size, ?_⟩
    · have := h.shape.table0
      simp only
      omega
    · rintro table ht
      cases ht
      have := h.shape.table0
      simp only
      omega
    · intro _
      exact ⟨rfl, hmax, Nat.two_pow_pos _⟩
    · intro t b hsk
      refine chain_congr ?_ (h.chains.next t b hsk)
      intro p hp
      rcases List.mem_cons.mp hp with rfl | hp
      · by_cases ht : t = s.freshTable
        · subst ht
          have hn := chain_next (h.chains.next _ b hsk)
          rw [hchain b] at hn
          simp [hn]
        · simp [ht]
      · obtain ⟨n, -, rfl⟩ := h.chains.node t b p hp
        rfl
    · intro t b p hp
      exact (hbf _).trans (h.chains.home t b p hp)
    · intro k v
      exact (h.lookup k v).trans (by rw [← hbf k]; exact Iff.rfl)
    · intro p hp
      exact absurd (hit.symm.trans hp) (by simp)
  · exact h

/-- With one bucket emptied into the new array, the mark moves on or the arrays are swapped;
either way every key is where `bucketFor` looks. -/
theorem Shash.bucketFor_finish {table : Nat} (h : s.Shape) (ht : s.buckets1 = some table)
    (k : Key) : (shashFinishBucket s table).bucketFor k =
      ({ s with rehashBucket := s.rehashBucket + 1 } : Shash V).bucketFor k := by
  obtain ⟨hd, -, hlt⟩ := h.double (by simp [ht])
  simp only [shashFinishBucket, Nat.one_shiftLeft]
  split
  · next he =>
    have hi : bucketIndex (shashHashKey k) s.numBuckets0 < s.rehashBucket + 1 := by
      rw [he, bucketIndex_eq]
      exact Nat.mod_lt _ (Nat.two_pow_pos _)
    simp [Shash.bucketFor, ht, hi]
  · rfl

theorem Shash.Shape.finish {table : Nat} (h : s.Shape) (ht : s.buckets1 = some table) :
    (shashFinishBucket s table).Shape := by
  obtain ⟨hne, htab⟩ := h.table1 table ht
  obtain ⟨hd, hmax, hlt⟩ := h.double (by simp [ht])
  simp only [shashFinishBucket, Nat.one_shiftLeft]
  split
  · exact ⟨hmax, htab, by simp, by simp⟩
  · next he => exact ⟨h.small, h.table0, h.table1, fun _ => ⟨hd, hmax, by simp only; omega⟩⟩

theorem shashFinishBucket_fields (s : Shash V) (table : Nat) :
    (shashFinishBucket s table).next =
        Function.update s.next (.bucket s.buckets0 s.rehashBucket) none ∧
      (shashFinishBucket s table).prev = s.prev ∧ (shashFinishBucket s table).key = s.key ∧
      (shashFinishBucket s table).value = s.value ∧
      (shashFinishBucket s table).freshNode = s.freshNode ∧
      (shashFinishBucket s table).numNode = s.numNode ∧
      (shashFinishBucket s table).iterator = s.iterator := by
  simp only [shashFinishBucket]
  split <;> exact ⟨rfl, rfl, rfl, rfl, rfl, rfl, rfl⟩

section Migrate
variable {home : Key → ShashPtr} {head : ShashPtr} {table : Nat}

theorem mem_emptied (t b : Nat) (p : ShashPtr) :
    p ∈ Function.update chain head [] (.bucket t b) ↔
      p ∈ chain (.bucket t b) ∧ ShashPtr.bucket t b ≠ head := by
  by_cases hb : ShashPtr.bucket t b = head
  · simp [hb]
  · simp [hb]

/-- The bucket under the mark counts as empty, its nodes as being on the way. -/
theorem Shash.Chains.emptied (h : s.Chains s.bucketFor none chain)
    (hhome : ∀ k, s.bucketFor k ≠ head → home k = s.bucketFor k) :
    s.Chains home (some head) (Function.update chain head []) := by
  refine ⟨?_, ?_, ?_, ?_, ?_, ?_⟩
  · intro t b hs
    have hb : ShashPtr.bucket t b ≠ head := fun he => hs (by rw [he])
    rw [Function.update_of_ne hb]
    exact h.next t b (by simp)
  · intro t b
    by_cases hb : ShashPtr.bucket t b = head
    · rw [hb, Function.update_self]
      trivial
    · rw [Function.update_of_ne hb]
      exact h.prev t b
  · exact fun t b p hp => h.node t b p ((mem_emptied t b p).mp hp).1
  · intro t b p hp
    obtain ⟨hp, hb⟩ := (mem_emptied t b p).mp hp
    have hkey := h.home t b p hp
    rw [hhome (s.key p) (by rwa [hkey]), hkey]
  · exact fun t b p hp => h.short t b p ((mem_emptied t b p).mp hp).1
  · intro t b
    by_cases hb : ShashPtr.bucket t b = head
    · rw [hb, Function.update_self]
      exact List.Pairwise.nil
    · rw [Function.update_of_ne hb]
      exact h.sorted t b

theorem Shash.Chains.moving (h : s.Chains s.bucketFor none chain) (t b : Nat)
    (hhome : ∀ k, s.bucketFor k = .bucket t b →
      home k = .bucket table (bucketIndex (shashHashKey k) s.numBuckets1)) :
    s.Moving home (Function.update chain (.bucket t b) []) table (chain (.bucket t b)) := by
  refine ⟨?_, h.node t b, fun p hp => hhome (s.key p) (h.home t b p hp), h.short t b,
    (h.sorted t b).nodup_keys, ?_⟩
  · intro p r hr
    have hn := h.next t b (by simp)
    rw [hr] at hn
    exact hn.2
  · intro p hp t' b' q hq he
    obtain ⟨hq, hb⟩ := (mem_emptied t' b' q).mp hq
    exact hb (by rw [← h.home t' b' q hq, he, h.home t b p hp])

theorem Shash.Chains.mem_moved (h : s.Chains s.bucketFor none chain) {t b : Nat}
    {chain' : ShashPtr → List ShashPtr}
    (hhome : ∀ k, s.bucketFor k ≠ .bucket t b → home k = s.bucketFor k)
    (hbucket : ∀ k, ∃ t' b', home k = .bucket t' b')
    (hmem : ∀ t' b' p, p ∈ chain' (.bucket t' b') ↔
      p ∈ Function.update chain (.bucket t b) [] (.bucket t' b') ∨
        p ∈ chain (.bucket t b) ∧ home (s.key p) = .bucket t' b') (p : ShashPtr) :
    p ∈ chain' (home (s.key p)) ↔ p ∈ chain (s.bucketFor (s.key p)) := by
  obtain ⟨t', b', hb'⟩ := hbucket (s.key p)
  rw [hb', hmem, mem_emptied, hb']
  constructor
  · rintro (⟨hp, -⟩ | ⟨hp, -⟩)
    · rwa [h.home t' b' p hp]
    · rwa [h.home t b p hp]
  · intro hp
    by_cases hhd : s.bucketFor (s.key p) = .bucket t b
    · exact Or.inr ⟨hhd ▸ hp, rfl⟩
    · have hsame := hhome (s.key p) hhd
      rw [← hsame, hb'] at hp hhd
      exact Or.inl ⟨hp, hhd⟩

end Migrate

theorem Shash.Rep.migrate (h : s.Rep chain m) {table : Nat} (ht : s.buckets1 = some table)
    (hit : s.iterator = none) :
    ∃ s' chain', (do
        let s' ← shashMoveLoop table s.fuel (s.next (.bucket s.buckets0 s.rehashBucket)) s
        some (shashFinishBucket s' table)) = some s' ∧ s'.Rep chain' m := by
  obtain ⟨hne, htab⟩ := h.shape.table1 table ht
  generalize hhome : ({ s with rehashBucket := s.rehashBucket + 1 } : Shash V).bucketFor = home
  have hsucc : ∀ k, home k = if s.bucketFor k = .bucket s.buckets0 s.rehashBucket then
      .bucket table (bucketIndex (shashHashKey k) s.numBuckets1) else s.bucketFor k := by
    intro k
    rw [← hhome]
    exact Shash.bucketFor_succ ht hne k
  have hkept : ∀ k, s.bucketFor k ≠ .bucket s.buckets0 s.rehashBucket →
      home k = s.bucketFor k := fun k hk => by rw [hsucc, if_neg hk]
  have hmove : s.Moving home (Function.update chain (.bucket s.buckets0 s.rehashBucket) []) table
      (chain (.bucket s.buckets0 s.rehashBucket)) :=
    h.chains.moving _ _ fun k hk => by rw [hsucc, if_pos hk]
  have hlen : (chain (.bucket s.buckets0 s.rehashBucket)).length ≤ s.fuel :=
    Nat.le_succ_of_le (h.length_le _ _)
  have hnext : s.next (.bucket s.buckets0 s.rehashBucket) =
      (chain (.bucket s.buckets0 s.rehashBucket)).head? :=
    chain_next (h.chains.next _ _ (by simp))
  obtain ⟨next, prev, chain', hrun, hc', hmem⟩ := shashMoveLoop_spec m.keys hlen
    (h.chains.emptied hkept) hmove (by simp [hne.symm])
    (fun t b p hp => h.key_mem ((mem_emptied t b p).mp hp).1)
    (fun p hp => h.key_mem hp) h.size.symm
  have hempty : chain' (.bucket s.buckets0 s.rehashBucket) = [] := by
    refine List.eq_nil_iff_forall_not_mem.mpr fun p hp => ?_
    rcases (hmem _ _ p).mp hp with hp | ⟨hp, hp'⟩
    · exact ((mem_emptied _ _ p).mp hp).2 rfl
    · rw [hmove.home p hp, ShashPtr.bucket.injEq] at hp'
      exact hne hp'.1
  let s1 : Shash V := { s with next, prev }
  have hshape : s1.Shape := ⟨h.shape.small, h.shape.table0, h.shape.table1, h.shape.double⟩
  have hbf : ∀ k, (shashFinishBucket s1 table).bucketFor k = home k := by
    intro k
    rw [Shash.bucketFor_finish hshape ht, ← hhome]
    rfl
  obtain ⟨fnext, fprev, fkey, fvalue, ffresh, fnum, fiter⟩ := shashFinishBucket_fields s1 table
  refine ⟨shashFinishBucket s1 table, chain', ?_, hshape.finish ht, ⟨?_, ?_, ?_, ?_, ?_, ?_⟩,
    ?_, ?_, ?_⟩
  · rw [hnext, hrun]
    rfl
  · intro t b _
    rw [fnext]
    by_cases hb : ShashPtr.bucket t b = .bucket s.buckets0 s.rehashBucket
    · rw [hb, hempty]
      exact Function.update_self ..
    · refine chain_congr ?_ (hc'.next t b (by simpa using Ne.symm hb))
      intro p hp
      refine Function.update_of_ne ?_ _ _
      rcases List.mem_cons.mp hp with rfl | hp
      · exact hb
      · rintro rfl
        exact hc'.bucket_notMem s.buckets0 s.rehashBucket t b hp
  · rw [fprev]
    exact hc'.prev
  · rw [ffresh]
    exact hc'.node
  · intro t b p hp
    rw [fkey, hbf]
    exact hc'.home t b p hp
  · rw [fkey]
    exact hc'.short
  · rw [fkey]
    exact hc'.sorted
  · intro k v
    rw [h.lookup k v, fkey, fvalue, hbf]
    refine exists_congr fun p => and_congr_left fun hkv => ?_
    rw [← hkv.1]
    exact (h.chains.mem_moved hkept (fun k => hhome ▸ Shash.bucketFor_bucket _ k) hmem p).symm
  · rw [fnum]
    exact h.size
  · rw [fiter]
    simp [s1, hit]

/-- A call's rehash work never fails, keeps the map, and does nothing while an iterator is open. -/
theorem Shash.Rep.checkRehash (h : s.Rep chain m) :
    ∃ s' chain', shashCheckRehash s = some s' ∧ s'.Rep chain' m ∧
      (s.iterator ≠ none → s' = s ∧ chain' = chain) := by
  have hstart := h.start
  by_cases hit : s.iterator = none
  · have hit' : (shashStartRehash s).iterator = none := by
      rw [shashStartRehash]
      split <;> exact hit
    cases ht : (shashStartRehash s).buckets1 with
    | none =>
      refine ⟨shashStartRehash s, chain, ?_, hstart, fun hne => absurd hit hne⟩
      simp [shashCheckRehash, ht]
    | some table =>
      obtain ⟨s', chain', hrun, hrep⟩ := hstart.migrate ht hit'
      refine ⟨s', chain', ?_, hrep, fun hne => absurd hit hne⟩
      rw [← hrun]
      simp only [shashCheckRehash, ht, hit']
  · have hs : shashStartRehash s = s := by
      rw [shashStartRehash, if_neg]
      exact fun hc => hit hc.2.1
    refine ⟨s, chain, ?_, h, fun _ => ⟨rfl, rfl⟩⟩
    rw [shashCheckRehash, hs]
    obtain ⟨p, hp⟩ := Option.ne_none_iff_exists'.mp hit
    simp only [hp]
    split <;> simp_all

theorem shashCheckRehash_moved {s' : Shash V} (h : shashCheckRehash s = some s') {table : Nat}
    (ht : (shashStartRehash s).buckets1 = some table) (hit : (shashStartRehash s).iterator = none) :
    ∃ next prev, s' = shashFinishBucket { shashStartRehash s with next, prev } table := by
  simp only [shashCheckRehash, ht, hit] at h
  obtain ⟨s1, hs1, h⟩ := Option.bind_eq_some_iff.mp h
  obtain ⟨next, prev, rfl⟩ := shashMoveLoop_frame hs1
  exact ⟨next, prev, (Option.some.inj h).symm⟩

theorem shashCheckRehash_iterator {s' : Shash V} (h : shashCheckRehash s = some s') :
    s'.iterator = s.iterator := by
  have hstart : (shashStartRehash s).iterator = s.iterator := by
    rw [shashStartRehash]
    split <;> rfl
  rw [← hstart]
  cases ht : (shashStartRehash s).buckets1 with
  | none =>
    simp only [shashCheckRehash, ht, Option.some.injEq] at h
    rw [h]
  | some table =>
    cases hit : (shashStartRehash s).iterator with
    | none =>
      obtain ⟨next, prev, rfl⟩ := shashCheckRehash_moved h ht hit
      rw [← hit]
      simp only [shashFinishBucket]
      split <;> rfl
    | some p =>
      simp only [shashCheckRehash, ht, hit, Option.some.injEq] at h
      rw [← h, hit]

end SimpleKit
