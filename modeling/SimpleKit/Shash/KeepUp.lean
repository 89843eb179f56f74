import SimpleKit.Shash.Refine

/-!
An incremental rehash moves one bucket a call and a call adds at most one node: the
counters of the table alone show that it ends before the new array is overfull.
-/
set_option autoImplicit false

namespace SimpleKit
open Runs

variable {V : Type} {s s' : Shash V}

structure Shash.KeepsUp (s : Shash V) : Prop where
  small : s.numBuckets0 ≤ shashMaxNumBuckets
  idle : s.buckets1 = none → s.numNode ≤ 2^s.numBuckets0 ∨ s.numBuckets0 = shashMaxNumBuckets
  running : s.buckets1 ≠ none → s.numBuckets1 = s.numBuckets0 + 1 ∧
    s.numBuckets1 ≤ shashMaxNumBuckets ∧ s.rehashBucket < 2^s.numBuckets0 ∧
    s.numNode ≤ 2^s.numBuckets0 + s.rehashBucket

/-- How far the rehash has come: the exponents of both arrays and the mark. -/
def Shash.stage (s : Shash V) : Nat × Nat × Option Nat × Nat :=
  (s.numBuckets0, s.numBuckets1, s.buckets1, s.rehashBucket)

theorem Shash.KeepsUp.of_stage (h : s.KeepsUp) (hs : s'.stage = s.stage)
    (hle : s'.numNode ≤ s.numNode) : s'.KeepsUp := by
  simp only [Shash.stage, Prod.mk.injEq] at hs
  obtain ⟨h0, h1, htab, hmark⟩ := hs
  refine ⟨h0 ▸ h.small, fun ht => ?_, fun ht => ?_⟩
  · rw [h0]
    exact (h.idle (htab ▸ ht)).imp_left hle.trans
  · rw [h0, h1, hmark]
    obtain ⟨hnum, hmax, hlt, hload⟩ := h.running (htab ▸ ht)
    exact ⟨hnum, hmax, hlt, hle.trans hload⟩

/-- A rehash is started with the old array just full, and there is room in it otherwise. -/
theorem Shash.KeepsUp.start (h : s.KeepsUp) (hit : s.iterator = none) :
    (shashStartRehash s).KeepsUp ∧ (shashStartRehash s).iterator = none ∧
      (shashStartRehash s).numNode = s.numNode ∧
      ((shashStartRehash s).buckets1 = none → shashStartRehash s = s ∧
        (s.numNode < 2^s.numBuckets0 ∨ s.numBuckets0 = shashMaxNumBuckets)) := by
  have hsmall := h.small
  rw [shashStartRehash]
  split
  · next hstart =>
    obtain ⟨h1, -, hfull, hmax⟩ := hstart
    rw [Nat.one_shiftLeft] at hfull
    refine ⟨⟨hsmall, fun h => (by cases h), fun _ => ⟨rfl, hmax, Nat.two_pow_pos _, ?_⟩⟩, hit, rfl,
      fun h => (by cases h)⟩
    show s.numNode ≤ 2^s.numBuckets0 + 0
    rcases h.idle h1 with hle | hcap <;> omega
  · next hstart =>
    refine ⟨h, hit, rfl, fun h1 => ⟨rfl, ?_⟩⟩
    by_contra hfull
    refine hstart ⟨h1, hit, ?_, ?_⟩
    · rw [Nat.one_shiftLeft]
      omega
    · omega

def nextStage : Nat × Nat × Option Nat × Nat → Nat × Nat × Option Nat × Nat
  | (n0, n1, table, mark) =>
    if mark + 1 = 2^n0 then (n1, n1, none, mark + 1) else (n0, n1, table, mark + 1)

theorem nextStage_eq (s : Shash V) : nextStage s.stage =
    if s.rehashBucket + 1 = 2^s.numBuckets0 then
      (s.numBuckets1, s.numBuckets1, none, s.rehashBucket + 1)
    else (s.numBuckets0, s.numBuckets1, s.buckets1, s.rehashBucket + 1) := rfl

theorem shashFinishBucket_stage {table : Nat} (ht : s.buckets1 = some table) :
    (shashFinishBucket s table).stage = nextStage s.stage := by
  simp only [nextStage_eq, shashFinishBucket, Nat.one_shiftLeft]
  by_cases hlast : s.rehashBucket + 1 = 2^s.numBuckets0
  · simp only [if_pos hlast, Shash.stage]
  · simp only [if_neg hlast, Shash.stage, ht]

theorem shashFinishBucket_frame (table : Nat) :
    (shashFinishBucket s table).numNode = s.numNode ∧
      (shashFinishBucket s table).iterator = s.iterator := by
  simp only [shashFinishBucket]
  split <;> exact ⟨rfl, rfl⟩

theorem Shash.KeepsUp.next (h : s.KeepsUp) (ht : s.buckets1 ≠ none)
    (hs : s'.stage = nextStage s.stage) (hle : s'.numNode ≤ s.numNode + 1) : s'.KeepsUp := by
  obtain ⟨hnum, hmax, hlt, hload⟩ := h.running ht
  have hpow : 2^(s.numBuckets0 + 1) = 2^s.numBuckets0 + 2^s.numBuckets0 := by
    rw [Nat.pow_succ]
    omega
  rw [nextStage_eq, Shash.stage] at hs
  by_cases hlast : s.rehashBucket + 1 = 2^s.numBuckets0
  · rw [if_pos hlast, Prod.mk.injEq, Prod.mk.injEq, Prod.mk.injEq] at hs
    obtain ⟨h0, h1, htab, hmark⟩ := hs
    refine ⟨h0 ▸ hmax, fun _ => Or.inl ?_, fun hr => absurd htab hr⟩
    rw [h0, hnum, hpow]
    omega
  · rw [if_neg hlast, Prod.mk.injEq, Prod.mk.injEq, Prod.mk.injEq] at hs
    obtain ⟨h0, h1, htab, hmark⟩ := hs
    refine ⟨h0 ▸ h.small, fun hr => absurd (htab ▸ hr) ht, fun _ => ?_⟩
    rw [h0, h1, hmark]
    exact ⟨hnum, hmax, by omega, by omega⟩

theorem Shash.KeepsUp.checkRehash (h : s.KeepsUp) (hit : s.iterator = none)
    (hrun : shashCheckRehash s = some s') : s'.iterator = none ∧ s'.numNode = s.numNode ∧
      (s.buckets1 ≠ none → s'.stage = nextStage s.stage) ∧
      ∀ s'' : Shash V, s''.stage = s'.stage → s''.numNode ≤ s'.numNode + 1 → s''.KeepsUp := by
  obtain ⟨hstart, hit1, hnode, hroom⟩ := h.start hit
  refine ⟨(shashCheckRehash_iterator hrun).trans hit, ?_⟩
  cases ht : (shashStartRehash s).buckets1 with
  | none =>
    obtain ⟨heq, hroom⟩ := hroom ht
    simp only [shashCheckRehash, ht, Option.some.injEq] at hrun
    rw [heq] at ht hrun
    subst hrun
    refine ⟨rfl, fun h1 => absurd ht h1, fun s'' hs hle => ?_⟩
    simp only [Shash.stage, Prod.mk.injEq] at hs
    obtain ⟨h0, h1, htab, -⟩ := hs
    refine ⟨h0 ▸ h.small, fun _ => ?_, fun hr => absurd (htab.trans ht) hr⟩
    rw [h0]
    exact hroom.imp_left fun hlt => hle.trans hlt
  | some table =>
    obtain ⟨next, prev, rfl⟩ := shashCheckRehash_moved hrun ht hit1
    have hne : (shashStartRehash s).buckets1 ≠ none := by simp [ht]
    have hstage := shashFinishBucket_stage (s := { shashStartRehash s with next, prev }) ht
    refine ⟨(shashFinishBucket_frame table).1.trans hnode, fun h1 => ?_, fun s'' hs hle => ?_⟩
    · have heq : shashStartRehash s = s := by
        rw [shashStartRehash, if_neg fun hc => h1 hc.1]
      rw [hstage]
      show nextStage (shashStartRehash s).stage = _
      rw [heq]
    · rw [(shashFinishBucket_frame table).1] at hle
      exact hstart.next hne (hs.trans hstage) hle

theorem shashCheckRehash_idle (h1 : s.buckets1 = none)
    (hn : s.numNode < 2^s.numBuckets0) : shashCheckRehash s = some s := by
  have hstart : shashStartRehash s = s := by
    rw [shashStartRehash, if_neg]
    rintro ⟨-, -, hle, -⟩
    rw [Nat.one_shiftLeft] at hle
    omega
  simp only [shashCheckRehash, hstart, h1]

theorem shashCheckRehash_open (hit : s.iterator ≠ none) : shashCheckRehash s = some s := by
  have hstart : shashStartRehash s = s := if_neg fun hc => hit hc.2.1
  simp only [shashCheckRehash, hstart]
  split
  · next hnone => exact absurd hnone hit
  · rfl

def ShashOp.Call : ShashOp V → Prop
  | .insert _ _ => True
  | .erase _ => True
  | .find _ => True
  | _ => False

variable [Inhabited V]

theorem shashStep_call {op : ShashOp V} {r : ShashRet V} (hop : op.Call)
    (hstep : shashStep s op = some (s', r)) : ∃ s1, shashCheckRehash s = some s1 ∧
      s'.stage = s1.stage ∧ s'.numNode ≤ s1.numNode + 1 ∧
      (s1.iterator = none → s'.iterator = none) := by
  cases op with
  | insert key value =>
    obtain ⟨x, hins, heq⟩ := Option.map_eq_some_iff.mp hstep
    obtain ⟨s1, hrun, hins⟩ := Option.bind_eq_some_iff.mp hins
    obtain ⟨place, hplace, hins⟩ := Option.bind_eq_some_iff.mp hins
    refine ⟨s1, hrun, ?_⟩
    cases place <;> cases hins <;> cases heq <;>
      exact ⟨rfl, by simp [Shash.link, shashNewNode], id⟩
  | erase key =>
    obtain ⟨x, hera, heq⟩ := Option.map_eq_some_iff.mp hstep
    obtain ⟨s1, hrun, hera⟩ := Option.bind_eq_some_iff.mp hera
    obtain ⟨node, hnode, hera⟩ := Option.bind_eq_some_iff.mp hera
    refine ⟨s1, hrun, ?_⟩
    cases node with
    | none =>
      cases hera
      cases heq
      exact ⟨rfl, Nat.le_succ _, id⟩
    | some node =>
      obtain ⟨p, -, hera⟩ := Option.bind_eq_some_iff.mp hera
      cases hera
      cases heq
      obtain ⟨j, b, it, hframe⟩ := shashAdvance_frame (s := s1) node
      split
      · next hiter =>
        refine ⟨?_, ?_, fun h => ?_⟩
        · simp [shashIterate, hiter, hframe, Shash.unlink, Shash.stage]
        · simp only [shashIterate, hiter, hframe, Shash.unlink]
          omega
        · rw [h] at hiter
          cases hiter
      · exact ⟨rfl, by simp only [Shash.unlink]; omega, id⟩
  | find key =>
    obtain ⟨x, hfind, heq⟩ := Option.map_eq_some_iff.mp hstep
    obtain ⟨s1, hrun, hfind⟩ := Option.bind_eq_some_iff.mp hfind
    obtain ⟨node, -, hfind⟩ := Option.bind_eq_some_iff.mp hfind
    cases hfind
    cases heq
    exact ⟨s1, hrun, rfl, Nat.le_succ _, id⟩
  | _ => exact hop.elim

theorem Shash.KeepsUp.call {op : ShashOp V} {r : ShashRet V} (h : s.KeepsUp) (hop : op.Call)
    (hit : s.iterator = none) (hstep : shashStep s op = some (s', r)) :
    s'.KeepsUp ∧ s'.iterator = none ∧ s'.numNode ≤ s.numNode + 1 ∧
      (s.buckets1 ≠ none → s'.stage = nextStage s.stage) := by
  obtain ⟨s1, hrun, hstage, hle, hiter⟩ := shashStep_call hop hstep
  obtain ⟨hit1, hnode, hnext, hkeeps⟩ := h.checkRehash hit hrun
  exact ⟨hkeeps s' hstage hle, hiter hit1, hnode ▸ hle, fun ht => hstage.trans (hnext ht)⟩

theorem shashStep_stage {op : ShashOp V} {r : ShashRet V} (hop : ¬ op.Call)
    (hstep : shashStep s op = some (s', r)) : s'.stage = s.stage ∧ s'.numNode = s.numNode := by
  cases op with
  | size =>
    cases hstep
    exact ⟨rfl, rfl⟩
  | beginIterate =>
    cases hstep
    obtain ⟨j, b, it, hframe⟩ := shashBegin_frame (s := s) 2 0
    rw [shashBeginIterate, hframe]
    exact ⟨rfl, rfl⟩
  | iterate =>
    cases hstep
    cases hit : s.iterator with
    | none => simp [shashIterate, hit]
    | some p =>
      obtain ⟨j, b, it, hframe⟩ := shashAdvance_frame (s := s) p
      simp [shashIterate, hit, hframe, Shash.stage]
  | endIterate =>
    cases hstep
    exact ⟨rfl, rfl⟩
  | _ => exact absurd trivial hop

/-- The table is worked on only while no iterator is open. -/
def ShashOp.Closed (s : Shash V) (op : ShashOp V) : Prop := op.Call → s.iterator = none

theorem closed_of_calls {ops : List (ShashOp V)} (hops : ∀ op ∈ ops, op.Call)
    (hit : s.iterator = none) : Along shashStep ShashOp.Closed s ops := by
  induction ops generalizing s with
  | nil => trivial
  | cons op ops ih =>
    refine ⟨fun _ => hit, fun s1 r hstep => ih (fun op' h' => hops op' (by simp [h'])) ?_⟩
    obtain ⟨s2, hrun, -, -, hiter⟩ := shashStep_call (hops op (by simp)) hstep
    exact hiter ((shashCheckRehash_iterator hrun).trans hit)

theorem shashNew_keepsUp : (shashNew : Shash V).KeepsUp :=
  ⟨show 9 ≤ 63 by decide, fun _ => Or.inl (Nat.zero_le _), fun h => absurd rfl h⟩

theorem Shash.KeepsUp.along {ops : List (ShashOp V)} {rets : List (ShashRet V)} (h : s.KeepsUp)
    (hops : Along shashStep ShashOp.Closed s ops)
    (hrun : run shashStep s ops = some (s', rets)) : s'.KeepsUp := by
  induction ops generalizing s rets with
  | nil =>
    obtain ⟨rfl, -⟩ := Prod.mk.inj (Option.some.inj hrun)
    exact h
  | cons op ops ih =>
    obtain ⟨s1, r, rs1, hstep, hy, rfl⟩ := run_cons_some hrun
    refine ih ?_ (hops.2 s1 r hstep) hy
    by_cases hop : op.Call
    · exact (h.call hop (hops.1 hop) hstep).1
    · obtain ⟨hstage, hnode⟩ := shashStep_stage hop hstep
      exact h.of_stage hstage hnode.le

/-- A running rehash ends with the call that moves the last bucket, and what the table holds
then fits the new array. -/
theorem Shash.KeepsUp.finish {more : List (ShashOp V)} {rets : List (ShashRet V)}
    (h : s.KeepsUp) (hit : s.iterator = none) (ht : s.buckets1 ≠ none)
    (hmore : ∀ op ∈ more, op.Call) (hlen : more.length = 2^s.numBuckets0 - s.rehashBucket)
    (hrun : run shashStep s more = some (s', rets)) :
    s'.buckets1 = none ∧ s'.numBuckets0 = s.numBuckets0 + 1 ∧ s'.numNode ≤ 2^s'.numBuckets0 := by
  obtain ⟨hnum, -, hlt, hload⟩ := h.running ht
  induction more generalizing s rets with
  | nil =>
    rw [List.length_nil] at hlen
    omega
  | cons op more ih =>
    rw [List.length_cons] at hlen
    obtain ⟨s1, r, rs1, hstep, hy, rfl⟩ := run_cons_some hrun
    obtain ⟨h1, hit1, hle, hstage⟩ := h.call (hmore op (by simp)) hit hstep
    have hs := hstage ht
    rw [nextStage_eq, Shash.stage] at hs
    by_cases hlast : s.rehashBucket + 1 = 2^s.numBuckets0
    · rw [if_pos hlast, Prod.mk.injEq, Prod.mk.injEq, Prod.mk.injEq] at hs
      obtain ⟨h0, -, htab, -⟩ := hs
      obtain rfl : more = [] := List.length_eq_zero_iff.mp (by omega)
      obtain ⟨hfin, -⟩ := Prod.mk.inj (Option.some.inj hy)
      rw [← hfin, h0, hnum, Nat.pow_succ]
      exact ⟨htab, rfl, by omega⟩
    · rw [if_neg hlast, Prod.mk.injEq, Prod.mk.injEq, Prod.mk.injEq] at hs
      obtain ⟨h0, -, htab, hmark⟩ := hs
      have ht1 : s1.buckets1 ≠ none := htab ▸ ht
      obtain ⟨hnum1, -, hlt1, hload1⟩ := h1.running ht1
      rw [← h0]
      exact ih h1 hit1 ht1 (fun op' h' => hmore op' (by simp [h'])) (by rw [h0, hmark]; omega) hy
        hnum1 hlt1 hload1

/-- New keys inserted up to the threshold do not start a rehash. -/
theorem Shash.Rep.fill {chain : ShashPtr → List ShashPtr} {m : KeyMap V}
    (kvs : List (Key × V)) (h : s.Rep chain m) (h1 : s.buckets1 = none)
    (hk : ∀ kv ∈ kvs, kv.1.length < 2^31) (hnew : ∀ kv ∈ kvs, kv.1 ∉ m)
    (hnd : (kvs.map Prod.fst).Nodup) (hn : s.numNode + kvs.length ≤ 2^s.numBuckets0) :
    ∃ next prev key value freshNode rets chain' m',
      run shashStep s (kvs.map fun kv => .insert kv.1 kv.2) = some ({ s with
        numNode := s.numNode + kvs.length, next, prev, key, value, freshNode }, rets) ∧
      ({ s with numNode := s.numNode + kvs.length, next, prev, key, value, freshNode } :
        Shash V).Rep chain' m' ∧
      (specRun mapStep m (kvs.map fun kv => .insert kv.1 kv.2)).1 = m' ∧
      ∀ k, k ∈ m' ↔ k ∈ m ∨ k ∈ kvs.map Prod.fst := by
  induction kvs generalizing s chain m with
  | nil => exact ⟨s.next, s.prev, s.key, s.value, s.freshNode, [], chain, m, rfl, h, rfl, by simp⟩
  | cons kv kvs ih =>
    obtain ⟨k, v⟩ := kv
    rw [List.length_cons] at hn
    have habs : k ∉ m := hnew (k, v) (by simp)
    have hshort : k.length < 2^31 := hk (k, v) (by simp)
    obtain ⟨s1, chain1, hcheck, hrep, -, hins⟩ := h.insert hshort v
    rw [shashCheckRehash_idle h1 (by omega)] at hcheck
    obtain rfl := Option.some.inj hcheck
    obtain ⟨hkn, hnd⟩ := List.nodup_cons.mp hnd
    have hnew1 : ∀ kv ∈ kvs, kv.1 ∉ m.insert k v := by
      intro kv hkv
      rw [Finmap.mem_insert, not_or]
      refine ⟨?_, hnew kv (by simp [hkv])⟩
      rintro rfl
      exact hkn (List.mem_map.mpr ⟨kv, hkv, rfl⟩)
    obtain ⟨next, prev, key, value, freshNode, rets, chain', m', hrun, h', hm, hmem⟩ :=
      ih (hrep.add hshort habs v) h1 (fun kv hkv => hk kv (by simp [hkv])) hnew1 hnd
        (show s.numNode + 1 + kvs.length ≤ 2^s.numBuckets0 by omega)
    have hstep : shashStep s (.insert k v) = some (s.added k v (s.place chain1 k), .code 0) := by
      simp [shashStep, hins, habs]
    have hnum : (s.added k v (s.place chain1 k)).numNode + kvs.length =
        s.numNode + (kvs.length + 1) := by
      show s.numNode + 1 + kvs.length = _
      omega
    rw [hnum] at hrun h'
    refine ⟨next, prev, key, value, freshNode, .code 0 :: rets, chain', m', ?_, h', ?_, ?_⟩
    · rw [List.map_cons, run_cons hstep, hrun]
      rfl
    · rw [← hm]
      simp only [List.map_cons, specRun, mapStep, habs, if_false]
    · intro k'
      rw [hmem, Finmap.mem_insert]
      simp only [List.map_cons, List.mem_cons]
      tauto

def skipKey (i : Nat) : Key := ⟨[UInt8.ofNat (i / 33), UInt8.ofNat (i % 33)]⟩

def skipEntries : List (Key × Nat) := (List.range 512).map fun i => (skipKey (i+1), i)

/-- As many entries as there are buckets, one in each, and a lookup that starts a rehash and
moves bucket 0: the only key of `buckets[1]` is then in its bucket 512. -/
def skipCalls : List (ShashOp Nat) :=
  skipEntries.map (fun kv => .insert kv.1 kv.2) ++ [.find (skipKey 512)]

theorem skipKey_hash {i : Nat} (hi : i ≤ 512) : shashHashKey (skipKey i) = i := by
  have h1 : (UInt8.ofNat (i / 33)).toNat = i / 33 := by
    rw [UInt8.toNat_ofNat']
    omega
  have h2 : (UInt8.ofNat (i % 33)).toNat = i % 33 := by
    rw [UInt8.toNat_ofNat']
    omega
  simp only [shashHashKey, skipKey, List.foldl, h1, h2]
  omega

theorem mem_skipEntries {k : Key} :
    k ∈ skipEntries.map Prod.fst ↔ ∃ i, 1 ≤ i ∧ i ≤ 512 ∧ k = skipKey i := by
  simp only [skipEntries, List.map_map, List.mem_map, List.mem_range, Function.comp]
  constructor
  · rintro ⟨i, hi, rfl⟩
    exact ⟨i+1, by omega, by omega, rfl⟩
  · rintro ⟨i, h1, h2, rfl⟩
    exact ⟨i-1, by omega, by rw [Nat.sub_add_cancel h1]⟩

theorem skipEntries_nodup : (skipEntries.map Prod.fst).Nodup := by
  rw [skipEntries, List.map_map]
  refine List.Nodup.map_on ?_ List.nodup_range
  intro i hi j hj he
  have h1 := skipKey_hash (i := i+1) (by have := List.mem_range.mp hi; omega)
  have h2 := skipKey_hash (i := j+1) (by have := List.mem_range.mp hj; omega)
  rw [show skipKey (i+1) = skipKey (j+1) from he, h2] at h1
  omega

/-- After these calls every key but one is in `buckets[0]`. -/
theorem skipCalls_state : ∃ s rets chain m, run shashStep shashNew skipCalls = some (s, rets) ∧
    (specRun mapStep (∅ : KeyMap Nat) skipCalls).1 = m ∧ s.Rep chain m ∧
    (∀ k, k ∈ m ↔ ∃ i, 1 ≤ i ∧ i ≤ 512 ∧ k = skipKey i) ∧ s.numNode = 512 ∧
    s.buckets0 = 0 ∧ s.stage = (9, 10, some 1, 1) ∧ s.iterator = none ∧
    ∀ i, 1 ≤ i → i ≤ 512 →
      s.bucketFor (skipKey i) = if i = 512 then .bucket 1 512 else .bucket 0 i := by
  obtain ⟨next, prev, key, value, freshNode, rets, chain, m, hrun, h, hm, hmem⟩ :=
    (shashNew_rep (V := Nat)).fill skipEntries rfl
      (by
        intro kv hkv
        obtain ⟨i, -, -, he⟩ := mem_skipEntries.mp (List.mem_map.mpr ⟨kv, hkv, rfl⟩)
        rw [he]
        simp [skipKey, Key.length])
      (fun _ _ => Finmap.notMem_empty) skipEntries_nodup
      (by simp [skipEntries, shashNew, shashInitNumBuckets])
  have hlen : (shashNew : Shash Nat).numNode + skipEntries.length = 512 := by
    simp [skipEntries, shashNew]
  rw [hlen] at hrun h
  generalize hs : ({ (shashNew : Shash Nat) with
    numNode := 512, next, prev, key, value, freshNode } : Shash Nat) = s at hrun h
  obtain ⟨s1, chain1, hcheck, h1, -, hfind⟩ := h.find
    (show (skipKey 512).length < 2^31 by simp [skipKey, Key.length])
  have hstart : shashStartRehash s = { s with
      numBuckets1 := 10
      buckets1 := some 1
      rehashBucket := 0
      next := (shashStartRehash s).next
      freshTable := 2 } := by
    subst hs
    rfl
  obtain ⟨next1, prev1, hs1⟩ := shashCheckRehash_moved hcheck (by rw [hstart])
    (by rw [hstart, ← hs]; rfl)
  have hfields : s1.numNode = 512 ∧ s1.buckets0 = 0 ∧ s1.stage = (9, 10, some 1, 1) ∧
      s1.iterator = none := by
    rw [hs1, hstart, ← hs]
    exact ⟨rfl, rfl, rfl, rfl⟩
  obtain ⟨hnum, hb0, hstage, hit⟩ := hfields
  have hfind' : run shashStep s [.find (skipKey 512)] =
      some (s1, [(m.lookup (skipKey 512)).elim (.code (-1)) .found]) := by
    simp [run, shashStep, hfind]
  refine ⟨s1, _, chain1, m, by rw [skipCalls, run_append hrun, hfind']; rfl, ?_, h1, ?_, hnum,
    hb0, hstage, hit, ?_⟩
  · rw [skipCalls, specRun_append, hm]
    rfl
  · intro k
    rw [hmem, mem_skipEntries]
    simp [Finmap.notMem_empty]
  · simp only [Shash.stage, Prod.mk.injEq] at hstage
    obtain ⟨hn0, hn1, hb1, hrb⟩ := hstage
    intro i h1 h2
    simp only [Shash.bucketFor, hb1, hn0, hn1, hb0, hrb, skipKey_hash h2, bucketIndex_eq]
    by_cases hi : i = 512
    · simp [hi]
    · have hlt : i % 2^9 = i := Nat.mod_eq_of_lt (by omega)
      rw [hlt, if_neg (by omega), if_neg hi]

/-- Worked on only while no iterator is open, a table is never loaded beyond the buckets it has
and those the rehash has moved, and every rehash ends before the new array is overfull. -/
theorem shash_rehash_keeps_up {ops : List (ShashOp V)}
    (hops : Along shashStep ShashOp.Closed (shashNew : Shash V) ops) :
    ((∀ op ∈ ops, op.Short) → ∃ s rets, run shashStep shashNew ops = some (s, rets)) ∧
    ∀ s rets, run shashStep shashNew ops = some (s, rets) → s.numNode < 2^63 →
      (s.buckets1 = none → s.numNode ≤ 2^s.numBuckets0) ∧
      (s.buckets1 ≠ none → s.numBuckets1 = s.numBuckets0 + 1 ∧
        s.rehashBucket < 2^s.numBuckets0 ∧ s.numNode ≤ 2^s.numBuckets0 + s.rehashBucket ∧
        ∀ more s' rets', s.iterator = none → (∀ op ∈ more, op.Call) →
          more.length = 2^s.numBuckets0 - s.rehashBucket →
          run shashStep s more = some (s', rets') →
          s'.buckets1 = none ∧ s'.numBuckets0 = s.numBuckets0 + 1 ∧
            s'.numNode ≤ 2^s'.numBuckets0) ∧
      s.numNode ≤ 2*2^s.numBuckets0 := by
  refine ⟨fun hshort => ?_, fun s rets hrun hfew => ?_⟩
  · obtain ⟨s, rets, hrun, -⟩ := Shash.Refines.runs ⟨_, shashNew_rep⟩ hshort
    exact ⟨s, rets, hrun⟩
  · have hk := shashNew_keepsUp.along hops hrun
    have hidle (h1 : s.buckets1 = none) : s.numNode ≤ 2^s.numBuckets0 := by
      rcases hk.idle h1 with hle | hcap
      · exact hle
      · rw [hcap]
        exact hfew.le
    refine ⟨hidle, fun ht => ?_, ?_⟩
    · obtain ⟨hnum, -, hlt, hload⟩ := hk.running ht
      exact ⟨hnum, hlt, hload, fun more s' rets' hit hmore hlen => hk.finish hit ht hmore hlen⟩
    · by_cases ht : s.buckets1 = none
      · have hle := hidle ht
        omega
      · obtain ⟨-, -, hlt, hload⟩ := hk.running ht
        omega

/-- As many insertions as there are buckets left to move. -/
def skipMore : List (ShashOp Nat) := (List.range 511).map fun i => .insert (skipKey (600+i)) i

theorem skipCalls_call : ∀ op ∈ skipCalls ++ skipMore, op.Call ∧ op.Short := by
  intro op hop
  simp only [skipCalls, skipEntries, skipMore, List.map_map, List.mem_append, List.mem_map,
    List.mem_singleton] at hop
  rcases hop with (⟨i, -, rfl⟩ | rfl) | ⟨i, -, rfl⟩ <;>
    simp [ShashOp.Call, ShashOp.Short, skipKey, Key.length]

/-- Stated of a variable, so that nothing evaluates the calls. -/
theorem skipCalls_closed {calls : List (ShashOp Nat)} (h : skipCalls = calls) :
    Along shashStep ShashOp.Closed (shashNew : Shash Nat) calls := by
  refine closed_of_calls (fun op hop => ?_) rfl
  rw [← h] at hop
  exact (skipCalls_call op (List.mem_append_left _ hop)).1

theorem shash_rehash_keeps_up_sample : ∃ s rets, run shashStep shashNew skipCalls = some (s, rets) ∧
    s.buckets1 ≠ none ∧ s.numBuckets1 = s.numBuckets0 + 1 ∧ s.rehashBucket < 2^s.numBuckets0 ∧
    s.numNode ≤ 2^s.numBuckets0 + s.rehashBucket ∧ s.numNode ≤ 2*2^s.numBuckets0 ∧
    (∀ more s' rets', (∀ op ∈ more, op.Call) →
      more.length = 2^s.numBuckets0 - s.rehashBucket → run shashStep s more = some (s', rets') →
      s'.buckets1 = none ∧ s'.numBuckets0 = s.numBuckets0 + 1 ∧ s'.numNode ≤ 2^s'.numBuckets0) ∧
    ∃ s' rets', run shashStep s skipMore = some (s', rets') ∧ s'.buckets1 = none ∧
      s'.numBuckets0 = 10 ∧ s'.numNode ≤ 2^s'.numBuckets0 := by
  obtain ⟨s, rets, chain, m, hrun, -, h, -, hnum, -, hstage, hit, -⟩ := skipCalls_state
  simp only [Shash.stage, Prod.mk.injEq] at hstage
  obtain ⟨hn0, -, htab, hmark⟩ := hstage
  have hmore : ∀ op ∈ skipMore, op.Call ∧ op.Short :=
    fun op hop => skipCalls_call op (List.mem_append_right _ hop)
  generalize hcalls : skipCalls = calls at hrun ⊢
  obtain ⟨-, hkeeps⟩ := shash_rehash_keeps_up (skipCalls_closed hcalls)
  obtain ⟨-, hrunning, hload⟩ := hkeeps s rets hrun (by omega)
  obtain ⟨hnum1, hlt, hle, hfinish⟩ := hrunning (by simp [htab])
  obtain ⟨s', rets', hrun', -⟩ := Shash.Refines.runs ⟨chain, h⟩ fun op hop => (hmore op hop).2
  obtain ⟨htab', hn0', hle'⟩ := hfinish skipMore s' rets' hit (fun op hop => (hmore op hop).1)
    (by simp [skipMore, hn0, hmark]) hrun'
  refine ⟨s, rets, hrun, by simp [htab], hnum1, hlt, hle, hload,
    fun more s' rets' => hfinish more s' rets' hit, s', rets', hrun', htab', ?_, hle'⟩
  rw [hn0', hn0]

end SimpleKit
