import SimpleKit.Rpc.Client

set_option autoImplicit false

namespace SimpleKit

variable {s : RpcClient} {u : RpcRef}

def RpcClient.load (s : RpcClient) (u : RpcRef) : Option Nat := do
  let up ← s.upstream u
  if up.stream.isSome then some (up.reqStatus.entries.length % 2^64) else none

def chosenIdx (s : RpcClient) (i : Nat) : Nat :=
  (s.rrStream + UInt32.ofNat i).toNat % s.upstreams.length

/-- All addresses in the array are those of upstreams. -/
def RpcClient.ArrayOk (s : RpcClient) : Prop := ∀ u ∈ s.upstreams, (s.upstream u).isSome

theorem RpcClient.ArrayOk.get (h : s.ArrayOk) {i : Nat} (hi : i < s.upstreams.length) :
    ∃ u up, s.upstreams[i]? = some u ∧ u ∈ s.upstreams ∧ s.upstream u = some up := by
  have hmem : s.upstreams[i] ∈ s.upstreams := List.getElem_mem hi
  obtain ⟨up, hup⟩ := Option.isSome_iff_exists.mp (h _ hmem)
  exact ⟨_, up, List.getElem?_eq_getElem hi, hmem, hup⟩

theorem RpcClient.load_eq {up : RpcUpstream} (hu : s.upstream u = some up) :
    s.load u = if up.stream.isSome then some (up.reqStatus.entries.length % 2^64) else none := by
  simp only [load, hu, Option.bind_eq_bind, Option.bind_some]

theorem RpcClient.load_lt {n : Nat} (h : s.load u = some n) : n ≤ 2^64 - 1 := by
  obtain ⟨up, hu, hn⟩ := Option.bind_eq_some_iff.mp h
  split at hn
  · cases hn
    exact Nat.le_sub_one_of_lt (Nat.mod_lt _ (by decide))
  · cases hn

theorem sioRpcChooseRound_eq (h : s.ArrayOk) (hpos : 0 < s.upstreams.length)
    (acc : Nat × Option RpcRef) (i : Nat) :
    ∃ u, s.upstreams[chosenIdx s i]? = some u ∧ u ∈ s.upstreams ∧
      sioRpcChooseRound s acc i = some (match s.load u with
        | some n => if n ≤ acc.1 then (n, some u) else acc
        | none => acc) := by
  obtain ⟨u, up, hi, hmem, hu⟩ := h.get (Nat.mod_lt (s.rrStream + UInt32.ofNat i).toNat hpos)
  refine ⟨u, hi, hmem, ?_⟩
  rw [RpcClient.load_eq hu]
  simp only [sioRpcChooseRound, hi, hu, Option.bind_eq_bind, Option.bind_some]
  cases up.stream <;> simp

/-- Rounds find an upstream of the least load among those they look at, unless none of these has
a stream. -/
theorem sioRpcChooseRound_fold (h : s.ArrayOk) (hpos : 0 < s.upstreams.length) (is : List Nat)
    (acc : Nat × Option RpcRef) :
    ∃ acc', is.foldlM (sioRpcChooseRound s) acc = some acc' ∧ acc'.1 ≤ acc.1 ∧
      (∀ i ∈ is, ∀ v n, s.upstreams[chosenIdx s i]? = some v → s.load v = some n → acc'.1 ≤ n) ∧
      (acc' = acc ∧ (∀ i ∈ is, ∀ v n, s.upstreams[chosenIdx s i]? = some v → s.load v = some n →
          acc.1 < n) ∨
        ∃ i ∈ is, ∃ u, s.upstreams[chosenIdx s i]? = some u ∧ u ∈ s.upstreams ∧
          s.load u = some acc'.1 ∧ acc'.2 = some u) := by
  induction is generalizing acc with
  | nil => exact ⟨acc, rfl, Nat.le_refl _, nofun, Or.inl ⟨rfl, nofun⟩⟩
  | cons i is ih =>
    obtain ⟨u, hi, hmem, hround⟩ := sioRpcChooseRound_eq h hpos acc i
    rw [List.foldlM_cons, hround, Option.bind_eq_bind, Option.bind_some]
    have hlater : ∀ {acc' : Nat × Option RpcRef},
      (∃ j ∈ is, ∃ v, s.upstreams[chosenIdx s j]? = some v ∧
        v ∈ s.upstreams ∧ s.load v = some acc'.1 ∧ acc'.2 = some v) →
        ∃ j ∈ i :: is, ∃ v, s.upstreams[chosenIdx s j]? = some v ∧
          v ∈ s.upstreams ∧ s.load v = some acc'.1 ∧ acc'.2 = some v :=
      fun ⟨j, hj, hv⟩ => ⟨j, List.mem_cons_of_mem i hj, hv⟩
    have hat : ∀ {v n}, s.upstreams[chosenIdx s i]? = some v → s.load v = some n →
        s.load u = some n := by
      intro v n hv hn
      rw [hi, Option.some.injEq] at hv
      exact hv ▸ hn
    -- a round that takes nothing
    have hskip : (∀ n, s.load u = some n → acc.1 < n) →
        ∃ acc', is.foldlM (sioRpcChooseRound s) acc = some acc' ∧ acc'.1 ≤ acc.1 ∧
          (∀ j ∈ i :: is, ∀ v n, s.upstreams[chosenIdx s j]? = some v → s.load v = some n →
            acc'.1 ≤ n) ∧
          (acc' = acc ∧ (∀ j ∈ i :: is, ∀ v n, s.upstreams[chosenIdx s j]? = some v →
              s.load v = some n → acc.1 < n) ∨
            ∃ j ∈ i :: is, ∃ v, s.upstreams[chosenIdx s j]? = some v ∧ v ∈ s.upstreams ∧
              s.load v = some acc'.1 ∧ acc'.2 = some v) := by
      intro hgt
      obtain ⟨acc', hrun, hle, hall, hfound⟩ := ih acc
      refine ⟨acc', hrun, hle, fun j hj v n hv hn => ?_, ?_⟩
      · rcases List.mem_cons.mp hj with rfl | hj
        · exact Nat.le_trans hle (Nat.le_of_lt (hgt n (hat hv hn)))
        · exact hall j hj v n hv hn
      · refine hfound.imp (fun ⟨heq, hno⟩ => ⟨heq, fun j hj v n hv hn => ?_⟩) hlater
        rcases List.mem_cons.mp hj with rfl | hj
        · exact hgt n (hat hv hn)
        · exact hno j hj v n hv hn
    cases hload : s.load u with
    | none => exact hskip fun n hn => by rw [hload] at hn; cases hn
    | some m =>
      dsimp only
      split
      · next htake =>
        obtain ⟨acc', hrun, hle, hall, hfound⟩ := ih (m, some u)
        refine ⟨acc', hrun, Nat.le_trans hle htake, fun j hj v n hv hn => ?_, Or.inr ?_⟩
        · rcases List.mem_cons.mp hj with rfl | hj
          · have hm := hat hv hn
            rw [hload, Option.some.injEq] at hm
            exact hm ▸ hle
          · exact hall j hj v n hv hn
        · rcases hfound with ⟨rfl, -⟩ | hfound
          · exact ⟨i, List.mem_cons_self, u, hi, hmem, hload, rfl⟩
          · exact hlater hfound
      · next hleave =>
        refine hskip fun n hn => ?_
        rw [hload, Option.some.injEq] at hn
        exact hn ▸ Nat.lt_of_not_le hleave

def RpcClient.rotated (s : RpcClient) : RpcClient := { s with rrStream := s.rrStream + 1 }

theorem sioRpcChooseUpstream_cases (h : s.ArrayOk) (env : RpcEnv) :
    (∃ i < s.upstreams.length, ∃ u n, s.upstreams[chosenIdx s.rotated i]? = some u ∧
        u ∈ s.upstreams ∧ s.load u = some n ∧
        (∀ j < s.upstreams.length, ∀ v m, s.upstreams[chosenIdx s.rotated j]? = some v →
          s.load v = some m → n ≤ m) ∧
        sioRpcChooseUpstream s env = some (s.rotated, some u)) ∨
      (∀ j < s.upstreams.length, ∀ v, s.upstreams[chosenIdx s.rotated j]? = some v →
        s.load v = none) ∧
      (s.upstreams = [] ∧ sioRpcChooseUpstream s env = some (s.rotated, none) ∨
        ∃ u ∈ s.upstreams, s.upstreams[chosenIdx s.rotated 0]? = some u ∧
          sioRpcChooseUpstream s env = (sioRpcUpstreamConnect s.rotated u env).map fun x =>
            (x.1, if x.2 then some u else none)) := by
  have hlen : s.rotated.upstreams = s.upstreams := rfl
  rcases Nat.eq_zero_or_pos s.upstreams.length with h0 | hpos
  · have hnil := List.length_eq_zero_iff.mp h0
    refine Or.inr ⟨fun j hj => by omega, Or.inl ⟨hnil, ?_⟩⟩
    simp [sioRpcChooseUpstream, hnil, RpcClient.rotated]
  · have h1 : s.rotated.ArrayOk := h
    obtain ⟨acc, hrun, -, hall, hfound⟩ :=
      sioRpcChooseRound_fold h1 hpos (List.range s.rotated.upstreams.length) (2^64 - 1, none)
    have hnext : ∀ k : Nat × Option RpcRef → Option (RpcClient × Option RpcRef), (do
        let x ← (List.range s.rotated.upstreams.length).foldlM (sioRpcChooseRound s.rotated)
          (2^64 - 1, none)
        k x) = k acc := by
      intro k
      rw [hrun]
      rfl
    rcases hfound with ⟨rfl, hno⟩ | ⟨i, hi, u, hget, hmem, hload, hu⟩
    · refine Or.inr ⟨fun j hj v hv => ?_, Or.inr ?_⟩
      · refine Option.eq_none_iff_forall_not_mem.mpr fun n hn => ?_
        have hlt := hno j (List.mem_range.mpr hj) v n hv hn
        exact absurd (RpcClient.load_lt hn) (Nat.not_le.mpr hlt)
      · obtain ⟨u, up, hget, hmem, -⟩ := h1.get (Nat.mod_lt s.rotated.rrStream.toNat hpos)
        refine ⟨u, hmem, ?_, ?_⟩
        · rw [← hget, chosenIdx]
          simp [hlen]
        · refine (hnext _).trans ?_
          dsimp only
          have hget' : s.upstreams[(s.rrStream + 1).toNat % s.upstreams.length]? = some u := hget
          rw [if_neg (Nat.ne_of_gt hpos), hget']
          change (sioRpcUpstreamConnect s.rotated u env).bind _ = _
          cases sioRpcUpstreamConnect s.rotated u env <;> rfl
    · refine Or.inl ⟨i, List.mem_range.mp hi, u, acc.1, hget, hmem, hload,
        fun j hj => hall j (List.mem_range.mpr hj), (hnext _).trans ?_⟩
      dsimp only
      rw [hu]
      rfl

def RpcClient.Least (s : RpcClient) (u : RpcRef) : Prop :=
  u ∈ s.upstreams ∧ ∃ n, s.load u = some n ∧ ∀ v ∈ s.upstreams, ∀ m, s.load v = some m → n ≤ m

/-- What is chosen: the upstream of the least load, without an attempt to connect; or, if none has
a stream, the one that has been connected. -/
structure ChoosesWell (s : RpcClient) (env : RpcEnv) : Prop where
  least : (∃ v ∈ s.upstreams, (s.load v).isSome) →
    ∃ u, sioRpcChooseUpstream s env = some (s.rotated, some u) ∧ s.Least u
  empty : s.upstreams = [] → sioRpcChooseUpstream s env = some (s.rotated, none)
  connect : s.upstreams ≠ [] → (∀ v ∈ s.upstreams, s.load v = none) →
    ∃ u ∈ s.upstreams, sioRpcChooseUpstream s env = (sioRpcUpstreamConnect s.rotated u env).map
      fun x => (x.1, if x.2 then some u else none)

/-- The loop looks at all indices if the counter does not wrap in it, or if their number
divides 2^32. -/
theorem chosenIdx_surjective {k : Nat} (hk : k < s.upstreams.length)
    (h : s.rrStream.toNat + s.upstreams.length ≤ 2^32 ∨ s.upstreams.length ∣ 2^32) :
    ∃ i < s.upstreams.length, chosenIdx s i = k := by
  have hpos : 0 < s.upstreams.length := Nat.zero_lt_of_lt hk
  have hle : s.upstreams.length ≤ 2^32 :=
    h.elim (fun hsum => by omega) (Nat.le_of_dvd (by decide))
  have hi := Nat.mod_lt (k + (s.upstreams.length - s.rrStream.toNat % s.upstreams.length)) hpos
  refine ⟨_, hi, ?_⟩
  generalize hidx : (k + (s.upstreams.length - s.rrStream.toNat % s.upstreams.length)) %
    s.upstreams.length = i at hi
  have hsum : (s.rrStream.toNat + i) % s.upstreams.length = k := by
    have hr := Nat.mod_lt s.rrStream.toNat hpos
    have hdiv := Nat.mod_add_div s.rrStream.toNat s.upstreams.length
    have heq : s.rrStream.toNat +
      (k + (s.upstreams.length - s.rrStream.toNat % s.upstreams.length)) =
        k + s.upstreams.length * (s.rrStream.toNat / s.upstreams.length + 1) := by
      rw [Nat.mul_add, Nat.mul_one]
      omega
    rw [← hidx, Nat.add_mod_mod, heq, Nat.add_mul_mod_self_left, Nat.mod_eq_of_lt hk]
  have hnat : (s.rrStream + UInt32.ofNat i).toNat = (s.rrStream.toNat + i) % 2^32 := by
    rw [UInt32.toNat_add, UInt32.toNat_ofNat', Nat.add_mod_mod]
  rw [chosenIdx, hnat]
  rcases h with hfits | hdvd
  · have hlt : s.rrStream.toNat + i < 2^32 := by omega
    rw [Nat.mod_eq_of_lt hlt, hsum]
  · rw [Nat.mod_mod_of_dvd _ hdvd, hsum]

theorem sioRpcUpstreamConnect_fresh {s' : RpcClient} {env : RpcEnv}
    (h : sioRpcUpstreamConnect s u env = some (s', true)) : s'.fresh = s.fresh + 1 := by
  obtain ⟨up, -, h⟩ := Option.bind_eq_some_iff.mp h
  cases hio : sioStreamConnect env.connect with
  | none =>
    rw [hio] at h
    cases h
  | some io =>
    rw [hio] at h
    cases h
    rfl

/-- Of the upstreams that have a stream one with the least load is chosen exactly if the loop
looks at one: its counter may wrap, and then it looks at some indices twice. -/
theorem rpc_choose_least_loaded (h : s.ArrayOk) (env : RpcEnv) :
    (ChoosesWell s env ↔ ((∃ v ∈ s.upstreams, (s.load v).isSome) →
      ∃ i < s.upstreams.length, ∃ u, s.upstreams[chosenIdx s.rotated i]? = some u ∧ s.Least u)) ∧
    ((s.rrStream + 1).toNat + s.upstreams.length ≤ 2^32 ∨ s.upstreams.length ∣ 2^32 →
      ChoosesWell s env) := by
  have hiff : ChoosesWell s env ↔ ((∃ v ∈ s.upstreams, (s.load v).isSome) →
      ∃ i < s.upstreams.length, ∃ u, s.upstreams[chosenIdx s.rotated i]? = some u ∧
        s.Least u) := by
    constructor
    · intro hwell hlive
      obtain ⟨u, hrun, hleast⟩ := hwell.least hlive
      rcases sioRpcChooseUpstream_cases h env with
        ⟨i, hi, v, n, hget, -, -, -, hrun'⟩ | ⟨-, ⟨-, hrun'⟩ | ⟨v, -, -, hrun'⟩⟩
      · rw [hrun] at hrun'
        cases hrun'
        exact ⟨i, hi, u, hget, hleast⟩
      · rw [hrun] at hrun'
        cases hrun'
      · rw [hrun] at hrun'
        obtain ⟨⟨s', ok⟩, hcon, hend⟩ := Option.map_eq_some_iff.mp hrun'.symm
        cases ok with
        | false => cases (Prod.mk.inj hend).2
        | true =>
          have hfresh := sioRpcUpstreamConnect_fresh hcon
          have hsame : s' = s.rotated := (Prod.mk.inj hend).1
          rw [hsame] at hfresh
          exact absurd hfresh (Nat.ne_of_lt (Nat.lt_succ_self _))
    · intro hvisit
      refine ⟨fun hlive => ?_, fun hnil => ?_, fun hne hnone => ?_⟩
      · obtain ⟨i, hi, u, hget, hmem, n, hn, hmin⟩ := hvisit hlive
        rcases sioRpcChooseUpstream_cases h env with
          ⟨-, -, v, m, -, hv, hm, hall, hrun⟩ | ⟨hnone, -⟩
        · exact ⟨v, hrun, hv, m, hm, fun v' hv' k hk =>
            Nat.le_trans (hall i hi u n hget hn) (hmin v' hv' k hk)⟩
        · rw [hnone i hi u hget] at hn
          cases hn
      · rcases sioRpcChooseUpstream_cases h env with
          ⟨i, hi, -⟩ | ⟨-, ⟨-, hrun⟩ | ⟨u, hu, -⟩⟩
        · rw [hnil] at hi
          cases hi
        · exact hrun
        · rw [hnil] at hu
          cases hu
      · rcases sioRpcChooseUpstream_cases h env with
          ⟨-, -, u, n, -, hu, hn, -⟩ | ⟨-, ⟨hnil, -⟩ | ⟨u, hu, -, hrun⟩⟩
        · rw [hnone u hu] at hn
          cases hn
        · exact absurd hnil hne
        · exact ⟨u, hu, hrun⟩
  refine ⟨hiff, fun hfits => hiff.mpr fun ⟨v, hv, hlive⟩ => ?_⟩
  have hlooks : ∀ v ∈ s.upstreams, ∃ j < s.upstreams.length,
      s.upstreams[chosenIdx s.rotated j]? = some v := by
    intro v hv
    obtain ⟨k, hk, hget⟩ := List.mem_iff_getElem.mp hv
    obtain ⟨j, hj, hidx⟩ := chosenIdx_surjective (s := s.rotated) hk hfits
    exact ⟨j, hj, by rw [hidx, List.getElem?_eq_getElem hk, hget]⟩
  rcases sioRpcChooseUpstream_cases h env with
    ⟨i, hi, u, n, hget, hu, hn, hall, -⟩ | ⟨hnone, -⟩
  · refine ⟨i, hi, u, hget, hu, n, hn, fun v hv m hm => ?_⟩
    obtain ⟨j, hj, hget'⟩ := hlooks v hv
    exact hall j hj v m hget' hm
  · obtain ⟨j, hj, hget⟩ := hlooks v hv
    rw [hnone j hj v hget] at hlive
    cases hlive

def chooseSample (rrStream : UInt32) : RpcClient :=
  { sioRpcClientNew 4096 with
    rrStream := rrStream
    upstreams := [0, 1, 2]
    upstream := fun u =>
      if u < 3 then
        some ⟨"127.0.0.1", 80 + UInt16.ofNat u, if u = 2 then some 3 else none, 0, ∅, 0, 1⟩
      else none
    fresh := 4 }

def chooseSampleEnv : RpcEnv := ⟨7, 7, 7, false, .ok 24, .ok 0⟩

theorem chooseSample_ok (rrStream : UInt32) : (chooseSample rrStream).ArrayOk := by
  intro u hu
  simp only [chooseSample, List.mem_cons, List.not_mem_nil, or_false] at hu
  rcases hu with rfl | rfl | rfl <;> rfl

/-- The counter is incremented to 2^32 - 1; the loop looks at the indices 0, 0 and 1. -/
theorem rpc_choose_misses : (chooseSample 4294967294).load 2 = some 0 ∧
    (sioRpcChooseUpstream (chooseSample 4294967294) chooseSampleEnv).map Prod.snd = some none ∧
    ¬ ChoosesWell (chooseSample 4294967294) chooseSampleEnv := by
  have hnone : (sioRpcChooseUpstream (chooseSample 4294967294) chooseSampleEnv).map Prod.snd =
      some none := by decide +kernel
  refine ⟨rfl, hnone, fun hwell => ?_⟩
  obtain ⟨u, hrun, -⟩ := hwell.least ⟨2, by decide, rfl⟩
  rw [hrun] at hnone
  cases hnone

theorem rpc_choose_least_loaded_sample :
    (ChoosesWell (chooseSample 5) chooseSampleEnv ↔
      ((∃ v ∈ (chooseSample 5).upstreams, ((chooseSample 5).load v).isSome) →
        ∃ i < (chooseSample 5).upstreams.length, ∃ u,
          (chooseSample 5).upstreams[chosenIdx (chooseSample 5).rotated i]? = some u ∧
            (chooseSample 5).Least u)) ∧
    ChoosesWell (chooseSample 5) chooseSampleEnv :=
  ⟨(rpc_choose_least_loaded (chooseSample_ok 5) chooseSampleEnv).1,
    (rpc_choose_least_loaded (chooseSample_ok 5) chooseSampleEnv).2 (Or.inl (by decide))⟩

end SimpleKit
