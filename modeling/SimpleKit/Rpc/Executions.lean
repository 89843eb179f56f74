import Mathlib.Combinatorics.Enumerative.DoubleCounting
import SimpleKit.Rpc.NetRun
import SimpleKit.Rpc.Periods
import SimpleKit.Rpc.Sends
import SimpleKit.Rpc.Served

set_option autoImplicit false

namespace SimpleKit
open Framing Runs

def servedOn (st : RpcRef) (log : List ServerEvent) : List (RpcRef × Frame) :=
  log.filterMap fun
    | .request resp st' f _ => if st' = st then some (resp, f) else none
    | _ => none

theorem servedOn_frames (st : RpcRef) (log : List ServerEvent) :
    (servedOn st log).map Prod.snd = requestsOn st log := by
  rw [servedOn, requestsOn, List.map_filterMap]
  congr 1
  funext ev
  cases ev with
  | request resp st' f m => by_cases h : st' = st <;> simp [h]
  | _ => rfl

theorem mem_servedOn {st resp : RpcRef} {f : Frame} {m : RpcMethod} {log : List ServerEvent}
    (h : .request resp st f m ∈ log) : (resp, f) ∈ servedOn st log :=
  List.mem_filterMap.mpr ⟨_, h, if_pos rfl⟩

namespace RpcNet

/-- What a server has read is a beginning of what was sent to it, and it used up what it handed
to the methods. -/
structure Serves (se : Nat → ByteOrder) (n : RpcNet) : Prop where
  served : ∀ k, (n.server k).Served (se k) fun st => n.serverGot (k, st)
  sent : ∀ b, n.serverGot b <+: ((n.requestsFor b).map (frameWire (se b.1))).flatten

variable {ce se : Nat → ByteOrder} {n n' : RpcNet}

theorem Serves.sends (h : n.Serves se) (hserver : n'.server = n.server)
    (hgot : n'.serverGot = n.serverGot) (hsent : ∀ b, n.requestsFor b <+: n'.requestsFor b) :
    n'.Serves se := by
  refine ⟨fun k => ?_, fun b => ?_⟩
  · rw [hserver, hgot]
    exact h.served k
  · rw [hgot]
    obtain ⟨more, hmore⟩ := hsent b
    rw [← hmore, List.map_append, List.flatten_append]
    exact (h.sent b).trans (List.prefix_append _ _)

theorem Serves.client (h : n.Serves se) {c : Nat} {op : ClientOp} (hshort : op.Short)
    {s : RpcClient} (hstep : clientStep (ce c) (n.client c) op = some (s, ()))
    (more : RpcRef → List UInt8) : (n.withClient c s more).Serves se := by
  refine h.sends rfl rfl fun b => requestsFor_mono (fun _ ha => ha) ?_
  refine (Function.forall_update_iff n.client fun c' s' => (n.client c').log <+: s'.log).mpr
    ⟨?_, fun c' _ => List.prefix_rfl⟩
  obtain ⟨later, hlater, -⟩ := (RpcClient.Tells.step hshort hstep).log
  exact ⟨later, hlater.symm⟩

theorem Serves.server (h : n.Serves se) (hinv : n.Inv ce se) {k : Nat} {op : ServerOp}
    {lasting : Prop} (hop : ServerFits (se k) lasting (n.server k) op)
    (hgot : ∀ st, n.serverGot (k, st) ++ (n.server k).arrives st op <+: n.toServer (k, st))
    {s : RpcServer} (hstep : serverStep (se k) (n.server k) op = some (s, ())) :
    (n.withServer k s fun st => (n.server k).arrives st op).Serves se := by
  refine ⟨fun k' => ?_, fun b => ?_⟩
  · by_cases hk : k' = k
    · subst hk
      simp only [withServer_server, withServer_got]
      exact (h.served k').step (hinv.server k') hop hstep
    · have hsame : (n.withServer k s fun st => (n.server k).arrives st op).server k' =
          n.server k' := Function.update_of_ne hk ..
      simp only [hsame, n.withServer_got_ne _ _ _ _ hk]
      exact h.served k'
  · obtain ⟨k', st⟩ := b
    change _ <+: ((n.requestsFor (k', st)).map (frameWire (se k'))).flatten
    by_cases hk : k' = k
    · subst hk
      rw [withServer_got]
      obtain ⟨e, he⟩ := hinv.toServer (k', st)
      rw [← frameWires_received (se k') (se k'), frameWires_received (se k') e]
      exact (hgot st).trans he
    · rw [n.withServer_got_ne _ _ _ _ hk]
      exact h.sent (k', st)

theorem Serves.accept (h : n.Serves se) (hinv : n.Inv ce se) {k : Nat} {a : RpcEnd}
    {s : RpcServer} (hstep : serverStep (se k) (n.server k) (.accept true) = some (s, ())) :
    RpcNet.Serves se { n.withServer k s fun _ => [] with
      peer := Function.update n.peer a (some (k, (n.server k).fresh))
      origin := Function.update n.origin (k, (n.server k).fresh) (some a) } := by
  have hfree : n.origin (k, (n.server k).fresh) = none := by
    rw [Option.eq_none_iff_forall_ne_some]
    exact fun b hb => Nat.lt_irrefl _ (hinv.born b _ hb)
  have hgot : ∀ k' st, (n.withServer k s fun _ => []).serverGot (k', st) =
      n.serverGot (k', st) := by
    intro k' st
    by_cases hk : k' = k
    · subst hk
      rw [withServer_got, List.append_nil]
    · exact n.withServer_got_ne _ _ _ _ hk
  have hserved : RpcNet.Serves se { n with server := Function.update n.server k s } := by
    refine ⟨fun k' => ?_, h.sent⟩
    change (Function.update n.server k s k').Served _ _
    by_cases hk : k' = k
    · subst hk
      rw [Function.update_self]
      have hfits : ServerFits (se k') True (n.server k') (.accept true) := trivial
      have hstepped := (h.served k').step (hinv.server k') hfits hstep
      simpa only [RpcServer.arrives, List.append_nil] using hstepped
    · rw [Function.update_of_ne hk]
      exact h.served k'
  exact hserved.sends rfl (funext fun b => hgot b.1 b.2)
    fun b => requestsFor_mono (fun c hc => update_of_none hfree _ b c hc) fun _ => List.prefix_rfl

theorem Serves.step (h : n.Serves se) (hinv : n.Inv ce se) {op : NetOp} (hop : NetOk se n op)
    (hshort : op.Short) (hstep : netStep ce se n op = some (n', ())) : n'.Serves se := by
  cases netStep_does hstep with
  | client hs => exact h.client hshort hs _
  | server hs => exact h.server hinv hop.1 hop.2.2 hs
  | hangs => exact h
  | accept _ hs => exact h.accept hinv hs

/-- A connection hands on a part of what was sent on it, in its order. -/
theorem Serves.sublist (h : n.Serves se) (hinv : n.Inv ce se) (b : RpcEnd) :
    (requestsOn b.2 (n.server b.1).log).Sublist ((n.requestsFor b).map Frame.received) := by
  obtain ⟨l, fs, hcut, hsub⟩ := (h.served b.1).served b.2
  have hsend : ∀ f ∈ n.requestsFor b, f.Sendable :=
    requests_sendable (fun c => ⟨_, _, hinv.client c⟩) hinv.calls b
  have hwires := h.sent b
  rw [← frameWires_received (se b.1) (se b.1)] at hwires
  have hpre := hcut.sent (rpcNext_stable (se b.1)) rfl (encodes_received (se b.1) (se b.1) hsend)
    hwires
  exact hsub.trans hpre.sublist

theorem Inv.ids_nodup (h : n.Inv ce se) {c : Nat} {st : RpcRef}
    (hfew : (sendsOn st (n.client c).log).length ≤ 2^64) :
    ((sendsOn st (n.client c).log).map fun x => x.2.received.head.id).Nodup := by
  rw [List.nodup_iff_injective_getElem]
  rintro ⟨i, hi⟩ ⟨j, hj⟩ hij
  simp only [List.length_map] at hi hj
  simp only [List.getElem_map] at hij
  have hid : ∀ i (hi : i < (sendsOn st (n.client c).log).length),
      ((sendsOn st (n.client c).log)[i]).2.received.head.id = UInt64.ofNat i := fun i hi =>
    ((h.client c).wires.frames st i _ _ (List.getElem?_eq_getElem hi)).1
  rw [hid i hi, hid j hj] at hij
  have hback := congrArg UInt64.toNat hij
  rw [UInt64.toNat_ofNat', UInt64.toNat_ofNat', Nat.mod_eq_of_lt (Nat.lt_of_lt_of_le hi hfew),
    Nat.mod_eq_of_lt (Nat.lt_of_lt_of_le hj hfew)] at hback
  exact Fin.ext hback

/-- What was sent once is executed once. -/
theorem Serves.once (h : n.Serves se) (hinv : n.Inv ce se) {a b : RpcEnd}
    (hpeer : n.peer a = some b) (hfew : (sendsOn a.2 (n.client a.1).log).length ≤ 2^64)
    {resp resp' : RpcRef} {f : Frame} {m m' : RpcMethod}
    (hev : .request resp b.2 f m ∈ (n.server b.1).log)
    (hev' : .request resp' b.2 f m' ∈ (n.server b.1).log) : resp = resp' := by
  have hids : ((servedOn b.2 (n.server b.1).log).map fun x => x.2.head.id).Nodup := by
    have hsub := (h.sublist hinv b).map fun f => f.head.id
    rw [requestsFor, hinv.linked a b hpeer, ← servedOn_frames, List.map_map] at hsub
    refine List.Nodup.sublist hsub ?_
    simp only [List.map_map]
    exact hinv.ids_nodup hfew
  have hsame := List.inj_on_of_nodup_map hids (mem_servedOn hev) (mem_servedOn hev') rfl
  exact (Prod.mk.inj hsame).1

end RpcNet

section Sample

end Sample

end SimpleKit
