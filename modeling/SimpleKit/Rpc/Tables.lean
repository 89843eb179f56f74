import SimpleKit.Rpc.ClientRun
import SimpleKit.Rpc.ServerRun

set_option autoImplicit false

namespace SimpleKit
open Runs

/-- A request names an upstream if and only if it is in its table, under its own id. -/
structure RpcClient.Linked (s : RpcClient) : Prop where
  named : ∀ r q u, s.request r = some q →
    (q.upstream = some u ↔ ∃ up, s.upstream u = some up ∧ up.reqStatus.lookup q.id = some r)
  entry : ∀ u up k r, s.upstream u = some up → up.reqStatus.lookup k = some r →
    k < up.reqId ∧ ∃ q, s.request r = some q ∧ q.upstream = some u ∧ q.id = k
  connected : ∀ r q u, s.request r = some q → q.upstream = some u →
    u ∈ s.upstreams ∧ ∃ st, s.StreamOf u st
  idle : ∀ u up, s.upstream u = some up → up.stream = none → up.reqStatus = ∅
  array : ∀ u, u ∈ s.upstreams ↔ (s.upstream u).isSome
  ticks : ∀ u ∈ s.upstreams, s.timers.count (.upstream u) = 1

structure RpcServer.Linked (s : RpcServer) : Prop where
  entry : ∀ id d, s.dstreams.lookup id = some d ↔ ∃ ds, s.dstream d = some ds ∧ ds.id = id
  ids : ∀ d ds, s.dstream d = some ds → ds.id < s.connId
  ticks : ∀ d ds, s.dstream d = some ds → s.timers.count d = 1

variable {w : RpcView}

theorem RpcClient.Inv.linked {s : RpcClient} (h : s.Inv w Underway.none) : s.Linked := by
  have hlinked : ∀ u k r, s.table u k = some r ↔ s.link r = some (u, k) := fun u k r =>
    (h.links.linked u k r).trans (and_iff_right List.not_mem_nil)
  have harray : ∀ u, u ∈ s.upstreams ↔ (s.upstream u).isSome := by
    intro u
    rw [h.ups.array]
    simp [Underway.none]
  have hnamed : ∀ r q u, s.request r = some q →
      (q.upstream = some u ↔ ∃ up, s.upstream u = some up ∧ up.reqStatus.lookup q.id = some r) := by
    intro r q u hr
    have hlink : s.link r = some (u, q.id) ↔ q.upstream = some u := by
      rw [RpcClient.link_eq hr]
      simp
    rw [← hlink, ← hlinked]
    exact Option.bind_eq_some_iff
  refine ⟨hnamed, fun u up k r hu hk => ?_, fun r q u hr hq => ?_, fun u up hu hst =>
    (h.links.idle u up hu hst).1, harray, fun u hu => ?_⟩
  · have hlink := (hlinked u k r).mp ((RpcClient.table_eq hu k).trans hk)
    obtain ⟨q, hr, hq⟩ := Option.bind_eq_some_iff.mp hlink
    obtain ⟨v, hv, he⟩ := Option.map_eq_some_iff.mp hq
    cases he
    refine ⟨?_, q, hr, hv, rfl⟩
    cases hst : up.stream with
    | none =>
      rw [(h.links.idle u up hu hst).1] at hk
      cases hk
    | some st =>
      obtain ⟨f, hf⟩ := h.wires.waiting u up st _ r hu hst hk
      rw [h.wires.sent u up st hu hst]
      exact (List.getElem?_eq_some_iff.mp hf).1
  · obtain ⟨up, hu, hk⟩ := (hnamed r q u hr).mp hq
    refine ⟨(harray u).mpr (by rw [hu]; rfl), ?_⟩
    cases hst : up.stream with
    | none =>
      rw [(h.links.idle u up hu hst).1] at hk
      cases hk
    | some st => exact ⟨st, up, hu, hst⟩
  · rw [h.ups.ticks]
    exact if_pos ⟨(harray u).mp hu, List.not_mem_nil⟩

theorem RpcServer.Inv.linked {s : RpcServer} (h : s.Inv w Serving.none) : s.Linked := by
  refine ⟨h.conns.table, h.conns.ids, fun d ds hds => ?_⟩
  rw [h.conns.ticks]
  exact if_pos ⟨by rw [hds]; rfl, List.not_mem_nil⟩

/-- In every run of a client and of a server no assert fails, no timer is stopped that does not
run, and what is freed is not used; after it the tables are linked. -/
theorem rpc_tables_linked (e : ByteOrder) (maxPending : Nat) :
    (∀ ops, Along (clientStep e) (ClientOk False) (sioRpcClientNew maxPending) ops →
      ∃ s rets, run (clientStep e) (sioRpcClientNew maxPending) ops = some (s, rets) ∧
        s.Linked) ∧
    ∀ ops, Along (serverStep e) (fun s op => op.NoFail ∧ ServerOk s op)
        (sioRpcServerNew maxPending) ops →
      ∃ s rets, run (serverStep e) (sioRpcServerNew maxPending) ops = some (s, rets) ∧
        s.Linked := by
  refine ⟨fun ops hops => ?_, fun ops hops => ?_⟩
  · obtain ⟨s, rets, hrun, h⟩ := client_run_inv e maxPending hops
    exact ⟨s, rets, hrun, h.linked⟩
  · obtain ⟨s, rets, hrun, h⟩ := server_run_inv e maxPending
      (hops.mono fun s op hop => ⟨hop.2, hop.1.spares e s⟩)
    exact ⟨s, rets, hrun, h.linked⟩

theorem rpc_tables_linked_sample :
    (∃ s rets, run (clientStep .little) (sioRpcClientNew 4096) clientSampleOps = some (s, rets) ∧
      s.Linked) ∧
    ∃ s rets, run (serverStep .little) (sioRpcServerNew 4096)
      (serverSampleOps (answerAtOnce (.ok 24) (.ok 1))) = some (s, rets) ∧ s.Linked :=
  ⟨(rpc_tables_linked .little 4096).1 _ (clientSampleOps_ok .little _),
    (rpc_tables_linked .little 4096).2 _ ((serverSampleOps_ok .little
      (answerAtOnce_ok (.ok 24) (.ok 1) (Nat.le_refl 24) (Nat.le_refl 1)) _).and
        (serverSampleOps_noFail (answerAtOnce_noFail nofun nofun)))⟩

end SimpleKit
