import SimpleKit.Rpc.ClientMoves

set_option autoImplicit false

namespace SimpleKit
open Linking
namespace RpcClient

variable {w : RpcView} {p : Underway} {s : RpcClient} {u r st : RpcRef} {up : RpcUpstream}
  {q : RpcRequest} {x : RpcStream}

def cleared (s : RpcClient) (rs : List RpcRef) : RpcClient :=
  { s with request := fun r =>
      if r ∈ rs then (s.request r).map fun q => { q with upstream := none } else s.request r }

def waitingIn (up : RpcUpstream) : List RpcRef := up.reqStatus.entries.map Sigma.snd

theorem mem_waitingIn : r ∈ waitingIn up ↔ ∃ k, up.reqStatus.lookup k = some r := by
  rw [waitingIn, List.mem_map]
  constructor
  · rintro ⟨⟨k, r⟩, he, rfl⟩
    exact ⟨k, AList.mem_lookup_iff.mpr he⟩
  · rintro ⟨k, hk⟩
    exact ⟨⟨k, r⟩, AList.mem_lookup_iff.mp hk, rfl⟩

theorem cleared_cons (s : RpcClient) (rs : List RpcRef) (hr : s.request r = some q) (hno : r ∉ rs) :
    (s.setRequest r { q with upstream := none }).cleared rs = s.cleared (r :: rs) := by
  unfold cleared setRequest
  congr 1
  funext y
  by_cases hy : y = r
  · subst hy
    simp [hno, hr]
  · simp [hy]

/-- The loop empties the table, whatever order it goes in. -/
theorem sioRpcResetLoop_eq (u : RpcRef) (entries : List (Sigma fun _ : Nat => RpcRef))
    {s : RpcClient} {up : RpcUpstream} (hu : s.upstream u = some up)
    (hentries : up.reqStatus.entries = entries)
    (hreq : ∀ e ∈ entries, ∃ q, s.request e.2 = some q ∧ q.id = e.1)
    (hnd : (entries.map Sigma.snd).Nodup) :
    sioRpcResetLoop u entries s =
      some ((s.cleared (entries.map Sigma.snd)).setUpstream u { up with reqStatus := ∅ }) := by
  induction entries generalizing s up with
  | nil =>
    have hempty : up.reqStatus = ∅ := AList.ext hentries
    have hsame : Function.update s.upstream u (some up) = s.upstream :=
      Function.update_eq_self_iff.mpr hu.symm
    rw [sioRpcResetLoop]
    unfold cleared setUpstream
    rw [← hempty]
    simp [hsame]
  | cons e entries ih =>
    obtain ⟨k, r⟩ := e
    obtain ⟨q, hq, rfl⟩ := hreq ⟨k, r⟩ List.mem_cons_self
    obtain ⟨hr, hnd⟩ := List.nodup_cons.mp hnd
    have hhead : (⟨q.id, r⟩ : Sigma fun _ : Nat => RpcRef) ∈ up.reqStatus.entries := by
      rw [hentries]
      exact List.mem_cons_self
    have hmem : q.id ∈ up.reqStatus := by
      rw [← AList.lookup_isSome, AList.mem_lookup_iff.mpr hhead]
      rfl
    have herase : (up.reqStatus.erase q.id).entries = entries := by
      change List.kerase q.id up.reqStatus.entries = entries
      rw [hentries]
      exact List.kerase_cons_eq (s := (⟨q.id, r⟩ : Sigma fun _ : Nat => RpcRef)) rfl
    have hu1 : (s.setRequest r { q with upstream := none }).upstream u = some up := hu
    simp only [sioRpcResetLoop, hq, Option.bind_eq_bind, Option.bind_some, hu1, if_pos hmem]
    generalize hs1 : (s.setRequest r { q with upstream := none }).setUpstream u
      { up with reqStatus := up.reqStatus.erase q.id } = s1
    have hu2 : s1.upstream u = some { up with reqStatus := up.reqStatus.erase q.id } := by
      rw [← hs1, upstream_setUpstream, if_pos rfl]
    rw [ih hu2 herase (fun e he => ?_) hnd]
    · rw [List.map_cons, ← cleared_cons s _ hq hr, ← hs1]
      unfold cleared setUpstream
      simp
    · obtain ⟨y, hy, hid⟩ := hreq e (List.mem_cons_of_mem _ he)
      have hne : e.2 ≠ r := fun heq => hr (List.mem_map.mpr ⟨e, he, heq⟩)
      refine ⟨y, ?_, hid⟩
      rw [← hs1]
      exact (request_setRequest ..).trans ((if_neg hne).trans hy)

theorem cleared_request (s : RpcClient) (rs : List RpcRef) (r : RpcRef) : (s.cleared rs).request r =
    if r ∈ rs then (s.request r).map fun q => { q with upstream := none } else s.request r := rfl

def disconnected (s : RpcClient) (u st : RpcRef) (x : RpcStream) (up : RpcUpstream) (delay : Nat) :
    RpcClient :=
  ((s.setStream st { x with closed := true }).cleared (waitingIn up)).setUpstream u
    { up with stream := none, reqId := 0, connDelay := delay, reqStatus := ∅ }

theorem disconnected_reqRecord (s : RpcClient) (u st : RpcRef) (x : RpcStream) (up : RpcUpstream)
    (delay : Nat) : (s.disconnected u st x up delay).reqRecord = s.reqRecord := rfl

theorem disconnected_fresh (s : RpcClient) (u st : RpcRef) (x : RpcStream) (up : RpcUpstream)
    (delay : Nat) : (s.disconnected u st x up delay).fresh = s.fresh := rfl

theorem disconnected_streamOf {x : RpcStream} {delay : Nat} {v st' : RpcRef} :
    (s.disconnected u st x up delay).StreamOf v st' ↔ v ≠ u ∧ s.StreamOf v st' := by
  refine streamOf_setUpstream.trans ?_
  split
  · next he => exact ⟨nofun, fun hne => absurd he hne.1⟩
  · next he => exact ⟨fun hv => ⟨he, hv⟩, fun hv => hv.2⟩

theorem disconnected_openStream (s : RpcClient) (u st : RpcRef) (x : RpcStream) (up : RpcUpstream)
    (delay : Nat) (st' : RpcRef) : (s.disconnected u st x up delay).openStream st' =
      if st' = st then none else s.openStream st' := openStream_setStream ..

theorem disconnected_upstream {x : RpcStream} {delay : Nat} {v : RpcRef} {vp : RpcUpstream}
    (hv : (s.disconnected u st x up delay).upstream v = some vp) :
    v = u ∧ vp = { up with stream := none, reqId := 0, connDelay := delay, reqStatus := ∅ } ∨
      v ≠ u ∧ s.upstream v = some vp := setUpstream_cases hv

/-- The stream that goes away keeps what went out on it, and the others are not touched. -/
theorem Wires.disconnected (h : s.Wires w p) (hu : s.upstream u = some up)
    (hst : up.stream = some st) {x : RpcStream} (hx : s.openStream st = some x) (delay : Nat) :
    (s.disconnected u st x up delay).Wires w p := by
  have hof : s.StreamOf u st := ⟨up, hu, hst⟩
  refine ⟨fun v vp st' hv hs => ?_, fun v vp st' k r hv hs hk => ?_, fun v st' hv => ?_,
    fun st' y hy => ?_, fun st' y hy hp => ?_, fun hlast st' y hy hc hp => ?_, h.frames⟩
  · rcases disconnected_upstream hv with ⟨-, rfl⟩ | ⟨-, hv⟩
    · cases hs
    · exact h.sent v vp st' hv hs
  · rcases disconnected_upstream hv with ⟨-, rfl⟩ | ⟨-, hv⟩
    · cases hs
    · exact h.waiting v vp st' k r hv hs hk
  · obtain ⟨hne, hv1⟩ := disconnected_streamOf.mp hv
    have hst' : st' ≠ st := by
      intro he
      rw [he] at hv1
      exact hne (h.inj hv1 hof)
    rw [disconnected_openStream, if_neg hst']
    exact h.stream v st' hv1
  · rw [disconnected_openStream] at hy
    split at hy
    · cases hy
    · next hne =>
      obtain ⟨h1, h2, h3⟩ := h.owner st' y hy
      refine ⟨h1, h2, disconnected_streamOf.mpr ⟨fun he => hne ?_, h3⟩⟩
      rw [he] at h3
      exact Option.some.inj ((h3.upstream hu).symm.trans hst)
  · rw [disconnected_openStream] at hy
    split at hy
    · cases hy
    · exact h.written st' y hy hp
  · have hy' : (if st' = st then some { x with closed := true } else s.stream st') = some y :=
      (Function.update_apply ..).symm.trans hy
    split at hy'
    · next he =>
      cases hy'
      rw [he] at hp ⊢
      exact (h.written st x hx hp) ▸ List.prefix_append _ _
    · exact h.closed hlast st' y hy' hc hp

theorem Inv.disconnected (h : s.Inv w p) (hu : s.upstream u = some up)
    (hst : up.stream = some st) (hx : s.openStream st = some x) (delay : Nat) :
    (s.disconnected u st x up delay).Inv w p := by
  obtain ⟨hstream, -⟩ := openStream_some.mp hx
  have hups : (s.disconnected u st x up delay).Upstreams p := by
    have h1 : ((s.setStream st { x with closed := true }).cleared (waitingIn up)).Upstreams p :=
      { h.ups with }
    exact h1.setUpstream hu
  have hisSome : ∀ r, ((s.disconnected u st x up delay).request r).isSome =
      (s.request r).isSome := by
    intro r
    change ((s.cleared (waitingIn up)).request r).isSome = _
    rw [cleared_request]
    split <;> simp
  refine ⟨⟨h.links.linked.clear (u := u) (fun v l => ?_) (fun r hr => ?_) fun r hr => ?_,
      fun v vp hv hn => ?_⟩, h.wires.disconnected hu hst hx delay,
    ⟨h.records.nodup, fun r => ?_, h.records.armed, fun r y hy => ?_,
      h.records.once, h.records.answers⟩,
    hups, ⟨fun a ha => ?_, fun a ha => ?_, fun a ha => ?_, h.fresh.call, h.fresh.send,
      h.fresh.under⟩, ⟨fun st' y hy => ?_, h.reads.unborn⟩, h.responses⟩
  · exact table_setUpstream ..
  · have hmem : r ∈ waitingIn up := by
      obtain ⟨k, hk⟩ := hr
      exact mem_waitingIn.mpr ⟨k, (table_eq hu k).symm.trans hk⟩
    change (s.cleared (waitingIn up)).link r = none
    rw [link, cleared_request, if_pos hmem]
    cases s.request r <;> rfl
  · have hmem : r ∉ waitingIn up := by
      intro hm
      obtain ⟨k, hk⟩ := mem_waitingIn.mp hm
      exact hr ⟨k, (table_eq hu k).trans hk⟩
    change (s.cleared (waitingIn up)).link r = s.link r
    rw [link, cleared_request, if_neg hmem, link]
  · rcases disconnected_upstream hv with ⟨-, rfl⟩ | ⟨-, hv⟩
    · exact ⟨rfl, rfl⟩
    · exact h.links.idle v vp hv hn
  · rw [hisSome]
    exact h.records.record r
  · change (s.cleared (waitingIn up)).request r = some y at hy
    rw [cleared_request] at hy
    split at hy
    · obtain ⟨q, hq, rfl⟩ := Option.map_eq_some_iff.mp hy
      exact h.records.called r q hq
    · exact h.records.called r y hy
  · have hnone := hisSome a
    rw [h.fresh.request a ha] at hnone
    exact Option.isNone_iff_eq_none.mp (by simpa using hnone)
  · have hlt := h.fresh.lt_upstream hu
    have hne : a ≠ u := by
      rintro rfl
      exact absurd hlt (Nat.not_lt.mpr ha)
    exact (upstream_setUpstream ..).trans ((if_neg hne).trans (h.fresh.upstream a ha))
  · have hlt := h.fresh.lt_stream hstream
    have hne : a ≠ st := by
      rintro rfl
      exact absurd hlt (Nat.not_lt.mpr ha)
    exact (Function.update_apply ..).trans ((if_neg hne).trans (h.fresh.stream a ha))
  · rw [disconnected_openStream] at hy
    split at hy
    · cases hy
    · exact h.reads.input st' y hy

end RpcClient

open RpcClient

variable {w : RpcView} {p : Underway} {s : RpcClient} {u : RpcRef} {up : RpcUpstream}

theorem sioRpcResetUpstream_eq (h : s.Inv w p) {st : RpcRef} (hu : s.upstream u = some up)
    (hst : up.stream = some st) (env : RpcEnv) :
    ∃ x, s.openStream st = some x ∧ sioRpcResetUpstream s u env =
      some (s.disconnected u st x up (sioRpcConnDelay up env.closeTime)) := by
  obtain ⟨x, hx, -⟩ := h.wires.stream u st ⟨up, hu, hst⟩
  refine ⟨x, hx, ?_⟩
  have hwait : ∀ e ∈ up.reqStatus.entries, s.link e.2 = some (u, e.1) := by
    intro e he
    have hk : s.table u e.1 = some e.2 := (table_eq hu _).trans (AList.mem_lookup_iff.mpr he)
    exact ((h.links.linked u e.1 e.2).mp hk).2
  simp only [sioRpcResetUpstream, hu, Option.bind_eq_bind, Option.bind_some, hst, closeStream, hx,
    Option.map_some]
  generalize hs1 : (s.setStream st { x with closed := true }).setUpstream u
    { up with stream := none, reqId := 0, connDelay := sioRpcConnDelay up env.closeTime } = s1
  have hreq : s1.request = s.request := by rw [← hs1]; rfl
  have hu1 : s1.upstream u = some
      { up with stream := none, reqId := 0, connDelay := sioRpcConnDelay up env.closeTime } := by
    rw [← hs1, upstream_setUpstream, if_pos rfl]
  have hids : ∀ e ∈ up.reqStatus.entries, ∃ q, s1.request e.2 = some q ∧ q.id = e.1 := by
    intro e he
    have hl := hwait e he
    rw [link] at hl
    obtain ⟨q, hq, hq'⟩ := Option.bind_eq_some_iff.mp hl
    obtain ⟨v, -, hv⟩ := Option.map_eq_some_iff.mp hq'
    exact ⟨q, by rw [hreq]; exact hq, (Prod.mk.inj hv).2⟩
  have hnd : (up.reqStatus.entries.map Sigma.snd).Nodup := by
    refine List.Nodup.map_on (fun a ha b hb heq => ?_) up.reqStatus.nodupKeys.nodup
    have h1 := hwait a ha
    rw [heq, hwait b hb] at h1
    simp only [Option.some.injEq, Prod.mk.injEq, true_and] at h1
    exact Sigma.ext h1.symm (heq_of_eq heq)
  rw [sioRpcResetLoop_eq u up.reqStatus.entries hu1 rfl hids hnd, ← hs1]
  unfold disconnected cleared setUpstream waitingIn
  simp only [Function.update_idem]

end SimpleKit
