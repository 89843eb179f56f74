import SimpleKit.Rpc.ClientInv

set_option autoImplicit false

namespace SimpleKit
open Linking
namespace RpcClient

variable {w : RpcView} {p : Underway} {s : RpcClient} {u r st : RpcRef} {up up' : RpcUpstream}
  {q q' : RpcRequest}

section Upstream

theorem streamOf_setUpstream {v : RpcRef} : (s.setUpstream u up').StreamOf v st ↔
    if v = u then up'.stream = some st else s.StreamOf v st := by
  unfold StreamOf
  rw [upstream_setUpstream]
  split <;> simp

theorem setUpstream_cases {v : RpcRef} {vp : RpcUpstream}
    (hv : (s.setUpstream u up').upstream v = some vp) :
    v = u ∧ vp = up' ∨ v ≠ u ∧ s.upstream v = some vp := by
  rw [upstream_setUpstream] at hv
  split at hv
  · next he => exact Or.inl ⟨he, (Option.some.inj hv).symm⟩
  · next he => exact Or.inr ⟨he, hv⟩

theorem streamOf_setUpstream_of_eq (hu : s.upstream u = some up) (up' : RpcUpstream)
    (hstream : up'.stream = up.stream) (v : RpcRef) :
    (s.setUpstream u up').StreamOf v st ↔ s.StreamOf v st := by
  rw [streamOf_setUpstream]
  split
  · next hv =>
    rw [hv, StreamOf, hu, hstream]
    simp
  · rfl

theorem table_setUpstream_of_eq (hu : s.upstream u = some up) (up' : RpcUpstream)
    (hstatus : up'.reqStatus = up.reqStatus) : (s.setUpstream u up').table = s.table := by
  funext v k
  rw [table_setUpstream]
  split
  · next hv => rw [hv, table_eq hu, hstatus]
  · rfl

theorem isSome_setUpstream (hu : s.upstream u = some up) (v : RpcRef) :
    ((s.setUpstream u up').upstream v).isSome = (s.upstream v).isSome := by
  rw [upstream_setUpstream]
  split
  · next h => rw [h, hu]; rfl
  · rfl

theorem isSome_setRequest (hr : s.request r = some q) (x : RpcRef) :
    ((s.setRequest r q').request x).isSome = (s.request x).isSome := by
  rw [request_setRequest]
  split
  · next h => rw [h, hr]; rfl
  · rfl

theorem Upstreams.setUpstream (h : s.Upstreams p) (hu : s.upstream u = some up) :
    (s.setUpstream u up').Upstreams p := by
  refine ⟨h.nodup, fun v => ?_, h.disjoint, fun v => ?_⟩
  · rw [isSome_setUpstream hu]
    exact h.array v
  · rw [isSome_setUpstream hu]
    exact h.ticks v

theorem Fresh.lt_upstream (h : s.Fresh p) (hu : s.upstream u = some up) : u < s.fresh :=
  Nat.lt_of_not_le fun hle => by
    rw [h.upstream u hle] at hu
    cases hu

theorem Fresh.lt_request (h : s.Fresh p) (hr : s.request r = some q) : r < s.fresh :=
  Nat.lt_of_not_le fun hle => by
    rw [h.request r hle] at hr
    cases hr

theorem Fresh.lt_stream (h : s.Fresh p) {x : RpcStream} (hx : s.stream st = some x) :
    st < s.fresh :=
  Nat.lt_of_not_le fun hle => by
    rw [h.stream st hle] at hx
    cases hx

theorem Fresh.setUpstream (h : s.Fresh p) (hu : s.upstream u = some up) :
    (s.setUpstream u up').Fresh p := by
  refine ⟨h.request, fun a ha => ?_, h.stream, h.call, h.send, h.under⟩
  have hlt := h.lt_upstream hu
  rw [upstream_setUpstream, if_neg (by intro he; subst he; exact Nat.not_lt.mpr ha hlt)]
  exact h.upstream a ha

theorem Fresh.setRequest (h : s.Fresh p) (hr : s.request r = some q) :
    (s.setRequest r q').Fresh p := by
  refine ⟨fun a ha => ?_, h.upstream, h.stream, h.call, h.send, h.under⟩
  have hlt := h.lt_request hr
  rw [request_setRequest, if_neg (by intro he; subst he; exact Nat.not_lt.mpr ha hlt)]
  exact h.request a ha

theorem Inv.setUpstream (h : s.Inv w p) (hu : s.upstream u = some up)
    (hstream : up'.stream = up.stream) (hid : up'.reqId = up.reqId)
    (hstatus : up'.reqStatus = up.reqStatus) : (s.setUpstream u up').Inv w p := by
  have hof : ∀ v st, (s.setUpstream u up').StreamOf v st ↔ s.StreamOf v st :=
    fun v _ => streamOf_setUpstream_of_eq hu up' hstream v
  have hup : ∀ v vp, (s.setUpstream u up').upstream v = some vp → ∃ vp', s.upstream v = some vp' ∧
      vp.stream = vp'.stream ∧ vp.reqId = vp'.reqId ∧ vp.reqStatus = vp'.reqStatus := by
    intro v vp hv
    rcases setUpstream_cases hv with ⟨rfl, rfl⟩ | ⟨-, hv⟩
    · exact ⟨up, hu, hstream, hid, hstatus⟩
    · exact ⟨vp, hv, rfl, rfl, rfl⟩
  refine ⟨⟨by rw [table_setUpstream_of_eq hu up' hstatus]; exact h.links.linked,
    fun v vp hv hn => ?_⟩,
    ⟨fun v vp st hv hst => ?_, fun v vp st k r hv hst hk => ?_, fun v st hv => ?_,
      fun st x hx => ?_, h.wires.written, h.wires.closed, h.wires.frames⟩,
    { h.records with }, h.ups.setUpstream hu, h.fresh.setUpstream hu, { h.reads with }, h.responses⟩
  · obtain ⟨vp', hv', h1, h2, h3⟩ := hup v vp hv
    rw [h2, h3]
    exact h.links.idle v vp' hv' (h1.symm.trans hn)
  · obtain ⟨vp', hv', h1, h2, h3⟩ := hup v vp hv
    rw [h2]
    exact h.wires.sent v vp' st hv' (h1.symm.trans hst)
  · obtain ⟨vp', hv', h1, h2, h3⟩ := hup v vp hv
    rw [h3] at hk
    exact h.wires.waiting v vp' st k r hv' (h1.symm.trans hst) hk
  · exact h.wires.stream v st ((hof v st).mp hv)
  · obtain ⟨h1, h2, h3⟩ := h.wires.owner st x hx
    exact ⟨h1, h2, (hof _ _).mpr h3⟩

theorem Wires.inj (h : s.Wires w p) {v : RpcRef} (hu : s.StreamOf u st) (hv : s.StreamOf v st) :
    u = v := by
  obtain ⟨x, hx, rfl⟩ := h.stream u st hu
  obtain ⟨y, hy, rfl⟩ := h.stream v st hv
  rw [hx, Option.some.injEq] at hy
  rw [hy]

theorem StreamOf.upstream (h : s.StreamOf u st) (hu : s.upstream u = some up) :
    up.stream = some st := by
  obtain ⟨up', hu', hst⟩ := h
  rw [hu, Option.some.injEq] at hu'
  rwa [hu']

def opened (s : RpcClient) (u : RpcRef) (io : SioStream) (up' : RpcUpstream) : RpcClient :=
  { s.setStream s.fresh ⟨io, u, false⟩ with fresh := s.fresh + 1 }.setUpstream u up'

theorem opened_openStream (s : RpcClient) (u : RpcRef) (io : SioStream) (up' : RpcUpstream)
    (st : RpcRef) : (s.opened u io up').openStream st =
      if st = s.fresh then some ⟨io, u, false⟩ else s.openStream st := openStream_setStream ..

theorem opened_streamOf {io : SioStream} (hstream : up'.stream = some s.fresh) {v : RpcRef} :
    (s.opened u io up').StreamOf v st ↔ if v = u then s.fresh = st else s.StreamOf v st := by
  refine streamOf_setUpstream.trans ?_
  rw [hstream, Option.some.injEq]
  rfl

theorem Wires.opened (h : s.Wires w p) (hf : s.Fresh p) (hl : s.Links p)
    (hu : s.upstream u = some up) (hnone : up.stream = none)
    {io : SioStream} {ok : Bool} (hio : sioStreamConnect ok = some io)
    (hstream : up'.stream = some s.fresh) (hid : up'.reqId = up.reqId)
    (hstatus : up'.reqStatus = up.reqStatus) : (s.opened u io up').Wires w p := by
  obtain ⟨hsends, hempty⟩ := sioStreamConnect_sends hio
  have hsfd : io.sfd.isSome := by
    cases ok with
    | false => cases hio
    | true => cases hio; rfl
  obtain ⟨hidle, hzero⟩ := hl.idle u up hu hnone
  have hnew : sendsOn s.fresh s.log = [] := hf.send s.fresh (Nat.le_refl _)
  have hold : ∀ st x, s.openStream st = some x → st ≠ s.fresh := by
    rintro st x hx rfl
    exact absurd (hf.lt_stream (openStream_some.mp hx).1) (Nat.lt_irrefl _)
  have hup : ∀ v vp, (s.opened u io up').upstream v = some vp →
      v = u ∧ vp = up' ∨ v ≠ u ∧ s.upstream v = some vp := fun _ _ hv => setUpstream_cases hv
  refine ⟨fun v vp st hv hst => ?_, fun v vp st k r hv hst hk => ?_, fun v st hv => ?_,
    fun st x hx => ?_, fun st x hx hp => ?_, fun hl st x hx hc hp => ?_, h.frames⟩
  · rcases hup v vp hv with ⟨-, rfl⟩ | ⟨-, hv⟩
    · rw [hstream, Option.some.injEq] at hst
      subst hst
      rw [hid, hzero]
      exact (congrArg List.length hnew).symm
    · exact h.sent v vp st hv hst
  · rcases hup v vp hv with ⟨-, rfl⟩ | ⟨-, hv⟩
    · rw [hstatus, hidle] at hk
      cases hk
    · exact h.waiting v vp st k r hv hst hk
  · rw [opened_streamOf hstream] at hv
    rw [opened_openStream]
    split at hv
    · next he => exact ⟨_, if_pos hv.symm, he.symm⟩
    · obtain ⟨x, hx, ha⟩ := h.stream v st hv
      exact ⟨x, by rw [if_neg (hold st x hx), hx], ha⟩
  · rw [opened_openStream] at hx
    rw [opened_streamOf hstream]
    split at hx
    · next he =>
      cases hx
      exact ⟨hsends, hsfd, by rw [if_pos rfl, he]⟩
    · obtain ⟨h1, h2, h3⟩ := h.owner st x hx
      refine ⟨h1, h2, ?_⟩
      split
      · next ha =>
        rw [ha] at h3
        rw [h3.upstream hu] at hnone
        cases hnone
      · exact h3
  · rw [opened_openStream] at hx
    split at hx
    · next he =>
      cases hx
      subst he
      rw [hempty, wiresOn]
      exact (congrArg (fun l => (l.map fun x => frameWire w.order x.2).flatten) hnew).symm
    · exact h.written st x hx hp
  · have hx' : (if st = s.fresh then some ⟨io, u, false⟩ else s.stream st) = some x := by
      rw [← hx]
      exact (Function.update_apply ..).symm
    split at hx'
    · cases hx'
      cases hc
    · exact h.closed hl st x hx' hc hp

theorem Inv.opened (h : s.Inv w p) (hu : s.upstream u = some up) (hnone : up.stream = none)
    {io : SioStream} {ok : Bool} (hio : sioStreamConnect ok = some io)
    (hstream : up'.stream = some s.fresh) (hid : up'.reqId = up.reqId)
    (hstatus : up'.reqStatus = up.reqStatus) : (s.opened u io up').Inv w p := by
  have hinbuf : io.inbuf = sioBufferNew := by
    cases ok with
    | false => cases hio
    | true => cases hio; rfl
  have htable : (s.opened u io up').table = s.table := by
    refine table_setUpstream_of_eq ?_ up' hstatus
    exact hu
  have hup : ∀ v vp, (s.opened u io up').upstream v = some vp →
      v = u ∧ vp = up' ∨ v ≠ u ∧ s.upstream v = some vp := fun _ _ hv => setUpstream_cases hv
  have hups : (s.opened u io up').Upstreams p := by
    have h1 : ({ s.setStream s.fresh ⟨io, u, false⟩ with fresh := s.fresh + 1 }).Upstreams p :=
      { h.ups with }
    exact h1.setUpstream hu
  refine ⟨⟨by rw [htable]; exact h.links.linked, fun v vp hv hn => ?_⟩,
    h.wires.opened h.fresh h.links hu hnone hio hstream hid hstatus, { h.records with }, hups,
    ⟨fun a ha => h.fresh.request a (Nat.le_of_succ_le ha), fun a ha => ?_, fun a ha => ?_,
      fun r hr => Nat.lt_succ_of_lt (h.fresh.call r hr),
      fun a ha => h.fresh.send a (Nat.le_of_succ_le ha),
      fun r hr => Nat.lt_succ_of_lt (h.fresh.under r hr)⟩,
    ⟨fun st x hx => ?_, fun st hst => h.reads.unborn st (Nat.le_of_succ_le hst)⟩, h.responses⟩
  · rcases hup v vp hv with ⟨-, rfl⟩ | ⟨-, hv⟩
    · rw [hstream] at hn
      cases hn
    · exact h.links.idle v vp hv hn
  · have hne : a ≠ u := by
      rintro rfl
      exact absurd (h.fresh.lt_upstream hu) (Nat.not_lt.mpr (Nat.le_of_succ_le ha))
    refine (upstream_setUpstream ..).trans ?_
    rw [if_neg hne]
    exact h.fresh.upstream a (Nat.le_of_succ_le ha)
  · refine (Function.update_apply ..).trans ?_
    rw [if_neg (Nat.ne_of_gt ha)]
    exact h.fresh.stream a (Nat.le_of_succ_le ha)
  · rw [opened_openStream] at hx
    split at hx
    · next he =>
      cases hx
      rw [he, hinbuf, sioBufferData_new]
      exact h.reads.unborn _ (Nat.le_refl _)
    · exact h.reads.input st x hx

end Upstream

section Request
variable {loose : List RpcRef}

theorem Inv.setRequest (h : s.Inv w p) (loose : List RpcRef) (hr : s.request r = some q)
    (htype : q'.type = q.type)
    (hbody : q'.body = q.body) (hloose : ∀ x ∈ loose, x ∈ p.loose ∨ x = r)
    (hlinked : Linked s.table (s.setRequest r q').link (· ∈ loose)) :
    (s.setRequest r q').Inv w { p with loose := loose } := by
  have hfresh : (s.setRequest r q').Fresh p := h.fresh.setRequest hr
  refine ⟨⟨hlinked, h.links.idle⟩, { h.wires with },
    ⟨h.records.nodup, fun x => ?_, h.records.armed, fun x y hx => ?_,
      h.records.once, h.records.answers⟩,
    { h.ups with },
    ⟨hfresh.request, hfresh.upstream, hfresh.stream, hfresh.call, hfresh.send, fun x hx => ?_⟩,
    { h.reads with }, h.responses⟩
  · rw [isSome_setRequest hr]
    exact h.records.record x
  · rw [request_setRequest] at hx
    split at hx
    · next he =>
      cases hx
      rw [htype, hbody, he]
      exact h.records.called r q hr
    · exact h.records.called x y hx
  · rcases hx with hx | hx
    · rcases hloose x hx with hx | rfl
      · exact h.fresh.under x (Or.inl hx)
      · exact h.fresh.lt_request hr
    · exact h.fresh.under x (Or.inr hx)

theorem Inv.touch (h : s.Inv w p) (hr : s.request r = some q) (q' : RpcRequest)
    (htype : q'.type = q.type)
    (hbody : q'.body = q.body) (hid : q'.id = q.id) (hup : q'.upstream = q.upstream) :
    (s.setRequest r q').Inv w p := by
  refine h.setRequest p.loose hr htype hbody (fun x hx => Or.inl hx) ?_
  have hlink : (s.setRequest r q').link = s.link := by
    funext x
    rw [link_setRequest]
    split
    · next he => rw [he, link_eq hr, hid, hup]
    · rfl
  rw [hlink]
  exact h.links.linked

/-- What a loose request names is of no importance. -/
theorem Inv.retarget (h : s.Inv w p) (hr : s.request r = some q) (hl : r ∈ p.loose)
    (q' : RpcRequest) (htype : q'.type = q.type) (hbody : q'.body = q.body) :
    (s.setRequest r q').Inv w p := by
  refine h.setRequest p.loose hr htype hbody (fun x hx => Or.inl hx) ?_
  refine h.links.linked.settle hl (fun x hx => ?_) (fun x _ => Iff.rfl) (Or.inl hl)
  rw [link_setRequest, if_neg hx]

theorem Inv.settle (h : s.Inv w { p with loose := r :: loose }) (hr : s.request r = some q)
    (hnone : q'.upstream = none) (htype : q'.type = q.type) (hbody : q'.body = q.body) :
    (s.setRequest r q').Inv w { p with loose := loose } := by
  refine h.setRequest loose hr htype hbody
    (fun x hx => Or.inl (List.mem_cons_of_mem r hx)) ?_
  refine h.links.linked.settle (r := r) List.mem_cons_self (fun x hx => ?_) (fun x hx => ?_)
    (Or.inr ?_)
  · rw [link_setRequest, if_neg hx]
  · simp [hx]
  · rw [link_setRequest, if_pos rfl, hnone]
    rfl

theorem Inv.loosen (h : s.Inv w p) (hr : s.request r = some q) (hnone : q.upstream = none) :
    s.Inv w { p with loose := r :: p.loose } := by
  have hlink : s.link r = none := by rw [link_eq hr, hnone]; rfl
  refine ⟨⟨h.links.linked.loosen hlink (fun x _ => rfl) fun x => List.mem_cons, h.links.idle⟩,
    { h.wires with }, { h.records with }, { h.ups with },
    ⟨h.fresh.request, h.fresh.upstream, h.fresh.stream, h.fresh.call, h.fresh.send,
      fun x hx => ?_⟩, { h.reads with }, h.responses⟩
  rcases hx with hx | hx
  · rcases List.mem_cons.mp hx with rfl | hx
    · exact h.fresh.lt_request hr
    · exact h.fresh.under x (Or.inl hx)
  · exact h.fresh.under x (Or.inr hx)

theorem Inv.setTable (h : s.Inv w p) (hu : s.upstream u = some up) {t : AList fun _ : Nat => RpcRef}
    (hst : up.stream.isSome) (hloose : ∀ x ∈ loose, x < s.fresh)
    (hwait : ∀ st k r, up.stream = some st → t.lookup k = some r →
      ∃ f, (sendsOn st s.log)[k]? = some (r, f))
    (hlinked : Linked (s.setUpstream u { up with reqStatus := t }).table s.link (· ∈ loose)) :
    (s.setUpstream u { up with reqStatus := t }).Inv w { p with loose := loose } := by
  have hfresh : (s.setUpstream u { up with reqStatus := t }).Fresh p := h.fresh.setUpstream hu
  have hups : (s.setUpstream u { up with reqStatus := t }).Upstreams p := h.ups.setUpstream hu
  have hof : ∀ v st, (s.setUpstream u { up with reqStatus := t }).StreamOf v st ↔
      s.StreamOf v st := by
    intro v st
    rw [streamOf_setUpstream]
    split
    · next hv =>
      rw [hv, StreamOf, hu]
      simp
    · rfl
  refine ⟨⟨hlinked, fun v vp hv hn => ?_⟩,
    ⟨fun v vp st hv hst => ?_, fun v vp st k r hv hst hk => ?_, fun v st hv => ?_,
      fun st x hx => ?_, h.wires.written, h.wires.closed, h.wires.frames⟩,
    { h.records with }, { hups with },
    ⟨hfresh.request, hfresh.upstream, hfresh.stream, hfresh.call, hfresh.send, fun x hx => ?_⟩,
    { h.reads with }, h.responses⟩
  · rw [upstream_setUpstream] at hv
    split at hv
    · cases hv
      dsimp only at hn
      rw [hn] at hst
      cases hst
    · exact h.links.idle v vp hv hn
  · rw [upstream_setUpstream] at hv
    split at hv
    · cases hv
      exact h.wires.sent u up st hu hst
    · exact h.wires.sent v vp st hv hst
  · rw [upstream_setUpstream] at hv
    split at hv
    · cases hv
      exact hwait st k r hst hk
    · exact h.wires.waiting v vp st k r hv hst hk
  · exact h.wires.stream v st ((hof v st).mp hv)
  · obtain ⟨h1, h2, h3⟩ := h.wires.owner st x hx
    exact ⟨h1, h2, (hof _ _).mpr h3⟩
  · rcases hx with hx | hx
    · exact hloose x hx
    · exact h.fresh.under x (Or.inr hx)

theorem Inv.pull (h : s.Inv w p) (hu : s.upstream u = some up) {k : Nat}
    (hk : up.reqStatus.lookup k = some r) :
    (s.setUpstream u { up with reqStatus := up.reqStatus.erase k }).Inv w
      { p with loose := r :: p.loose } := by
  have htable : s.table u k = some r := (table_eq hu k).trans hk
  have hlink := ((h.links.linked u k r).mp htable).2
  have hst : up.stream.isSome := by
    by_contra hno
    rw [(h.links.idle u up hu (Option.not_isSome_iff_eq_none.mp hno)).1] at hk
    cases hk
  have hlt : r < s.fresh := by
    refine Nat.lt_of_not_le fun hle => ?_
    rw [link, h.fresh.request r hle] at hlink
    cases hlink
  refine h.setTable hu hst (fun x hx => ?_) (fun st l x hs hx => ?_) ?_
  · rcases List.mem_cons.mp hx with rfl | hx
    · exact hlt
    · exact h.fresh.under x (Or.inl hx)
  · by_cases hl : l = k
    · rw [hl, AList.lookup_erase] at hx
      cases hx
    · rw [AList.lookup_erase_ne hl] at hx
      exact h.wires.waiting u up st l x hu hs hx
  · refine h.links.linked.pull htable (fun v l => ?_) fun x => List.mem_cons
    rw [table_setUpstream]
    by_cases hv : v = u
    · rw [if_pos hv]
      by_cases hl : l = k
      · rw [if_pos ⟨hv, hl⟩, hl, AList.lookup_erase]
      · rw [if_neg fun hx => hl hx.2, AList.lookup_erase_ne hl, hv, table_eq hu]
    · rw [if_neg hv, if_neg fun hx => hv hx.1]

theorem Inv.put (h : s.Inv w { p with loose := r :: loose }) (hno : r ∉ loose)
    (hu : s.upstream u = some up) (hr : s.request r = some q) (hup : q.upstream = some u)
    (hfree : q.id ∉ up.reqStatus) {f : Frame} (hst : up.stream = some st)
    (hsent : (sendsOn st s.log)[q.id]? = some (r, f)) :
    (s.setUpstream u { up with reqStatus := up.reqStatus.insert q.id r }).Inv w
      { p with loose := loose } := by
  refine h.setTable hu (by rw [hst]; rfl) (fun x hx => ?_) (fun st' l x hs hx => ?_) ?_
  · exact h.fresh.under x (Or.inl (List.mem_cons_of_mem r hx))
  · by_cases hl : l = q.id
    · rw [hl, AList.lookup_insert] at hx
      cases hx
      rw [hst, Option.some.injEq] at hs
      subst hs hl
      exact ⟨f, hsent⟩
    · rw [AList.lookup_insert_ne hl] at hx
      exact h.wires.waiting u up st' l x hu hs hx
  · refine h.links.linked.put (u := u) (k := q.id) (r := r) List.mem_cons_self ?_ (fun v l => ?_)
      (fun x => ?_) fun x => ?_
    · rw [table_eq hu]
      exact AList.lookup_eq_none.mpr hfree
    · rw [table_setUpstream]
      by_cases hv : v = u
      · rw [if_pos hv]
        by_cases hl : l = q.id
        · rw [if_pos ⟨hv, hl⟩, hl, AList.lookup_insert]
        · rw [if_neg fun hx => hl hx.2, AList.lookup_insert_ne hl, hv, table_eq hu]
      · rw [if_neg hv, if_neg fun hx => hv hx.1]
    · split
      · next he => rw [he, link_eq hr, hup]; rfl
      · rfl
    · constructor
      · intro hx
        exact ⟨fun he => hno (he ▸ hx), List.mem_cons_of_mem r hx⟩
      · rintro ⟨hne, hx⟩
        exact (List.mem_cons.mp hx).resolve_left hne

end Request

section Stream
variable {x : RpcStream} {io : SioStream} {f : Frame}

theorem Fresh.setStream (h : s.Fresh p) (hx : s.stream st = some x) (y : RpcStream) :
    (s.setStream st y).Fresh p := by
  refine ⟨h.request, h.upstream, fun a ha => ?_, h.call, h.send, h.under⟩
  have hlt := h.lt_stream hx
  refine (Function.update_apply ..).trans ?_
  rw [if_neg (by rintro rfl; exact absurd hlt (Nat.not_lt.mpr ha))]
  exact h.stream a ha

/-- A stream does something that adds no bytes, or of which the frames are accounted for
later. -/
theorem Inv.setIo (h : s.Inv w p) (hx : s.openStream st = some x) (hsends : io.Sends)
    (hsfd : io.sfd.isSome) (hwritten : st ∈ p.writing ∨ io.written = x.io.written)
    (hinput : w.input st (sioBufferData io.inbuf)) :
    (s.setStream st { x with io := io }).Inv w p := by
  obtain ⟨hstream, hopen⟩ := openStream_some.mp hx
  have hopens : ∀ st', (s.setStream st { x with io := io }).openStream st' =
      if st' = st then some { x with io := io } else s.openStream st' := by
    intro st'
    rw [openStream_setStream, hopen]
    rfl
  refine ⟨{ h.links with }, ⟨h.wires.sent, h.wires.waiting, fun v st' hv => ?_,
      fun st' y hy => ?_, fun st' y hy hp => ?_, fun hl st' y hy hc hp => ?_, h.wires.frames⟩,
    { h.records with }, { h.ups with }, h.fresh.setStream hstream _,
    ⟨fun st' y hy => ?_, h.reads.unborn⟩, h.responses⟩
  · obtain ⟨y, hy, ha⟩ := h.wires.stream v st' hv
    rw [hopens]
    split
    · next he =>
      rw [he, hx] at hy
      cases hy
      exact ⟨_, rfl, ha⟩
    · exact ⟨y, hy, ha⟩
  · rcases setStream_cases hy with ⟨rfl, rfl⟩ | ⟨-, hy⟩
    · exact ⟨hsends, hsfd, (h.wires.owner st' x hx).2.2⟩
    · exact h.wires.owner st' y hy
  · rcases setStream_cases hy with ⟨rfl, rfl⟩ | ⟨-, hy⟩
    · exact (hwritten.resolve_left hp).trans (h.wires.written st' x hx hp)
    · exact h.wires.written st' y hy hp
  · have hy' : (if st' = st then some { x with io := io } else s.stream st') = some y := by
      rw [← hy]
      exact (Function.update_apply ..).symm
    split at hy'
    · cases hy'
      rw [hopen] at hc
      cases hc
    · exact h.wires.closed hl st' y hy' hc hp
  · rcases setStream_cases hy with ⟨rfl, rfl⟩ | ⟨-, hy⟩
    · exact hinput
    · exact h.reads.input st' y hy

theorem sendsOn_send (st st' : RpcRef) (r : RpcRef) (f : Frame) :
    sendsOn st' [.send r st f] = if st = st' then [(r, f)] else [] := by
  unfold sendsOn
  by_cases h : st = st' <;> simp [h]

theorem called_append_of_not {log more : List ClientEvent} (hno : ¬ Called r more) :
    Called r (log ++ more) ↔ Called r log := by
  rw [Called, List.any_append, Bool.or_eq_true]
  exact or_iff_left hno

theorem sendsOn_send_ne {st' : RpcRef} (hne : st' ≠ st) (f : Frame) (log : List ClientEvent) :
    sendsOn st' (log ++ [.send r st f]) = sendsOn st' log := by
  rw [sendsOn_append, sendsOn_send, if_neg hne.symm, List.append_nil]

theorem called_send (x : RpcRef) (f : Frame) (log : List ClientEvent) :
    Called x (log ++ [.send r st f]) ↔ Called x log :=
  called_append_of_not (by simp [Called, ClientEvent.calls])

/-- A frame is noted on its stream, with the next id, and its bytes are still to be written. -/
theorem Wires.noteSend (h : s.Wires w p) (hu : s.upstream u = some up) (hst : up.stream = some st)
    {f : Frame} (hid : f.head.id = UInt64.ofNat up.reqId)
    (hlen : f.head.bodyLen = UInt32.ofNat f.body.length)
    (hcall : .call r f.head.type f.body ∈ s.log) :
    ((s.setUpstream u { up with reqId := up.reqId + 1 }).note (.send r st f)).Wires w
      { p with writing := st :: p.writing } := by
  have hcount := h.sent u up st hu hst
  have hwires : ∀ st', st' ≠ st → wiresOn w.order st' (s.log ++ [.send r st f]) =
      wiresOn w.order st' s.log := by
    intro st' hne
    rw [wiresOn, sendsOn_send_ne hne]
    rfl
  have hup : ∀ v vp, ((s.setUpstream u { up with reqId := up.reqId + 1 }).note
      (.send r st f)).upstream v = some vp →
        v = u ∧ vp = { up with reqId := up.reqId + 1 } ∨ v ≠ u ∧ s.upstream v = some vp :=
    fun _ _ hv => setUpstream_cases hv
  have hofs : ∀ v st', ((s.setUpstream u { up with reqId := up.reqId + 1 }).note
      (.send r st f)).StreamOf v st' ↔ s.StreamOf v st' :=
    fun v _ => streamOf_setUpstream_of_eq hu { up with reqId := up.reqId + 1 } rfl v
  refine ⟨fun v vp st' hv hs => ?_, fun v vp st' k x hv hs hk => ?_, fun v st' hv => ?_,
    fun st' y hy => ?_, fun st' y hy hp => ?_, fun hlast st' y hy hc hp => ?_,
    fun st' i x g hg => ?_⟩
  · rcases hup v vp hv with ⟨-, rfl⟩ | ⟨hne, hv1⟩
    · obtain rfl := Option.some.inj (hst.symm.trans hs)
      change up.reqId + 1 = (sendsOn st (s.log ++ [.send r st f])).length
      rw [sendsOn_append, sendsOn_send, if_pos rfl, List.length_append, hcount]
      rfl
    · have hne' : st' ≠ st := by
        rintro rfl
        exact hne (h.inj ⟨vp, hv1, hs⟩ ⟨up, hu, hst⟩)
      rw [h.sent v vp st' hv1 hs]
      exact congrArg List.length (sendsOn_send_ne hne' f s.log).symm
  · have hold : ∃ g, (sendsOn st' s.log)[k]? = some (x, g) := by
      rcases hup v vp hv with ⟨-, rfl⟩ | ⟨-, hv⟩
      · exact h.waiting u up st' k x hu hs hk
      · exact h.waiting v vp st' k x hv hs hk
    obtain ⟨g, hg⟩ := hold
    exact ⟨g, sendsOn_get hg⟩
  · exact h.stream v st' ((hofs v st').mp hv)
  · obtain ⟨h1, h2, h3⟩ := h.owner st' y hy
    exact ⟨h1, h2, (hofs _ _).mpr h3⟩
  · rw [List.mem_cons, not_or] at hp
    exact (h.written st' y hy hp.2).trans (hwires st' hp.1).symm
  · rw [List.mem_cons, not_or] at hp
    have hsock := h.closed hlast st' y hy hc hp.2
    rw [← hwires st' hp.1] at hsock
    exact hsock
  · change (sendsOn st' (s.log ++ [.send r st f]))[i]? = some (x, g) at hg
    have hkept : (sendsOn st' s.log)[i]? = some (x, g) → g.head.id = UInt64.ofNat i ∧
        g.head.bodyLen = UInt32.ofNat g.body.length ∧
        .call x g.head.type g.body ∈ s.log ++ [.send r st f] := by
      intro hg
      obtain ⟨h1, h2, h3⟩ := h.frames st' i x g hg
      exact ⟨h1, h2, List.mem_append_left _ h3⟩
    by_cases hne : st' = st
    · rw [hne] at hg hkept
      rw [sendsOn_append, sendsOn_send, if_pos rfl] at hg
      rcases lt_or_ge i (sendsOn st s.log).length with hi | hi
      · rw [List.getElem?_append_left hi] at hg
        exact hkept hg
      · rw [List.getElem?_append_right hi, List.getElem?_singleton] at hg
        split at hg
        · cases hg
          have hi' : i = up.reqId := by omega
          exact ⟨hi' ▸ hid, hlen, List.mem_append_left _ hcall⟩
        · cases hg
    · rw [sendsOn_send_ne hne] at hg
      exact hkept hg

theorem Records.noteSend (h : s.Records p) (f : Frame) : (s.note (.send r st f)).Records p := by
  refine ⟨h.nodup, h.record, h.armed, fun x y hx => ?_, fun x => ?_, fun x => ?_⟩
  · exact List.mem_append_left _ (h.called x y hx)
  · exact (List.countP_append ..).trans_le (h.once x)
  · have hcount : (s.log ++ [ClientEvent.send r st f]).countP (ClientEvent.answers x) =
        s.log.countP (ClientEvent.answers x) := by
      rw [List.countP_append]
      rfl
    refine hcount.trans ((h.answers x).trans (if_congr ?_ rfl rfl))
    exact and_congr_left' (called_send x f s.log).symm

theorem Fresh.noteSend (h : s.Fresh p) {x : RpcStream} (hx : s.stream st = some x) (f : Frame) :
    (s.note (.send r st f)).Fresh p := by
  refine ⟨h.request, h.upstream, h.stream, fun r hr => h.call r ((called_send r f s.log).mp hr),
    fun st' hst' => ?_, h.under⟩
  have hne : st' ≠ st := by
    rintro rfl
    exact absurd (h.lt_stream hx) (Nat.not_lt.mpr hst')
  exact (sendsOn_send_ne hne f s.log).trans (h.send st' hst')

theorem Inv.beginSend (h : s.Inv w p) (hu : s.upstream u = some up) (hst : up.stream = some st)
    (hr : s.request r = some q) (hl : r ∈ p.loose) :
    (((s.setRequest r { q with id := up.reqId }).setUpstream u
        { up with reqId := up.reqId + 1 }).note
      (.send r st ⟨sioRpcCallHead up.reqId q, q.body⟩)).Inv w
        { p with writing := st :: p.writing } := by
  have h1 : (s.setRequest r { q with id := up.reqId }).Inv w p := h.retarget hr hl _ rfl rfl
  have hcall := h.records.called r q hr
  obtain ⟨x, hx, -⟩ := h.wires.stream u st ⟨up, hu, hst⟩
  generalize hs1 : s.setRequest r { q with id := up.reqId } = s1 at h1 ⊢
  have hu1 : s1.upstream u = some up := by rw [← hs1]; exact hu
  have hx1 : s1.stream st = some x := by rw [← hs1]; exact (openStream_some.mp hx).1
  rw [show s.log = s1.log by rw [← hs1]; rfl] at hcall
  have hfresh : (s1.setUpstream u { up with reqId := up.reqId + 1 }).Fresh p :=
    h1.fresh.setUpstream hu1
  have hups : (s1.setUpstream u { up with reqId := up.reqId + 1 }).Upstreams p :=
    h1.ups.setUpstream hu1
  refine ⟨⟨?_, fun v vp hv hn => ?_⟩, h1.wires.noteSend hu1 hst rfl rfl hcall,
    { h1.records.noteSend _ with }, { hups with }, { hfresh.noteSend hx1 _ with },
    { h1.reads with }, fun x st' g hg => ?_⟩
  · have htable := table_setUpstream_of_eq hu1 { up with reqId := up.reqId + 1 } rfl
    have hlinked := h1.links.linked
    rw [← htable] at hlinked
    exact hlinked
  · rcases setUpstream_cases (show (s1.setUpstream u _).upstream v = _ from hv) with
      ⟨-, rfl⟩ | ⟨-, hv⟩
    · rw [hst] at hn
      cases hn
    · exact h1.links.idle v vp hv hn
  · have hg' : ClientEvent.response x st' g ∈ s1.log := by
      rcases List.mem_append.mp hg with hg | hg
      · exact hg
      · simp at hg
    obtain ⟨h2, f', h3, h4⟩ := h1.responses x st' g hg'
    exact ⟨h2, f', sendsOn_get h3, h4⟩

theorem Inv.endSend (h : s.Inv w { p with writing := st :: p.writing })
    (hopen : ∀ x, s.openStream st = some x → x.io.written = wiresOn w.order st s.log)
    (hclosed : w.lasting → ∀ x, s.stream st = some x → x.closed →
      x.io.sock <+: wiresOn w.order st s.log) : s.Inv w p := by
  refine ⟨{ h.links with }, ⟨h.wires.sent, h.wires.waiting, h.wires.stream, h.wires.owner,
    fun st' x hx hp => ?_, fun hl st' x hx hc hp => ?_, h.wires.frames⟩, { h.records with },
    { h.ups with }, { h.fresh with }, { h.reads with }, h.responses⟩
  · by_cases hne : st' = st
    · rw [hne] at hx ⊢
      exact hopen x hx
    · exact h.wires.written st' x hx (by simp [hne, hp])
  · by_cases hne : st' = st
    · rw [hne] at hx ⊢
      exact hclosed hl x hx hc
    · exact h.wires.closed hl st' x hx hc (by simp [hne, hp])

end Stream

end RpcClient
end SimpleKit
