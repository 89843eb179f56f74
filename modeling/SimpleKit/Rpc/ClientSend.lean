import SimpleKit.Rpc.Choose
import SimpleKit.Rpc.ClientReset

set_option autoImplicit false

namespace SimpleKit
open Linking
open RpcClient

/-- The kernel takes at most what it is given, and, if it is one for which failures last,
refuses a body after it has refused the header. -/
structure RpcEnv.Ok (lasting : Prop) (size : Nat) (env : RpcEnv) : Prop where
  head : WroteAtMost sheadEncodeSize env.head
  body : WroteAtMost size env.body
  lasts : lasting → env.head = .error .other → env.body = .error .other

def RpcEnv.NoFail (env : RpcEnv) : Prop := env.head ≠ .error .other ∧ env.body ≠ .error .other

/-- What goes on about the streams leaves the requests where they are. -/
structure RpcClient.SameRecords (s s' : RpcClient) : Prop where
  request : s'.request = s.request
  reqRecord : s'.reqRecord = s.reqRecord
  upstreams : s'.upstreams = s.upstreams

/-- Streams stay as they are to those who read from them, but for `lost` ones, which are
closed; and no address is used again. -/
structure RpcClient.KeepsBut (lost : RpcRef → Prop) (s s' : RpcClient) : Prop where
  streamOf : ∀ u st, s.StreamOf u st → ¬ lost st → s'.StreamOf u st
  inbuf : ∀ st x, s.openStream st = some x → ¬ lost st →
    ∃ x', s'.openStream st = some x' ∧ x'.io.inbuf = x.io.inbuf
  gone : ∀ st < s.fresh, s.openStream st = none ∨ lost st → s'.openStream st = none
  fresh : s.fresh ≤ s'.fresh

def RpcClient.KeepsStreams (s s' : RpcClient) : Prop := s.KeepsBut (fun _ => False) s'

def RpcEnv.Refused (env : RpcEnv) (io : SioStream) : Prop :=
  io.Direct ∧ (env.head = .error .other ∨
    env.head = .ok sheadEncodeSize ∧ env.body = .error .other)

theorem RpcEnv.NoFail.not_refused {env : RpcEnv} (h : env.NoFail) (io : SioStream) :
    ¬ env.Refused io := fun hr => hr.2.elim h.1 fun hb => h.2 hb.2

def RpcEnv.Loses (env : RpcEnv) (s : RpcClient) (st st' : RpcRef) : Prop :=
  st' = st ∧ ∃ x, s.openStream st = some x ∧ env.Refused x.io

variable {w : RpcView} {p : Underway} {s : RpcClient} {u r st : RpcRef} {up : RpcUpstream}
  {q : RpcRequest} {loose : List RpcRef}

theorem RpcClient.KeepsStreams.refl (s : RpcClient) : s.KeepsStreams s :=
  ⟨fun _ _ h _ => h, fun _ x h _ => ⟨x, h, rfl⟩, fun _ _ h => h.elim id False.elim, Nat.le_refl _⟩

theorem RpcClient.KeepsStreams.trans {s s1 s2 : RpcClient} {lost : RpcRef → Prop}
    (h1 : s.KeepsStreams s1) (h2 : s1.KeepsBut lost s2) : s.KeepsBut lost s2 := by
  refine ⟨fun u st h hl => h2.streamOf u st (h1.streamOf u st h id) hl, fun st x hx hl => ?_,
    fun st hst hg => ?_, Nat.le_trans h1.fresh h2.fresh⟩
  · obtain ⟨x1, hx1, hin1⟩ := h1.inbuf st x hx id
    obtain ⟨x2, hx2, hin2⟩ := h2.inbuf st x1 hx1 hl
    exact ⟨x2, hx2, hin2.trans hin1⟩
  · refine h2.gone st (Nat.lt_of_lt_of_le hst h1.fresh) (hg.imp_left fun hn => ?_)
    exact h1.gone st hst (Or.inl hn)

theorem RpcClient.KeepsBut.then {s s1 s2 : RpcClient} {lost : RpcRef → Prop}
    (h1 : s.KeepsBut lost s1) (h2 : s1.KeepsStreams s2) : s.KeepsBut lost s2 := by
  refine ⟨fun u st h hl => h2.streamOf u st (h1.streamOf u st h hl) id, fun st x hx hl => ?_,
    fun st hst hg => ?_, Nat.le_trans h1.fresh h2.fresh⟩
  · obtain ⟨x1, hx1, hin1⟩ := h1.inbuf st x hx hl
    obtain ⟨x2, hx2, hin2⟩ := h2.inbuf st x1 hx1 id
    exact ⟨x2, hx2, hin2.trans hin1⟩
  · exact h2.gone st (Nat.lt_of_lt_of_le hst h1.fresh) (Or.inl (h1.gone st hst hg))

theorem RpcClient.KeepsBut.congr {s s' : RpcClient} {lost lost' : RpcRef → Prop}
    (h : s.KeepsBut lost s') (hiff : ∀ st, lost' st ↔ lost st) : s.KeepsBut lost' s' :=
  (funext fun st => propext (hiff st) : lost' = lost) ▸ h

theorem RpcClient.KeepsStreams.of_stream {s s' : RpcClient} (hstream : s'.stream = s.stream)
    (hof : ∀ u st, s.StreamOf u st → s'.StreamOf u st) (hfresh : s.fresh ≤ s'.fresh) :
    s.KeepsStreams s' := by
  have hopen : ∀ st, s'.openStream st = s.openStream st := by
    intro st
    rw [openStream, hstream, openStream]
  exact ⟨fun u st h _ => hof u st h, fun st x hx _ => ⟨x, (hopen st).trans hx, rfl⟩,
    fun st _ hg => (hopen st).trans (hg.elim id False.elim), hfresh⟩

section Connect

theorem sioRpcUpstreamConnect_spec (h : s.Inv w p) (hu : s.upstream u = some up)
    (hnone : up.stream = none) (env : RpcEnv) :
    ∃ s' ok, sioRpcUpstreamConnect s u env = some (s', ok) ∧ s'.Inv w p ∧ s.SameRecords s' ∧
      s.KeepsStreams s' ∧ (ok = true → ∃ st, s'.StreamOf u st) := by
  have hkeep : ∀ v st, s.StreamOf v st → v ≠ u := by
    rintro v st hv rfl
    have hst := hv.upstream hu
    rw [hnone] at hst
    cases hst
  simp only [sioRpcUpstreamConnect, hu, Option.bind_eq_bind, Option.bind_some]
  cases hio : sioStreamConnect env.connect with
  | none =>
    refine ⟨_, false, rfl, h.setUpstream hu hnone.symm rfl rfl, ⟨rfl, rfl, rfl⟩,
      .of_stream rfl (fun v st hv => ?_) (Nat.le_refl _), nofun⟩
    exact streamOf_setUpstream.mpr ((if_neg (hkeep v st hv)).mpr hv)
  | some io =>
    refine ⟨_, true, rfl, h.opened hu hnone hio rfl rfl rfl, ⟨rfl, rfl, rfl⟩,
      ⟨fun v st hv _ => ?_, fun st x hx _ => ⟨x, ?_, rfl⟩, fun st hst hg => ?_, Nat.le_succ _⟩,
      fun _ => ⟨s.fresh, ?_⟩⟩
    · exact streamOf_setUpstream.mpr ((if_neg (hkeep v st hv)).mpr hv)
    · have hne : st ≠ s.fresh := Nat.ne_of_lt (h.fresh.lt_stream (openStream_some.mp hx).1)
      exact (openStream_setStream ..).trans ((if_neg hne).trans hx)
    · exact (openStream_setStream ..).trans
        ((if_neg (Nat.ne_of_lt hst)).trans (hg.elim id False.elim))
    · exact streamOf_setUpstream.mpr ((if_pos rfl).mpr rfl)

theorem RpcClient.Upstreams.arrayOk (h : s.Upstreams p) (hgone : p.gone = []) : s.ArrayOk :=
  fun u hu => (h.array u).mpr (Or.inl ⟨hu, by rw [hgone]; exact List.not_mem_nil⟩)

theorem RpcClient.Inv.rrStream (h : s.Inv w p) (n : UInt32) : { s with rrStream := n }.Inv w p :=
  ⟨{ h.links with }, { h.wires with }, { h.records with }, { h.ups with }, { h.fresh with },
    { h.reads with }, h.responses⟩

theorem sioRpcChooseUpstream_spec (h : s.Inv w p) (hgone : p.gone = []) (env : RpcEnv) :
    ∃ s' found, sioRpcChooseUpstream s env = some (s', found) ∧ s'.Inv w p ∧ s.SameRecords s' ∧
      s.KeepsStreams s' ∧ ∀ u, found = some u → ∃ st, s'.StreamOf u st := by
  have h1 : s.rotated.Inv w p := h.rrStream (s.rrStream + 1)
  have hsame : s.SameRecords s.rotated := ⟨rfl, rfl, rfl⟩
  have hkeep : s.KeepsStreams s.rotated := .of_stream rfl (fun _ _ hv => hv) (Nat.le_refl _)
  have hload : ∀ u, u ∈ s.upstreams → ∃ up, s.rotated.upstream u = some up ∧
      (s.load u = none → up.stream = none) ∧
      (∀ n, s.load u = some n → ∃ st, s.rotated.StreamOf u st) := by
    intro u hu
    obtain ⟨up, hup⟩ := Option.isSome_iff_exists.mp (h.ups.arrayOk hgone u hu)
    rw [RpcClient.load_eq hup]
    refine ⟨up, hup, fun hno => ?_, fun n hn => ?_⟩
    · cases hst : up.stream with
      | none => rfl
      | some st =>
        rw [hst] at hno
        cases hno
    · cases hst : up.stream with
      | none =>
        rw [hst] at hn
        cases hn
      | some st => exact ⟨st, up, hup, hst⟩
  rcases sioRpcChooseUpstream_cases (h.ups.arrayOk hgone) env with
    ⟨i, hi, u, n, hget, hu, hn, -, hrun⟩ | ⟨hnone, ⟨-, hrun⟩ | ⟨u, hu, hget, hrun⟩⟩
  · obtain ⟨-, -, -, hof⟩ := hload u hu
    refine ⟨s.rotated, some u, hrun, h1, hsame, hkeep, ?_⟩
    rintro _ ⟨⟩
    exact hof n hn
  · exact ⟨s.rotated, none, hrun, h1, hsame, hkeep, nofun⟩
  · obtain ⟨up, hup, hst, -⟩ := hload u hu
    have hpos : 0 < s.upstreams.length := List.length_pos_of_mem hu
    obtain ⟨s2, ok, hcon, h2, hsame2, hkeep2, hok⟩ :=
      sioRpcUpstreamConnect_spec h1 hup (hst (hnone 0 hpos u hget)) env
    refine ⟨s2, if ok then some u else none, by rw [hrun, hcon]; rfl, h2,
      ⟨hsame2.request.trans hsame.request, hsame2.reqRecord.trans hsame.reqRecord,
        hsame2.upstreams.trans hsame.upstreams⟩, hkeep.trans hkeep2, fun v hv => ?_⟩
    cases ok with
    | false => cases hv
    | true =>
      cases hv
      exact hok rfl

end Connect

section Call

theorem RpcClient.writeStream_eq {x : RpcStream} (hx : s.openStream st = some x)
    {data : List UInt8} {write : Except Errno Nat} {io : SioStream} {ret : Int}
    (hw : sioStreamWrite x.io data write = some (io, ret)) :
    s.writeStream st data write = some (s.setStream st { x with io := io }, ret) := by
  simp only [writeStream, hx, hw, Option.bind_eq_bind, Option.bind_some]

theorem RpcClient.setStream_setStream (s : RpcClient) (st : RpcRef) (x y : RpcStream) :
    (s.setStream st x).setStream st y = s.setStream st y := by
  unfold setStream
  simp only [Function.update_idem]

def RpcClient.sending (s : RpcClient) (u r st : RpcRef) (up : RpcUpstream) (q : RpcRequest) :
    RpcClient :=
  ((s.setRequest r { q with id := up.reqId }).setUpstream u
    { up with reqId := up.reqId + 1 }).note (.send r st ⟨sioRpcCallHead up.reqId q, q.body⟩)

theorem RpcClient.sending_upstream (s : RpcClient) (u r st : RpcRef) (up : RpcUpstream)
    (q : RpcRequest) :
    (s.sending u r st up q).upstream u = some { up with reqId := up.reqId + 1 } :=
  Function.update_self ..

theorem RpcClient.sending_request (s : RpcClient) (u r st : RpcRef) (up : RpcUpstream)
    (q : RpcRequest) : (s.sending u r st up q).request r = some { q with id := up.reqId } :=
  Function.update_self ..

theorem RpcClient.sending_fresh (s : RpcClient) (u r st : RpcRef) (up : RpcUpstream)
    (q : RpcRequest) : (s.sending u r st up q).fresh = s.fresh := rfl

theorem RpcClient.setStream_fresh (s : RpcClient) (st : RpcRef) (x : RpcStream) :
    (s.setStream st x).fresh = s.fresh := rfl

theorem RpcClient.setUpstream_fresh (s : RpcClient) (u : RpcRef) (up : RpcUpstream) :
    (s.setUpstream u up).fresh = s.fresh := rfl

theorem RpcClient.sending_streamOf (st : RpcRef) (hu : s.upstream u = some up) {v st' : RpcRef} :
    (s.sending u r st up q).StreamOf v st' ↔ s.StreamOf v st' := by
  refine streamOf_setUpstream.trans ?_
  split
  · next hv =>
    rw [hv, StreamOf, hu]
    simp
  · exact Iff.rfl

theorem RpcClient.sending_sends (s : RpcClient) (u r st : RpcRef) (up : RpcUpstream)
    (q : RpcRequest) : sendsOn st (s.sending u r st up q).log =
      sendsOn st s.log ++ [(r, ⟨sioRpcCallHead up.reqId q, q.body⟩)] := by
  refine (sendsOn_append st s.log _).trans ?_
  rw [sendsOn_send, if_pos rfl]

theorem RpcClient.Inv.sending_wires (h : s.Inv w p) (hwr : p.writing = []) {x : RpcStream}
    (hx : s.openStream st = some x) (u r : RpcRef) (up : RpcUpstream) (q : RpcRequest) :
    wiresOn w.order st (s.sending u r st up q).log = x.io.written ++
      ((sheadEncode w.order (sioRpcCallHead up.reqId q) (List.replicate sheadEncodeSize 0)).1 ++
        q.body) := by
  rw [h.wires.written st x hx (by rw [hwr]; exact List.not_mem_nil), wiresOn,
    sending_sends, List.map_append, List.flatten_append]
  simp only [List.map_cons, List.map_nil, List.flatten_singleton, frameWire, wiresOn]

/-- No id of a request that waits is used again. -/
theorem RpcClient.Wires.id_free (h : s.Wires w p) (hu : s.upstream u = some up)
    (hst : up.stream = some st) : up.reqId ∉ up.reqStatus := by
  intro hmem
  obtain ⟨x, hx⟩ := Option.isSome_iff_exists.mp (AList.lookup_isSome.mpr hmem)
  obtain ⟨f, hf⟩ := h.waiting u up st up.reqId x hu hst hx
  have hlt := (List.getElem?_eq_some_iff.mp hf).1
  rw [← h.sent u up st hu hst] at hlt
  exact absurd hlt (Nat.lt_irrefl _)

theorem RpcClient.Inv.sent (h : s.Inv w { p with loose := r :: loose }) (hno : r ∉ loose)
    (hwr : p.writing = []) (hu : s.upstream u = some up) (hst : up.stream = some st)
    (hr : s.request r = some q) (hup : q.upstream = some u) {x : RpcStream} {io : SioStream}
    (hx : s.openStream st = some x) (hsends : io.Sends) (hsfd : io.sfd.isSome)
    (hinbuf : io.inbuf = x.io.inbuf)
    (hwritten : io.written = wiresOn w.order st (s.sending u r st up q).log) :
    (((s.sending u r st up q).setStream st { x with io := io }).setUpstream u
      { up with reqId := up.reqId + 1, reqStatus := up.reqStatus.insert up.reqId r }).Inv w
        { p with loose := loose } := by
  have hfree := h.wires.id_free hu hst
  have hlen := h.wires.sent u up st hu hst
  have h1 : (s.sending u r st up q).Inv w { p with loose := r :: loose, writing := [st] } := by
    have hb := h.beginSend hu hst hr List.mem_cons_self
    rwa [hwr] at hb
  have hx1 : (s.sending u r st up q).openStream st = some x := hx
  have h2 := h1.setIo hx1 hsends hsfd (Or.inl List.mem_cons_self)
    (hinbuf ▸ h.reads.input st x hx)
  have hu2 : ((s.sending u r st up q).setStream st { x with io := io }).upstream u =
    some { up with reqId := up.reqId + 1 } := sending_upstream s u r st up q
  have hr2 : ((s.sending u r st up q).setStream st { x with io := io }).request r =
    some { q with id := up.reqId } := sending_request s u r st up q
  have hsent : (sendsOn st
      ((s.sending u r st up q).setStream st { x with io := io }).log)[up.reqId]? =
      some (r, ⟨sioRpcCallHead up.reqId q, q.body⟩) := by
    refine (congrArg (·[up.reqId]?) (sending_sends s u r st up q)).trans ?_
    rw [hlen, List.getElem?_append_right (Nat.le_refl _), Nat.sub_self]
    rfl
  have h3 := RpcClient.Inv.put (p := { p with writing := [st] }) h2 hno hu2 hr2 hup hfree hst hsent
  have h4 : (((s.sending u r st up q).setStream st { x with io := io }).setUpstream u
      { up with reqId := up.reqId + 1, reqStatus := up.reqStatus.insert up.reqId r }).Inv w
        { p with loose := loose, writing := [] } := by
    refine RpcClient.Inv.endSend (p := { p with loose := loose, writing := [] }) h3
      (fun y hy => ?_) fun _ y hy hc => ?_
    · have hy' := (openStream_setStream ..).symm.trans hy
      rw [if_pos rfl] at hy'
      have hopen := (openStream_some.mp hx).2
      simp only [hopen, Bool.false_eq_true, if_false, Option.some.injEq] at hy'
      rw [← hy']
      exact hwritten
    · have hy' : some { x with io := io } = some y :=
        (Function.update_self st _ (s.sending u r st up q).stream).symm.trans hy
      cases hy'
      rw [(openStream_some.mp hx).2] at hc
      cases hc
  rwa [← hwr] at h4

theorem RpcClient.Inv.refused (h : s.Inv w { p with loose := r :: loose })
    (hwr : p.writing = []) (hu : s.upstream u = some up) (hst : up.stream = some st)
    (hr : s.request r = some q) {x : RpcStream} {io : SioStream}
    (hx : s.openStream st = some x) (hsends : io.Sends) (hsfd : io.sfd.isSome)
    (hinbuf : io.inbuf = x.io.inbuf)
    (hsock : w.lasting → io.sock <+: wiresOn w.order st (s.sending u r st up q).log)
    (env : RpcEnv) :
    ∃ s', sioRpcResetUpstream ((s.sending u r st up q).setStream st { x with io := io }) u env =
      some s' ∧ s'.Inv w { p with loose := r :: loose } ∧ s'.reqRecord = s.reqRecord ∧
        s.KeepsBut (· = st) s' := by
  have h1 : (s.sending u r st up q).Inv w { p with loose := r :: loose, writing := [st] } := by
    have hb := h.beginSend hu hst hr List.mem_cons_self
    rwa [hwr] at hb
  have hx1 : (s.sending u r st up q).openStream st = some x := hx
  have h2 := h1.setIo hx1 hsends hsfd (Or.inl List.mem_cons_self)
    (hinbuf ▸ h.reads.input st x hx)
  have hu2 : ((s.sending u r st up q).setStream st { x with io := io }).upstream u =
    some { up with reqId := up.reqId + 1 } := sending_upstream s u r st up q
  have hx2 : ((s.sending u r st up q).setStream st { x with io := io }).openStream st =
      some { x with io := io } := by
    rw [openStream_setStream, if_pos rfl, (openStream_some.mp hx).2]
    rfl
  obtain ⟨x2, hx2', hreset⟩ := sioRpcResetUpstream_eq h2 hu2 hst env
  obtain rfl := Option.some.inj (hx2.symm.trans hx2')
  generalize sioRpcConnDelay { up with reqId := up.reqId + 1 } env.closeTime = delay at hreset
  have hopens : ∀ a, (((s.sending u r st up q).setStream st { x with io := io }).disconnected u st
      { x with io := io } { up with reqId := up.reqId + 1 } delay).openStream a =
        if a = st then none else s.openStream a := by
    intro a
    rw [disconnected_openStream, openStream_setStream]
    split
    · rfl
    · rfl
  have hlost : s.KeepsBut (· = st) (((s.sending u r st up q).setStream st
      { x with io := io }).disconnected u st { x with io := io }
        { up with reqId := up.reqId + 1 } delay) := by
    refine ⟨fun v st' hv hne => ?_, fun st' y hy hne => ⟨y, ?_, rfl⟩, fun st' _ hg => ?_, ?_⟩
    · refine disconnected_streamOf.mpr ⟨?_, (sending_streamOf st hu).mpr hv⟩
      rintro rfl
      exact hne (Option.some.inj ((hv.upstream hu).symm.trans hst))
    · rw [hopens, if_neg hne, hy]
    · rw [hopens]
      split
      · rfl
      · next hne => exact hg.resolve_right hne
    · rw [disconnected_fresh, setStream_fresh, sending_fresh]
  refine ⟨_, hreset, ?_, disconnected_reqRecord .., hlost⟩
  have h3 := h2.disconnected hu2 hst hx2 delay
  have h4 : (((s.sending u r st up q).setStream st { x with io := io }).disconnected u st
      { x with io := io } { up with reqId := up.reqId + 1 } delay).Inv w
        { p with loose := r :: loose, writing := [] } := by
    refine RpcClient.Inv.endSend (p := { p with loose := r :: loose, writing := [] }) h3
      (fun y hy => ?_) fun hl y hy _ => ?_
    · have hy' := (openStream_setStream ..).symm.trans hy
      rw [if_pos rfl, if_pos rfl] at hy'
      cases hy'
    · have hy' : some { x with io := io, closed := true } = some y :=
        (Function.update_self st _ ((s.sending u r st up q).setStream st
          { x with io := io }).stream).symm.trans hy
      cases hy'
      exact hsock hl
  rwa [← hwr] at h4

theorem sioRpcCallOn_eq (e : ByteOrder) (hu : s.upstream u = some up) (hst : up.stream = some st)
    (hr : s.request r = some q) (env : RpcEnv) :
    sioRpcCallOn e s u r env = (do
      let (s, sentHead) ← (s.sending u r st up q).writeStream st
        (sheadEncode e (sioRpcCallHead up.reqId q) (List.replicate sheadEncodeSize 0)).1 env.head
      let (s, sentBody) ← s.writeStream st q.body env.body
      if sentHead = 0 ∧ sentBody = 0 then
        let up' ← s.upstream u
        if up.reqId ∈ up'.reqStatus then none
        else some (s.setUpstream u { up' with reqStatus := up'.reqStatus.insert up.reqId r }, 0)
      else
        let s ← sioRpcResetUpstream s u env
        some (s, -1)) := by
  cases up
  cases hst
  simp only [sioRpcCallOn, hu, hr, Option.bind_eq_bind, Option.bind_some]
  rfl

theorem sioRpcCallOn_spec (h : s.Inv w { p with loose := r :: loose }) (hno : r ∉ loose)
    (hwr : p.writing = []) (hof : s.StreamOf u st) (hr : s.request r = some q)
    (hup : q.upstream = some u) {env : RpcEnv} (henv : env.Ok w.lasting q.body.length) :
    ∃ s' ret, sioRpcCallOn w.order s u r env = some (s', ret) ∧ s'.reqRecord = s.reqRecord ∧
      (ret = 0 ∧ s'.Inv w { p with loose := loose } ∨
        ret = -1 ∧ s'.Inv w { p with loose := r :: loose }) ∧
      s.KeepsBut (env.Loses s st) s' := by
  obtain ⟨up, hu, hst⟩ := hof
  obtain ⟨x, hx, -⟩ := h.wires.stream u st ⟨up, hu, hst⟩
  obtain ⟨hsends, hsfd, -⟩ := h.wires.owner st x hx
  have hwires := h.sending_wires hwr hx u r up q
  have hlen := length_sheadEncode w.order (sioRpcCallHead up.reqId q)
  obtain ⟨io1, ret1, io2, ret2, hrun1, hrun2, htwo⟩ := hsends.writeTwo hsfd q.body
    (List.ne_nil_of_length_pos (by rw [hlen]; decide)) (by rw [hlen]; exact henv.head) henv.body
  have hx1 : (s.sending u r st up q).openStream st = some x := hx
  have hx2 : ((s.sending u r st up q).setStream st { x with io := io1 }).openStream st =
      some { x with io := io1 } := by
    rw [openStream_setStream, if_pos rfl, (openStream_some.mp hx).2]
    rfl
  have hwrite1 := writeStream_eq hx1 hrun1
  have hwrite2 : ((s.sending u r st up q).setStream st { x with io := io1 }).writeStream st q.body
      env.body = some ((s.sending u r st up q).setStream st { x with io := io2 }, ret2) := by
    rw [writeStream_eq hx2 hrun2, setStream_setStream]
  have hu5 : ((s.sending u r st up q).setStream st { x with io := io2 }).upstream u =
    some { up with reqId := up.reqId + 1 } := sending_upstream s u r st up q
  rw [sioRpcCallOn_eq w.order hu hst hr]
  simp only [hwrite1, hwrite2, Option.bind_eq_bind, Option.bind_some]
  have hx5 : ((s.sending u r st up q).setStream st { x with io := io2 }).openStream st =
      some { x with io := io2 } := by
    rw [openStream_setStream, if_pos rfl, (openStream_some.mp hx).2]
    rfl
  have hrefused : ¬ (ret1 = 0 ∧ ret2 = 0) ↔ env.Refused x.io := by
    rw [htwo.refused_iff, hlen]
    exact Iff.rfl
  by_cases hok : ret1 = 0 ∧ ret2 = 0
  · simp only [if_pos hok, hu5, Option.bind_some, if_neg (h.wires.id_free hu hst)]
    have hno' : ∀ st', ¬ env.Loses s st st' := by
      rintro _ ⟨-, y, hy, hr⟩
      obtain rfl := Option.some.inj (hx.symm.trans hy)
      exact hrefused.mpr hr hok
    refine ⟨_, 0, rfl, rfl, Or.inl ⟨rfl, ?_⟩,
      ⟨fun v st' hv _ => ?_, fun st' y hy _ => ?_, fun st' _ hg => ?_, ?_⟩⟩
    · exact h.sent hno hwr hu hst hr hup hx htwo.sends htwo.sfd htwo.inbuf
        ((htwo.whole hok.1 hok.2).trans hwires.symm)
    · refine streamOf_setUpstream.mpr ?_
      split
      · next he =>
        rw [he] at hv
        exact (hv.upstream hu : up.stream = some st')
      · next he => exact (sending_streamOf st hu).mpr hv
    · by_cases he : st' = st
      · subst he
        obtain rfl := Option.some.inj (hx.symm.trans hy)
        exact ⟨{ x with io := io2 }, hx5, htwo.inbuf⟩
      · exact ⟨y, (openStream_setStream ..).trans ((if_neg he).trans hy), rfl⟩
    · have hnone := hg.resolve_right (hno' st')
      refine (openStream_setStream ..).trans ((if_neg ?_).trans hnone)
      rintro rfl
      rw [hx] at hnone
      cases hnone
    · rw [setUpstream_fresh, setStream_fresh, sending_fresh]
  · obtain ⟨s', hreset, h', hsame, hlost⟩ :=
      h.refused hwr hu hst hr hx htwo.sends htwo.sfd htwo.inbuf
      (fun hl => hwires ▸ (List.prefix_append _ _).trans (htwo.lasting (henv.lasts hl)).1) env
    have hloses : ∀ st', env.Loses s st st' ↔ st' = st := fun st' =>
      and_iff_left ⟨x, hx, hrefused.mp hok⟩
    refine ⟨s', -1, ?_, hsame, Or.inr ⟨rfl, h'⟩, ?_⟩
    · simp only [if_neg hok, hreset, Option.bind_some]
    · exact hlost.congr hloses

/-- Whether or not it was sent, the request is in a table if and only if it names it. -/
theorem sioRpcCallOrClear_spec (h : s.Inv w { p with loose := r :: loose }) (hno : r ∉ loose)
    (hwr : p.writing = []) (hof : s.StreamOf u st) (hr : s.request r = some q)
    (hup : q.upstream = some u) {env : RpcEnv} (henv : env.Ok w.lasting q.body.length) :
    ∃ s', sioRpcCallOrClear w.order s u r env = some s' ∧ s'.Inv w { p with loose := loose } ∧
      s'.reqRecord = s.reqRecord ∧ s.KeepsBut (env.Loses s st) s' := by
  obtain ⟨s1, ret, hrun, hsame, hinv, hkeep⟩ := sioRpcCallOn_spec h hno hwr hof hr hup henv
  unfold sioRpcCallOrClear
  simp only [hrun, Option.bind_eq_bind, Option.bind_some]
  rcases hinv with ⟨rfl, h1⟩ | ⟨rfl, h1⟩
  · exact ⟨s1, rfl, h1, hsame, hkeep⟩
  · have hmem : r ∈ s1.reqRecord := by
      rw [hsame]
      exact (h.records.record r).mpr (by rw [hr]; rfl)
    obtain ⟨q1, hq1⟩ := Option.isSome_iff_exists.mp ((h1.records.record r).mp hmem)
    simp only [hq1, Option.bind_some]
    exact ⟨_, rfl, h1.settle hq1 rfl rfl rfl, hsame,
      hkeep.then (.of_stream rfl (fun _ _ => id) (Nat.le_refl _))⟩

end Call

end SimpleKit
