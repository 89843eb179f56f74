import SimpleKit.Lib.Pipe
import SimpleKit.Rpc.NetView

set_option autoImplicit false

namespace SimpleKit
open Framing

def requestsOn (st : RpcRef) (log : List ServerEvent) : List Frame :=
  log.filterMap fun
    | .request _ st' f _ => if st' = st then some f else none
    | _ => none

def RpcServer.ServedTo (e : ByteOrder) (got : RpcRef → List UInt8) (s : RpcServer) (st : RpcRef)
    (l : List UInt8) : Prop :=
  ∃ fs, Cut (rpcNext e) (got st) fs l ∧ (requestsOn st s.log).Sublist fs

def RpcServer.ServedOn (e : ByteOrder) (got : RpcRef → List UInt8) (s : RpcServer)
    (st : RpcRef) : Prop :=
  ∃ l, s.ServedTo e got st l ∧
    ∀ x, s.openStream st = some x → x.io.inbuf.Wf ∧ sioBufferData x.io.inbuf = l

structure RpcServer.Served (e : ByteOrder) (got : RpcRef → List UInt8) (s : RpcServer) : Prop where
  served : ∀ st, ∃ l, s.ServedTo e got st l
  cut : s.looping = false → ∀ st, s.ServedOn e got st
  unborn : ∀ st, s.fresh ≤ st → got st = []

theorem requestsOn_append (st : RpcRef) (log more : List ServerEvent) :
    requestsOn st (log ++ more) = requestsOn st log ++ requestsOn st more := List.filterMap_append

/-- No request is handed out, connections may close, and no input buffer changes. -/
structure RpcServer.Calm (s s' : RpcServer) : Prop where
  log : ∀ st, requestsOn st s'.log = requestsOn st s.log
  input : ∀ st y, s'.openStream st = some y →
    ∃ x, s.openStream st = some x ∧ y.io.inbuf = x.io.inbuf
  dstream : ∀ d ds, s'.dstream d = some ds → s.dstream d = some ds
  fresh : s.fresh ≤ s'.fresh
  looping : s'.looping = s.looping

namespace RpcServer.Calm
variable {s s1 s' : RpcServer} {d st : RpcRef} {e : ByteOrder}

theorem of_eq (hlog : s'.log = s.log) (hstream : s'.stream = s.stream)
    (hdstream : s'.dstream = s.dstream) (hfresh : s.fresh ≤ s'.fresh)
    (hlooping : s'.looping = s.looping) : s.Calm s' := by
  refine ⟨fun st => by rw [hlog], fun st y hy => ⟨y, ?_, rfl⟩, fun d ds hd => ?_, hfresh,
    hlooping⟩
  · rwa [openStream, hstream] at hy
  · rwa [hdstream] at hd

theorem refl (s : RpcServer) : s.Calm s := of_eq rfl rfl rfl (Nat.le_refl _) rfl

theorem trans (h : s.Calm s1) (h' : s1.Calm s') : s.Calm s' := by
  refine ⟨fun st => (h'.log st).trans (h.log st), fun st y hy => ?_,
    fun d ds hd => h.dstream d ds (h'.dstream d ds hd), Nat.le_trans h.fresh h'.fresh,
    h'.looping.trans h.looping⟩
  obtain ⟨x, hx, hyx⟩ := h'.input st y hy
  obtain ⟨z, hz, hxz⟩ := h.input st x hx
  exact ⟨z, hz, hyx.trans hxz⟩

theorem note (s : RpcServer) {ev : ServerEvent} (hev : ∀ st, requestsOn st [ev] = []) :
    s.Calm (s.note ev) := by
  refine ⟨fun st => ?_, fun st y hy => ⟨y, hy, rfl⟩, fun d ds hd => hd, Nat.le_refl _,
    rfl⟩
  rw [RpcServer.note, requestsOn_append, hev, List.append_nil]

theorem setStream {x y : RpcStream} (hx : s.openStream st = some x)
    (hy : y.io.inbuf = x.io.inbuf) : s.Calm (s.setStream st y) := by
  refine ⟨fun a => rfl, fun a z hz => ?_, fun d ds hd => hd, Nat.le_refl _,
    rfl⟩
  rcases setStream_cases hz with ⟨rfl, rfl⟩ | ⟨-, hz⟩
  · exact ⟨x, hx, hy⟩
  · exact ⟨z, hz, rfl⟩

theorem closeStream (h : s.closeStream st = some s') : s.Calm s' := by
  obtain ⟨x, hx, rfl⟩ := Option.map_eq_some_iff.mp h
  exact setStream hx rfl

theorem stopTimer (h : s.stopTimer d = some s') : s.Calm s' := by
  unfold RpcServer.stopTimer at h
  split at h
  · cases h
    exact of_eq rfl rfl rfl (Nat.le_refl _) rfl
  · cases h

theorem writeStream {data : List UInt8} {write : Except Errno Nat} {ret : Int}
    (h : s.writeStream st data write = some (s', ret)) : s.Calm s' := by
  obtain ⟨x, hx, h⟩ := Option.bind_eq_some_iff.mp h
  obtain ⟨⟨io, ret'⟩, hwrite, h⟩ := Option.bind_eq_some_iff.mp h
  cases h
  exact setStream hx (sioStreamWrite_frame hwrite).2.1

theorem setDstream_none (s : RpcServer) (d : RpcRef) : s.Calm (s.setDstream d none) := by
  refine ⟨fun st => rfl, fun st y hy => ⟨y, hy, rfl⟩, fun a ds ha => ?_, Nat.le_refl _,
    rfl⟩
  change Function.update s.dstream d none a = some ds at ha
  rw [Function.update_apply] at ha
  split at ha
  · cases ha
  · exact ha

theorem dstreamFree (h : sioRpcDstreamFree s d = some s') : s.Calm s' := by
  obtain ⟨ds, -, h⟩ := Option.bind_eq_some_iff.mp h
  split at h
  · obtain ⟨s1, hclose, h⟩ := Option.bind_eq_some_iff.mp h
    obtain ⟨s2, hstop, h⟩ := Option.bind_eq_some_iff.mp h
    cases h
    have herased : s.Calm { s with dstreams := s.dstreams.erase ds.id } :=
      of_eq rfl rfl rfl (Nat.le_refl _) rfl
    exact ((herased.trans (closeStream hclose)).trans (stopTimer hstop)).trans
      (setDstream_none s2 d)
  · cases h

theorem finishWrite {q : RpcResponse} {args : FinishArgs}
    (h : sioRpcFinishWrite e s d q args = some s') : s.Calm s' := by
  obtain ⟨ds, -, h⟩ := Option.bind_eq_some_iff.mp h
  obtain ⟨⟨s1, ret1⟩, hwrite1, h⟩ := Option.bind_eq_some_iff.mp h
  obtain ⟨⟨s2, ret2⟩, hwrite2, h⟩ := Option.bind_eq_some_iff.mp h
  have hnoted : s.Calm (s.note (.finish args.resp ds.stream
      ⟨sioRpcFinishHead q args.body, args.body⟩)) := note s fun _ => rfl
  have hwritten : s.Calm s2 := (hnoted.trans (writeStream hwrite1)).trans (writeStream hwrite2)
  have hrefused : s.Calm (if ret1 ≠ 0 ∨ ret2 ≠ 0 then s2.note (.refused ds.stream) else s2) := by
    split
    · exact hwritten.trans (note s2 fun _ => rfl)
    · exact hwritten
  dsimp only at h
  split at h
  · exact hrefused.trans (dstreamFree h)
  · cases h
    exact hrefused

theorem act {args : FinishArgs} (h : serverAct e s args = some s') : s.Calm s' := by
  unfold serverAct at h
  split at h
  · cases h
    exact refl _
  · obtain ⟨q, -, h⟩ := Option.bind_eq_some_iff.mp h
    dsimp only at h
    split at h
    · cases h
      exact of_eq rfl rfl rfl (Nat.le_refl _) rfl
    · obtain ⟨s1, hfinish, h⟩ := Option.bind_eq_some_iff.mp h
      cases h
      exact (finishWrite hfinish).trans (of_eq rfl rfl rfl (Nat.le_refl _) rfl)

theorem timer (h : serverTimer s d = some s') : s.Calm s' := by
  obtain ⟨s1, hstop, h⟩ := Option.bind_eq_some_iff.mp h
  obtain ⟨full, -, h⟩ := Option.bind_eq_some_iff.mp h
  have hticks : s.Calm (s1.startTimer d) :=
    (stopTimer hstop).trans (of_eq rfl rfl rfl (Nat.le_refl _) rfl)
  split at h
  · exact hticks.trans (dstreamFree h)
  · cases h
    exact hticks

theorem addMethod (s : RpcServer) (type : UInt32) (cb arg : Nat) :
    s.Calm (sioRpcServerAddMethod s type cb arg) := by
  unfold sioRpcServerAddMethod
  split
  · exact refl s
  · exact of_eq rfl rfl rfl (Nat.le_succ _) rfl

end RpcServer.Calm

namespace RpcServer
variable {s s' : RpcServer} {e : ByteOrder} {got : RpcRef → List UInt8} {d st : RpcRef}
  {l : List UInt8}

theorem ServedTo.calm (h : s.ServedTo e got st l) (hc : s.Calm s') : s'.ServedTo e got st l := by
  obtain ⟨fs, hcut, hsub⟩ := h
  exact ⟨fs, hcut, by rwa [hc.log]⟩

theorem ServedOn.calm (h : s.ServedOn e got st) (hc : s.Calm s') : s'.ServedOn e got st := by
  obtain ⟨l, hl, hin⟩ := h
  refine ⟨l, hl.calm hc, fun y hy => ?_⟩
  obtain ⟨x, hx, hyx⟩ := hc.input st y hy
  rw [hyx]
  exact hin x hx

theorem Served.calm (h : s.Served e got) (hc : s.Calm s') : s'.Served e got := by
  refine ⟨fun st => ?_, fun hno st => (h.cut (hc.looping ▸ hno) st).calm hc,
    fun st hst => h.unborn st (Nat.le_trans hc.fresh hst)⟩
  obtain ⟨l, hl⟩ := h.served st
  exact ⟨l, hl.calm hc⟩

/-- In the loop over the input `l` that is left of the connection `d`: its buffer still holds all
of `data`. -/
structure Looping (e : ByteOrder) (got : RpcRef → List UInt8) (d st : RpcRef) (inbuf : SioBuffer)
    (s : RpcServer) (l : List UInt8) : Prop where
  dstream : ∀ ds, s.dstream d = some ds → ds.stream = st
  here : s.ServedTo e got st l
  buffer : ∀ x, s.openStream st = some x → x.io.inbuf = inbuf
  others : ∀ a, a ≠ st → s.ServedOn e got a
  unborn : ∀ a, s.fresh ≤ a → got a = []

variable {inbuf : SioBuffer}

theorem Looping.calm (h : Looping e got d st inbuf s l) (hc : s.Calm s') :
    Looping e got d st inbuf s' l := by
  refine ⟨fun ds hds => h.dstream ds (hc.dstream d ds hds), h.here.calm hc, fun y hy => ?_,
    fun a ha => (h.others a ha).calm hc, fun a ha => h.unborn a (Nat.le_trans hc.fresh ha)⟩
  obtain ⟨x, hx, hyx⟩ := hc.input st y hy
  exact hyx.trans (h.buffer x hx)

theorem Looping.frame (h : Looping e got d st inbuf s l) {f : Frame} {n : Nat}
    (hl : rpcNext e l = .item f n) {acts : RpcRef → List FinishArgs}
    (hrun : sioRpcHandleRequest e d st acts s f = some s') :
    Looping e got d st inbuf s' (l.drop n) := by
  obtain ⟨fs, hcut, hsub⟩ := h.here
  have hcut' := hcut.snoc hl
  obtain ⟨s1, hrun, hopen⟩ := Option.bind_eq_some_iff.mp hrun
  obtain ⟨x, -, hsame⟩ := Option.bind_eq_some_iff.mp hopen
  cases hsame
  unfold sioRpcDstreamHandleRequest at hrun
  split at hrun
  · cases hrun
    exact ⟨h.dstream, ⟨_, hcut', hsub.trans (List.sublist_append_left _ _)⟩, h.buffer, h.others,
      h.unborn⟩
  · obtain ⟨ds, hds, hrun⟩ := Option.bind_eq_some_iff.mp hrun
    obtain ⟨method, -, hrun⟩ := Option.bind_eq_some_iff.mp hrun
    have hst := h.dstream ds hds
    refine Runs.foldlM_keeps (fun s => Looping e got d st inbuf s (l.drop n))
      (fun _ _ _ h1 (_ : True) hact => h1.calm (Calm.act hact)) ?_ (fun _ _ => trivial) hrun
    have hlog : ∀ a, requestsOn a (s.log ++ [.request s.fresh ds.stream f method]) =
        requestsOn a s.log ++ if st = a then [f] else [] := by
      intro a
      rw [requestsOn_append, hst]
      by_cases ha : st = a <;> simp [requestsOn, ha]
    refine ⟨h.dstream, ⟨_, hcut', ?_⟩, h.buffer, fun a ha => ?_,
      fun a ha => h.unborn a (Nat.le_of_succ_le ha)⟩
    · change (requestsOn st (s.log ++ _)).Sublist _
      rw [hlog, if_pos rfl]
      exact hsub.append_right _
    · obtain ⟨l', ⟨fs', hcut1, hsub1⟩, hin⟩ := h.others a ha
      refine ⟨l', ⟨fs', hcut1, ?_⟩, hin⟩
      change (requestsOn a (s.log ++ _)).Sublist _
      rwa [hlog, if_neg (Ne.symm ha), List.append_nil]

/-- When the connection is closed it does not matter what its buffer holds. -/
theorem Looping.closed (h : Looping e got d st inbuf s l) (hno : s.openStream st = none) :
    s.Served e got := by
  have hall : ∀ a, s.ServedOn e got a := by
    intro a
    by_cases ha : a = st
    · subst ha
      exact ⟨l, h.here, fun x hx => by simp [hno] at hx⟩
    · exact h.others a ha
  exact ⟨fun a => (hall a).imp fun _ hl => hl.1, fun _ => hall, h.unborn⟩

theorem Looping.free (h : Looping e got d st inbuf s l) (hrun : sioRpcDstreamFree s d = some s') :
    s'.Served e got := by
  have h' := h.calm (Calm.dstreamFree hrun)
  obtain ⟨ds, hds, hrun⟩ := Option.bind_eq_some_iff.mp hrun
  have hst := h.dstream ds hds
  subst hst
  refine h'.closed ?_
  split at hrun
  · obtain ⟨s1, hclose, hrun⟩ := Option.bind_eq_some_iff.mp hrun
    obtain ⟨s2, hstop, hrun⟩ := Option.bind_eq_some_iff.mp hrun
    cases hrun
    obtain ⟨x, -, rfl⟩ := Option.map_eq_some_iff.mp hclose
    have hclosed : s2.openStream ds.stream = none := by
      cases hy : s2.openStream ds.stream with
      | none => rfl
      | some y =>
        obtain ⟨z, hz, -⟩ := (Calm.stopTimer hstop).input ds.stream y hy
        rw [openStream_setStream] at hz
        simp at hz
    exact hclosed
  · cases hrun

/-- The loop ends with what it left in the buffer, or it will free the connection. -/
theorem Served.parse (h : s.Served e got) (hno : s.looping = false) {fuel : Nat}
    {acts : RpcRef → List FinishArgs} {ret : Int}
    (hrun : sioRpcDstreamParseRequest e fuel s d acts = some (s', ret)) :
    s'.Served e got ∨ ret ≠ 0 ∧ ∃ st inbuf l, Looping e got d st inbuf s' l := by
  obtain ⟨ds, hds, hrun⟩ := Option.bind_eq_some_iff.mp hrun
  obtain ⟨x, hx, hrun⟩ := Option.bind_eq_some_iff.mp hrun
  obtain ⟨⟨s1, left, outcome⟩, hparse, hrun⟩ := Option.bind_eq_some_iff.mp hrun
  obtain ⟨l, hl, hin⟩ := h.cut hno ds.stream
  obtain ⟨hwf, hdata⟩ := hin x hx
  have hstart : Looping e got d ds.stream x.io.inbuf s (sioBufferData x.io.inbuf) := by
    refine ⟨fun ds' hds' => ?_, hdata ▸ hl, fun y hy => ?_, fun a _ => h.cut hno a, h.unborn⟩
    · rw [Option.some.inj (hds'.symm.trans hds)]
    · rw [Option.some.inj (hy.symm.trans hx)]
  rw [sioRpcParse_eq e _ _ fuel s (Nat.zero_le _), List.drop_zero] at hparse
  obtain ⟨⟨s2, left2, o⟩, hscan, heq⟩ := Option.map_eq_some_iff.mp hparse
  obtain ⟨r, hloop, hrest⟩ := scan_keeps_left (Looping e got d ds.stream x.io.inbuf)
    (fun _ _ _ _ _ h1 hnext hrun => h1.frame hnext hrun) hstart hscan
  cases heq
  cases o with
  | bad =>
    cases hrun
    exact Or.inr ⟨by decide, _, _, _, hloop⟩
  | more =>
    cases hrun
    refine Or.inl ⟨fun a => ?_, fun hl => by simp at hl, hloop.unborn⟩
    by_cases ha : a = ds.stream
    · exact ha ▸ ⟨r, hloop.here⟩
    · exact (hloop.others a ha).imp fun _ hl => hl.1
  | wait m =>
    obtain rfl := hrest m rfl
    obtain ⟨y, hy, hrun⟩ := Option.bind_eq_some_iff.mp hrun
    cases hrun
    have hsuffix := (scan_rest hscan).2
    have hbuf := hloop.buffer y hy
    have hsize : (sioBufferData x.io.inbuf).length - m.length ≤ sioBufferLength y.io.inbuf := by
      rw [hbuf, ← hwf.length_data]
      exact Nat.sub_le _ _
    obtain ⟨hwf', hdata'⟩ := (hbuf ▸ hwf : y.io.inbuf.Wf).erase hsize
    rw [hbuf, ← List.suffix_iff_eq_drop.mp hsuffix] at hdata'
    have hall : ∀ a, RpcServer.ServedOn e got (s2.setStream ds.stream { y with io := { y.io with
        inbuf := sioBufferErase y.io.inbuf ((sioBufferData x.io.inbuf).length - m.length) } })
          a := by
      intro a
      by_cases ha : a = ds.stream
      · refine ⟨m, ha ▸ hloop.here, fun z hz => ?_⟩
        rw [ha, openStream_setStream, if_pos rfl] at hz
        split at hz
        · cases hz
        · cases hz
          exact ⟨hwf', hbuf ▸ hdata'⟩
      · obtain ⟨l', hl', hin'⟩ := hloop.others a ha
        refine ⟨l', hl', fun z hz => ?_⟩
        rw [openStream_setStream, if_neg ha] at hz
        exact hin' z hz
    exact Or.inl ⟨fun a => (hall a).imp fun _ hl => hl.1, fun _ => hall, hloop.unborn⟩

theorem Served.callback (h : s.Served e got) (hno : s.looping = false) {fuel : Nat}
    {acts : RpcRef → List FinishArgs} {event : SioStreamEvent}
    (hrun : sioRpcDstreamCallback e fuel s d acts event = some s') : s'.Served e got := by
  cases event with
  | accept => cases hrun
  | connected => cases hrun
  | error => exact h.calm (Calm.dstreamFree hrun)
  | close => exact h.calm (Calm.dstreamFree hrun)
  | data =>
    obtain ⟨⟨s1, err⟩, hparse, hrun⟩ := Option.bind_eq_some_iff.mp hrun
    dsimp only at hrun
    rcases h.parse hno hparse with h1 | ⟨herr, st, inbuf, l, h1⟩
    · split at hrun
      · exact h1.calm (Calm.dstreamFree hrun)
      · cases hrun
        exact h1
    · rw [if_pos herr] at hrun
      exact h1.free hrun

theorem Served.reads (h : s.Served e got) (hno : s.looping = false) (hfresh : s.Fresh)
    {x : RpcStream} (hx : s.openStream st = some x) (hsends : x.io.Sends) {ready : SioReady}
    (hready : StreamOk x.io (.ready ready)) (acts : RpcRef → List FinishArgs) :
    (s.setStream st { x with io := (sioRunReady x.io ready).1 }).Served e
      fun a => got a ++ s.arrives a (.ready st ready acts) := by
  obtain ⟨hsends', -⟩ := hsends.ready hready
  have hreads := hsends.ready_reads hready
  have harrives : ∀ a, s.arrives a (.ready st ready acts) =
      if a = st then sioReads x.io ready else [] := by
    intro a
    rw [arrives]
    split
    · next ha => rw [ha, hx, hno]; rfl
    · rfl
  have hall : ∀ a, (s.setStream st { x with io := (sioRunReady x.io ready).1 }).ServedOn e
      (fun a => got a ++ s.arrives a (.ready st ready acts)) a := by
    intro a
    obtain ⟨l, ⟨fs, hcut, hsub⟩, hin⟩ := h.cut hno a
    refine ⟨l ++ s.arrives a (.ready st ready acts),
      ⟨fs, hcut.append (rpcNext_stable e) _, hsub⟩, fun z hz => ?_⟩
    rw [harrives]
    rcases setStream_cases hz with ⟨rfl, rfl⟩ | ⟨ha, hz⟩
    · rw [if_pos rfl, ← (hin x hx).2]
      exact ⟨hsends'.inbuf, hreads⟩
    · rw [if_neg ha, List.append_nil]
      exact hin z hz
  refine ⟨fun a => (hall a).imp fun _ hl => hl.1, fun _ => hall, fun a ha => ?_⟩
  rw [harrives, h.unborn a ha, if_neg]
  · rfl
  · rintro rfl
    exact absurd (hfresh.lt_stream (openStream_some.mp hx).1) (Nat.not_lt.mpr ha)

theorem Served.ready (h : s.Served e got) (hno : s.looping = false) (hfresh : s.Fresh)
    {x : RpcStream} (hx : s.openStream st = some x) (hsends : x.io.Sends) {ready : SioReady}
    (hready : StreamOk x.io (.ready ready)) {acts : RpcRef → List FinishArgs}
    (hrun : serverReady e s st x ready acts = some s') :
    s'.Served e fun a => got a ++ s.arrives a (.ready st ready acts) := by
  have h1 := h.reads hno hfresh hx hsends hready acts
  unfold serverReady at hrun
  dsimp only at hrun
  split at hrun
  · cases hrun
    exact h1
  · exact h1.callback hno hrun

theorem Served.accept (h : s.Served e got) (hno : s.looping = false) {ok : Bool} {io : SioStream}
    (hio : sioStreamAccept ok = some io) (hrun : sioRpcDstreamAccept s io = some s') :
    s'.Served e got := by
  unfold sioRpcDstreamAccept at hrun
  dsimp only at hrun
  split at hrun
  · cases hrun
  · cases hrun
    have hall : ∀ a, ((({ ({ s with fresh := s.fresh + 2, connId := s.connId + 1 }.setDstream
        (s.fresh + 1) (some ⟨s.connId, s.fresh⟩)) with
          dstreams := s.dstreams.insert s.connId (s.fresh + 1) } : RpcServer).setStream s.fresh
            ⟨io, s.fresh + 1, false⟩).startTimer (s.fresh + 1)).ServedOn e got a := by
      intro a
      obtain ⟨l, hl, hin⟩ := h.cut hno a
      refine ⟨l, hl, fun z hz => ?_⟩
      have hz' := (openStream_setStream ..).symm.trans hz
      split at hz'
      · next ha =>
        cases hz'
        have hinbuf : io.inbuf = sioBufferNew := by
          cases ok with
          | false => cases hio
          | true =>
            cases hio
            rfl
        obtain ⟨fs, hcut, -⟩ := hl
        rw [h.unborn a (Nat.le_of_eq ha.symm)] at hcut
        rw [hinbuf, hcut.of_nil rfl]
        exact ⟨sioBufferNew_wf, sioBufferData_new⟩
      · exact hin z hz'
    exact ⟨fun a => (hall a).imp fun _ hl => hl.1, fun _ => hall,
      fun a ha => h.unborn a (Nat.le_trans (Nat.le_add_right _ 2) ha)⟩

theorem Served.step {w : RpcView} (h : s.Served e got) (hinv : s.Inv w Serving.none)
    {op : ServerOp} {lasting : Prop} (hop : ServerFits e lasting s op)
    (hstep : serverStep e s op = some (s', ())) :
    s'.Served e fun a => got a ++ s.arrives a op := by
  have hquiet : ∀ t : RpcServer, t.Served e got → (∀ a, s.arrives a op = []) →
      t.Served e fun a => got a ++ s.arrives a op := by
    intro t ht hnone
    simpa only [hnone, List.append_nil] using ht
  cases serverStep_does hstep with
  | rests hnone => exact hquiet s h hnone
  | ready hl hx hdo =>
    exact h.ready hl hinv.fresh hx (hinv.conns.owner _ _ hx).1 (hop.1 _ hx) hdo
  | other hl hno hdo =>
    refine hquiet s' ?_ (arrives_other hno)
    cases op with
    | accept ok =>
      rw [serverDo] at hdo
      split at hdo
      · cases hdo
        exact h
      · next hio => exact h.accept hl hio hdo
    | ready st ready acts => exact absurd rfl (hno st ready acts)
    | timer d =>
      rw [serverDo] at hdo
      split at hdo
      · exact h.calm (Calm.timer hdo)
      · cases hdo
        exact h
    | finish args => exact h.calm (Calm.act hdo)
    | addMethod type cb arg =>
      cases hdo
      exact h.calm (Calm.addMethod s type cb arg)

end RpcServer

end SimpleKit
