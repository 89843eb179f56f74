import SimpleKit.Rpc.ServerInv

set_option autoImplicit false

namespace SimpleKit
open RpcServer SioStream

variable {w : RpcView} {p : Serving} {s s' : RpcServer} {d : RpcRef} {ds : RpcDstream}
  {x : RpcStream} {q : RpcResponse} {args : FinishArgs}

structure FinishArgs.Ok (args : FinishArgs) : Prop where
  head : WroteAtMost sheadEncodeSize args.head
  sent : WroteAtMost args.body.length args.sent

def FinishArgs.Refused (args : FinishArgs) (io : SioStream) : Prop :=
  io.Direct ∧ args.head = .error .other ∧ args.sent = .error .other

def finishFrame (q : RpcResponse) (args : FinishArgs) : Frame :=
  ⟨sioRpcFinishHead q args.body, args.body⟩

def Offered (e : ByteOrder) (q : RpcResponse) (args : FinishArgs) (io io' : SioStream)
    (ret1 ret2 : Int) : Prop :=
  io.WroteTwo (sheadEncode e (sioRpcFinishHead q args.body) (List.replicate sheadEncodeSize 0)).1
    args.body args.head args.sent io' ret1 ret2

theorem Offered.refused {e : ByteOrder} {io io' : SioStream} {ret1 ret2 : Int}
    (h : Offered e q args io io' ret1 ret2) : ret1 ≠ 0 ∧ ret2 ≠ 0 ↔ args.Refused io := by
  rw [h.failed1, h.failed2, FinishArgs.Refused]
  tauto

def RpcServer.offered (s : RpcServer) (ds : RpcDstream) (x : RpcStream) (q : RpcResponse)
    (args : FinishArgs) (io : SioStream) (ret1 ret2 : Int) : RpcServer :=
  if ret1 ≠ 0 ∨ ret2 ≠ 0 then
    ((s.note (.finish args.resp ds.stream (finishFrame q args))).setStream ds.stream
      { x with io := io }).note (.refused ds.stream)
  else (s.note (.finish args.resp ds.stream (finishFrame q args))).setStream ds.stream
    { x with io := io }

theorem RpcServer.offered_openStream (s : RpcServer) (ds : RpcDstream) (hopen : x.closed = false)
    (q : RpcResponse) (args : FinishArgs) (io : SioStream) (ret1 ret2 : Int) (a : RpcRef) :
    (s.offered ds x q args io ret1 ret2).openStream a =
      if a = ds.stream then some { x with io := io } else s.openStream a := by
  have h : ((s.note (.finish args.resp ds.stream (finishFrame q args))).setStream ds.stream
      { x with io := io }).openStream a =
        if a = ds.stream then some { x with io := io } else s.openStream a := by
    rw [openStream_setStream, hopen]
    rfl
  unfold offered
  split
  · exact h
  · exact h

theorem RpcServer.offered_same (s : RpcServer) (ds : RpcDstream) (x : RpcStream) (q : RpcResponse)
    (args : FinishArgs) (io : SioStream) (ret1 ret2 : Int) :
    (s.offered ds x q args io ret1 ret2).dstreams = s.dstreams ∧
      (s.offered ds x q args io ret1 ret2).dstream = s.dstream ∧
      (s.offered ds x q args io ret1 ret2).connId = s.connId ∧
      (s.offered ds x q args io ret1 ret2).timers = s.timers ∧
      (s.offered ds x q args io ret1 ret2).fresh = s.fresh ∧
      (s.offered ds x q args io ret1 ret2).methods = s.methods ∧
      (s.offered ds x q args io ret1 ret2).method = s.method := by
  unfold offered
  split
  · exact ⟨rfl, rfl, rfl, rfl, rfl, rfl, rfl⟩
  · exact ⟨rfl, rfl, rfl, rfl, rfl, rfl, rfl⟩

theorem RpcServer.offered_conns (h : s.Conns p) (hx : s.openStream ds.stream = some x)
    (q : RpcResponse) (args : FinishArgs) {io : SioStream} (hsends : io.Sends)
    (hsfd : io.sfd.isSome) (htype : io.type = .normal) (ret1 ret2 : Int) :
    (s.offered ds x q args io ret1 ret2).Conns p := by
  have hopens := s.offered_openStream ds (openStream_some.mp hx).2 q args io ret1 ret2
  obtain ⟨htable, hdstream, hconn, htimers, -⟩ := s.offered_same ds x q args io ret1 ret2
  refine ⟨fun id d => ?_, fun d da hd => ?_, fun d => ?_, fun d da hd => ?_, fun a y hy => ?_⟩
  · rw [htable, hdstream]
    exact h.table id d
  · rw [hconn]
    exact h.ids d da (hdstream ▸ hd)
  · rw [htimers, hdstream]
    exact h.ticks d
  · rw [hdstream] at hd
    obtain ⟨y, hy, harg⟩ := h.stream d da hd
    rw [hopens]
    split
    · next he =>
      rw [he, hx, Option.some.injEq] at hy
      exact ⟨_, rfl, hy ▸ harg⟩
    · exact ⟨y, hy, harg⟩
  · rw [hopens] at hy
    rw [hdstream]
    split at hy
    · next he =>
      cases hy
      obtain ⟨-, -, -, hown⟩ := h.owner _ x hx
      exact ⟨hsends, hsfd, htype, he ▸ hown⟩
    · exact h.owner a y hy

theorem sioRpcFinishWrite_eq (h : s.Conns p) (hd : s.dstream d = some ds)
    (hx : s.openStream ds.stream = some x) (e : ByteOrder) (q : RpcResponse) (hargs : args.Ok) :
    ∃ io ret1 ret2, Offered e q args x.io io ret1 ret2 ∧
      sioRpcFinishWrite e s d q args =
        if ret1 ≠ 0 ∧ ret2 ≠ 0 then sioRpcDstreamFree (s.offered ds x q args io ret1 ret2) d
        else some (s.offered ds x q args io ret1 ret2) := by
  obtain ⟨hsends, hsfd, -⟩ := h.owner _ x hx
  have hlen := length_sheadEncode e (sioRpcFinishHead q args.body)
  obtain ⟨io1, ret1, io, ret2, hrun1, hrun2, htwo⟩ := hsends.writeTwo hsfd args.body
    (List.ne_nil_of_length_pos (by rw [hlen]; decide)) (by rw [hlen]; exact hargs.head) hargs.sent
  have hx1 : (s.note (.finish args.resp ds.stream (finishFrame q args))).openStream ds.stream =
      some x := hx
  have hx2 : ((s.note (.finish args.resp ds.stream (finishFrame q args))).setStream ds.stream
      { x with io := io1 }).openStream ds.stream = some { x with io := io1 } := by
    rw [openStream_setStream, if_pos rfl, (openStream_some.mp hx).2]
    rfl
  have hwrite1 := writeStream_eq hx1 hrun1
  have hwrite2 := writeStream_eq hx2 hrun2
  rw [setStream_setStream] at hwrite2
  refine ⟨io, ret1, ret2, htwo, ?_⟩
  unfold finishFrame at hwrite1 hwrite2
  simp only [sioRpcFinishWrite, hd, Option.bind_eq_bind, Option.bind_some, hwrite1, hwrite2]
  rfl

/-- The response is written as a whole or the connection is closed, unless the header alone, or
the body alone, is refused. -/
def FinishArgs.Framed (args : FinishArgs) (io : SioStream) : Prop :=
  ¬ io.Direct ∨ args.Refused io ∨
    args.head ≠ .error .other ∧
      (args.head = .ok sheadEncodeSize → args.sent = .error .other → args.body = [])

theorem Offered.framed {e : ByteOrder} {io io' : SioStream} {ret1 ret2 : Int}
    (h : Offered e q args io io' ret1 ret2) :
    (ret1 ≠ 0 ∧ ret2 ≠ 0 ∨ io'.written = io.written ++ frameWire e (finishFrame q args)) ↔
      args.Framed io := by
  have hlen := length_sheadEncode e (sioRpcFinishHead q args.body)
  have hpos : 0 < sheadEncodeSize := by decide
  have h1 := h.failed1
  have h2 := h.failed2
  have hwritten := h.written
  rw [hlen] at h2
  rw [hwritten, List.append_cancel_left_eq]
  unfold FinishArgs.Framed FinishArgs.Refused frameWire finishFrame
  by_cases hr1 : ret1 = 0
  · by_cases hr2 : ret2 = 0
    · rw [if_pos hr1, if_pos hr2]
      refine iff_of_true (Or.inr rfl) ?_
      by_cases hd : io.Direct
      · exact Or.inr (Or.inr ⟨fun hh => h1.mpr ⟨hd, hh⟩ hr1,
          fun hh hs => absurd hr2 (h2.mpr ⟨hd, hs, Or.inr hh⟩)⟩)
      · exact Or.inl hd
    · rw [if_pos hr1, if_neg hr2, List.append_cancel_left_eq]
      constructor
      · rintro (hf | hbody)
        · exact absurd hr1 hf.1
        · exact Or.inr (Or.inr ⟨fun hh => h1.mpr ⟨(h2.mp hr2).1, hh⟩ hr1, fun _ _ => hbody.symm⟩)
      · intro hf
        obtain ⟨hd, hs, hh⟩ := h2.mp hr2
        have hno : args.head ≠ .error .other := fun hh => h1.mpr ⟨hd, hh⟩ hr1
        rcases hf with hf | hf | hf
        · exact absurd hd hf
        · exact absurd hf.2.1 hno
        · exact Or.inr (hf.2 (hh.resolve_left hno) hs).symm
  · obtain ⟨hd, hh⟩ := h1.mp hr1
    have hne : ∀ l : List UInt8, [] ++ l ≠
        (sheadEncode e (sioRpcFinishHead q args.body)
          (List.replicate sheadEncodeSize 0)).1 ++ l := by
      intro l hl
      have := congrArg List.length hl
      rw [List.length_append, List.length_append, hlen, List.length_nil] at this
      omega
    by_cases hr2 : ret2 = 0
    · rw [if_neg hr1, if_pos hr2]
      constructor
      · rintro (hf | hf)
        · exact absurd hr2 hf.2
        · exact absurd hf (hne _)
      · rintro (hf | hf | hf)
        · exact absurd hd hf
        · exact absurd hr2 (h2.mpr ⟨hd, hf.2.2, Or.inl hh⟩)
        · exact absurd hh hf.1
    · exact ⟨fun _ => Or.inr (Or.inl ⟨hd, hh, (h2.mp hr2).2.1⟩), fun _ => Or.inl ⟨hr1, hr2⟩⟩

section Inv

def FinishArgs.Lasts (args : FinishArgs) (lasting : Prop) (s : RpcServer) (st : RpcRef) : Prop :=
  lasting → (args.head = .error .other → args.sent = .error .other) ∧
    (.refused st ∈ s.log → args.head = .error .other ∧ args.sent = .error .other)

theorem RpcServer.offered_log (s : RpcServer) (ds : RpcDstream) (x : RpcStream) (q : RpcResponse)
    (args : FinishArgs) (io : SioStream) (ret1 ret2 : Int) (e : ByteOrder) :
    finishWires e ds.stream (s.offered ds x q args io ret1 ret2).log =
        finishWires e ds.stream s.log ++ frameWire e (finishFrame q args) ∧
      (.refused ds.stream ∈ (s.offered ds x q args io ret1 ret2).log ↔
        .refused ds.stream ∈ s.log ∨ ¬ (ret1 = 0 ∧ ret2 = 0)) := by
  have hfin : finishWires e ds.stream [.finish args.resp ds.stream (finishFrame q args)] =
      frameWire e (finishFrame q args) := by
    simp [finishWires, finishesOn]
  have hre : finishWires e ds.stream [.refused ds.stream] = [] := by
    simp [finishWires, finishesOn]
  unfold offered
  split
  · next hf =>
    refine ⟨?_, iff_of_true (List.mem_append_right _ (List.mem_singleton_self _))
      (Or.inr fun hok => hf.elim (absurd hok.1) (absurd hok.2))⟩
    change finishWires e ds.stream ((s.log ++ _) ++ _) = _
    rw [finishWires_append, finishWires_append, hfin, hre, List.append_nil]
  · next hf =>
    have hok : ret1 = 0 ∧ ret2 = 0 := by
      rw [not_or, not_not, not_not] at hf
      exact hf
    refine ⟨?_, ?_⟩
    · change finishWires e ds.stream (s.log ++ _) = _
      rw [finishWires_append, hfin]
    · change _ ∈ s.log ++ _ ↔ _
      rw [List.mem_append, or_iff_left (not_not.mpr hok)]
      simp

theorem RpcServer.Inv.offered (h : s.Inv w Serving.none) (hd : s.dstream d = some ds)
    (hx : s.openStream ds.stream = some x) (hq : s.response args.resp = some q)
    (hid : ds.id = q.connId) {io : SioStream} {ret1 ret2 : Int}
    (hoffer : Offered w.order q args x.io io ret1 ret2) :
    (s.offered ds x q args io ret1 ret2).Inv w ⟨[], [ds.stream]⟩ := by
  obtain ⟨-, -, htype, -⟩ := h.conns.owner _ x hx
  have h1 : (s.note (.finish args.resp ds.stream (finishFrame q args))).Inv w ⟨[], [ds.stream]⟩ :=
    h.beginFinish hx hq ⟨d, ds, hd, hid, rfl⟩ args.body
  have hx1 : (s.note (.finish args.resp ds.stream (finishFrame q args))).openStream ds.stream =
      some x := hx
  have hinput : w.input ds.stream (sioBufferData io.inbuf) := by
    rw [hoffer.inbuf]
    exact h.reads.input _ x hx
  have h2 := h1.setIo hx1 hoffer.sends hoffer.sfd (hoffer.type.trans htype)
    (Or.inl (List.mem_singleton_self _)) hinput
  unfold RpcServer.offered
  split
  · refine h2.refused (x := { x with io := io }) ?_ (List.mem_singleton_self _)
    rw [openStream_setStream, if_pos rfl, (openStream_some.mp hx).2]
    rfl
  · exact h2

theorem RpcServer.Inv.offered_wires (h : s.Inv w Serving.none)
    (hx : s.openStream ds.stream = some x) (hlasts : args.Lasts w.lasting s ds.stream)
    {io : SioStream} {ret1 ret2 : Int} (hoffer : Offered w.order q args x.io io ret1 ret2) :
    (.refused ds.stream ∉ (s.offered ds x q args io ret1 ret2).log →
      io.written = finishWires w.order ds.stream (s.offered ds x q args io ret1 ret2).log) ∧
    (w.lasting →
      io.sock <+: finishWires w.order ds.stream (s.offered ds x q args io ret1 ret2).log) ∧
    (w.lasting → .refused ds.stream ∈ (s.offered ds x q args io ret1 ret2).log → io.Direct) := by
  obtain ⟨hlog, hre⟩ := s.offered_log ds x q args io ret1 ret2 w.order
  obtain ⟨hsends, -, htype, -⟩ := h.conns.owner _ x hx
  rw [hlog, hre]
  -- what waits on a stream that has failed before
  have hdirect : w.lasting → .refused ds.stream ∈ s.log → x.io.Direct ∧ args.Refused x.io := by
    intro hl hr
    have hd : x.io.Direct :=
      ⟨h.wires.stuck hl _ x hx hr List.not_mem_nil, by rw [htype]; nofun⟩
    exact ⟨hd, hd, (hlasts hl).2 hr⟩
  have hstuck : w.lasting → (.refused ds.stream ∈ s.log ∨ ¬ (ret1 = 0 ∧ ret2 = 0)) →
      io.Direct := by
    rintro hl (hr | hf)
    · exact hoffer.stuck (hoffer.refused.mpr (hdirect hl hr).2).2
    · exact (WroteTwo.lasting hoffer (hlasts hl).1).2 hf
  refine ⟨fun hno => ?_, fun hl => ?_, hstuck⟩
  · rw [not_or, not_not] at hno
    have hwritten := h.wires.written _ x hx hno.1 List.not_mem_nil
    rw [WroteTwo.whole hoffer hno.2.1 hno.2.2, hwritten]
    rfl
  · by_cases hr : .refused ds.stream ∈ s.log
    · obtain ⟨hd, href⟩ := hdirect hl hr
      obtain ⟨hf1, hf2⟩ := hoffer.refused.mpr href
      have hwritten := hoffer.written
      rw [if_neg hf1, if_neg hf2, List.append_nil, List.append_nil, SioStream.written,
        SioStream.written, sioBufferData_eq_nil hsends.outbuf (not_not.mpr hd.1),
        sioBufferData_eq_nil hoffer.sends.outbuf (not_not.mpr (hoffer.stuck hf2).1),
        List.append_nil, List.append_nil] at hwritten
      rw [hwritten]
      exact (h.wires.sock hl _ x (openStream_some.mp hx).1 List.not_mem_nil).trans
        (List.prefix_append _ _)
    · have hwritten := h.wires.written _ x hx hr List.not_mem_nil
      rw [← hwritten]
      exact (List.prefix_append _ _).trans (WroteTwo.lasting hoffer (hlasts hl).1).1

/-- The connection `d` stays open when a response is finished. -/
def FinishArgs.Spares (args : FinishArgs) (d : RpcRef) (s : RpcServer) : Prop :=
  ∀ q st x, s.response args.resp = some q → s.dstreams.lookup q.connId = some d →
    s.openStream st = some x → x.arg = d → ¬ args.Refused x.io

structure RpcServer.Finished (s : RpcServer) (args : FinishArgs) (s' : RpcServer) : Prop where
  spared : ∀ st x, s.openStream st = some x → args.Spares x.arg s →
    ∃ y, s'.openStream st = some y ∧ y.arg = x.arg ∧ y.io.inbuf = x.io.inbuf
  lost : ∀ st x, s.openStream st = some x → ¬ args.Spares x.arg s → s'.openStream st = none
  gone : ∀ st, s.openStream st = none → s'.openStream st = none
  dstream : ∀ d ds, s.dstream d = some ds → args.Spares d s → s'.dstream d = some ds
  fresh : s'.fresh = s.fresh
  methods : s'.methods = s.methods
  method : s'.method = s.method

theorem FinishArgs.spares_of_none {d : RpcRef}
    (h : ∀ q, s.response args.resp = some q → s.dstreams.lookup q.connId ≠ some d) :
    args.Spares d s := fun q _ _ hq hd => absurd hd (h q hq)

theorem RpcServer.Finished.setResponse (h : s.Finished args s') (r : RpcRef)
    (a : Option RpcResponse) :
    s.Finished args (s'.setResponse r a) :=
  ⟨h.spared, h.lost, h.gone, h.dstream, h.fresh, h.methods, h.method⟩

/-- A response whose connection is gone is only freed. -/
theorem RpcServer.Finished.of_gone (hq : s.response args.resp = some q)
    (hd : s.dstreams.lookup q.connId = none) : s.Finished args s := by
  have hspares : ∀ d, args.Spares d s := by
    refine fun d => FinishArgs.spares_of_none fun q' hq' => ?_
    obtain rfl := Option.some.inj (hq.symm.trans hq')
    rw [hd]
    nofun
  exact ⟨fun st x hx _ => ⟨x, hx, rfl, rfl⟩, fun st x _ hno => absurd (hspares _) hno,
    fun _ => id, fun _ _ hds _ => hds, rfl, rfl, rfl⟩

theorem RpcServer.Conns.spares_iff (h : s.Conns p) (hq : s.response args.resp = some q)
    (hd : s.dstreams.lookup q.connId = some d) (hds : s.dstream d = some ds)
    (hx : s.openStream ds.stream = some x) (a : RpcRef) :
    args.Spares a s ↔ a ≠ d ∨ ¬ args.Refused x.io := by
  refine ⟨fun hs => ?_, fun hs q' st y hq' hd' hy harg => ?_⟩
  · by_cases ha : a = d
    · obtain ⟨y, hy, harg⟩ := h.stream d ds hds
      obtain rfl := Option.some.inj (hx.symm.trans hy)
      exact Or.inr (hs q ds.stream x hq (ha ▸ hd) hx (harg.trans ha.symm))
    · exact Or.inl ha
  · obtain rfl := Option.some.inj (hq.symm.trans hq')
    obtain rfl := Option.some.inj (hd.symm.trans hd')
    obtain ⟨-, -, -, da, hda, hst⟩ := h.owner st y hy
    rw [harg, hds, Option.some.injEq] at hda
    rw [← hst, ← hda, hx, Option.some.injEq] at hy
    exact hy ▸ hs.resolve_left fun hne => hne rfl

/-- The response is written, or waits, or a part of it is lost. -/
theorem RpcServer.Conns.finished_offered (h : s.Conns p) (hq : s.response args.resp = some q)
    (hd : s.dstreams.lookup q.connId = some d) (hds : s.dstream d = some ds)
    (hx : s.openStream ds.stream = some x) (hno : ¬ args.Refused x.io) {io : SioStream}
    (hinbuf : io.inbuf = x.io.inbuf) (ret1 ret2 : Int) :
    s.Finished args (s.offered ds x q args io ret1 ret2) := by
  have hopens := s.offered_openStream ds (openStream_some.mp hx).2 q args io ret1 ret2
  have hspares : ∀ a, args.Spares a s := fun a => (h.spares_iff hq hd hds hx a).mpr (Or.inr hno)
  obtain ⟨-, hdstream, -, -, hfresh, hmethods, hmethod⟩ := s.offered_same ds x q args io ret1 ret2
  refine ⟨fun st y hy _ => ?_, fun st y _ hs => absurd (hspares _) hs, fun st hy => ?_,
    fun a da ha _ => hdstream ▸ ha, hfresh, hmethods, hmethod⟩
  · rw [hopens]
    split
    · next he =>
      rw [he, hx, Option.some.injEq] at hy
      exact ⟨_, rfl, hy ▸ rfl, hy ▸ hinbuf⟩
    · exact ⟨y, hy, rfl, rfl⟩
  · rw [hopens, if_neg, hy]
    rintro rfl
    rw [hx] at hy
    cases hy

theorem RpcServer.Conns.finished_freed (h : s.Conns p) (hq : s.response args.resp = some q)
    (hd : s.dstreams.lookup q.connId = some d) (hds : s.dstream d = some ds)
    (hx : s.openStream ds.stream = some x) (hrefused : args.Refused x.io) (io : SioStream)
    (ret1 ret2 : Int) (y : RpcStream) :
    s.Finished args ((s.offered ds x q args io ret1 ret2).freed d ds y) := by
  have hopens := s.offered_openStream ds (openStream_some.mp hx).2 q args io ret1 ret2
  have hspares : ∀ a, args.Spares a s ↔ a ≠ d := fun a =>
    (h.spares_iff hq hd hds hx a).trans (or_iff_left (not_not.mpr hrefused))
  obtain ⟨-, hdstream, -, -, hfresh, hmethods, hmethod⟩ := s.offered_same ds x q args io ret1 ret2
  have harg : ∀ st z, s.openStream st = some z → (z.arg = d ↔ st = ds.stream) := by
    refine fun st z hz => ⟨fun ha => ?_, ?_⟩
    · obtain ⟨-, -, -, da, hda, hst⟩ := h.owner st z hz
      rw [ha, hds, Option.some.injEq] at hda
      rw [← hst, hda]
    · rintro rfl
      obtain ⟨x', hx', ha⟩ := h.stream d ds hds
      rw [hz, Option.some.injEq] at hx'
      exact hx' ▸ ha
  refine ⟨fun st z hz hs => ⟨z, ?_, rfl, rfl⟩, fun st z hz hs => ?_, fun st hz => ?_,
    fun a da ha hs => ?_, hfresh, hmethods, hmethod⟩
  · have hne := fun he => (hspares _).mp hs ((harg st z hz).mpr he)
    rw [freed_openStream, if_neg hne, hopens, if_neg hne, hz]
  · rw [hspares, not_not, harg st z hz] at hs
    rw [freed_openStream, if_pos hs]
  · rw [freed_openStream]
    split
    · rfl
    · next hne => rw [hopens, if_neg hne, hz]
  · rw [freed_dstream, if_neg ((hspares a).mp hs), hdstream, ha]

theorem RpcServer.Inv.finished_freed (h : s.Inv w Serving.none) (hds : s.dstream d = some ds)
    (hx : s.openStream ds.stream = some x) (hq : s.response args.resp = some q)
    (hid : ds.id = q.connId) (hlasts : args.Lasts w.lasting s ds.stream) {io : SioStream}
    {ret1 ret2 : Int} (hoffer : Offered w.order q args x.io io ret1 ret2) :
    sioRpcDstreamFree (s.offered ds x q args io ret1 ret2) d =
        some ((s.offered ds x q args io ret1 ret2).freed d ds { x with io := io }) ∧
      ((s.offered ds x q args io ret1 ret2).freed d ds { x with io := io }).Inv w
        Serving.none := by
  have h1 := h.offered hds hx hq hid hoffer
  obtain ⟨-, hsock, -⟩ := h.offered_wires hx hlasts hoffer
  have hopens := s.offered_openStream ds (openStream_some.mp hx).2 q args io ret1 ret2
  have hx1 := (hopens ds.stream).trans (if_pos rfl)
  obtain ⟨-, hdstream, -⟩ := s.offered_same ds x q args io ret1 ret2
  have hds1 : (s.offered ds x q args io ret1 ret2).dstream d = some ds := hdstream ▸ hds
  have h2 := h1.freed hds1 List.not_mem_nil hx1
  have hclosed := (freed_openStream (s.offered ds x q args io ret1 ret2) d ds.stream ds
    { x with io := io }).trans (if_pos rfl)
  refine ⟨sioRpcDstreamFree_eq h1.conns hds1 List.not_mem_nil hx1,
    h2.endFinish (p := Serving.none) (l := []) (fun y hy => ?_) (fun hl y hy => ?_)
      fun hl y hy => ?_⟩
  · rw [hclosed] at hy
    cases hy
  · have hy' := (stream_setStream ..).symm.trans hy
    rw [if_pos rfl] at hy'
    cases hy'
    exact hsock hl
  · rw [hclosed] at hy
    cases hy

theorem RpcServer.Inv.finished_offered (h : s.Inv w Serving.none) (hds : s.dstream d = some ds)
    (hx : s.openStream ds.stream = some x) (hq : s.response args.resp = some q)
    (hid : ds.id = q.connId) (hlasts : args.Lasts w.lasting s ds.stream) {io : SioStream}
    {ret1 ret2 : Int} (hoffer : Offered w.order q args x.io io ret1 ret2) :
    (s.offered ds x q args io ret1 ret2).Inv w Serving.none := by
  have h1 := h.offered hds hx hq hid hoffer
  obtain ⟨hwritten, hsock, hstuck⟩ := h.offered_wires hx hlasts hoffer
  have hx1 := (s.offered_openStream ds (openStream_some.mp hx).2 q args io ret1 ret2
    ds.stream).trans (if_pos rfl)
  refine h1.endFinish (p := Serving.none) (l := []) (fun y hy hno => ?_) (fun hl y hy => ?_)
    fun hl y hy hre => ?_
  · obtain rfl := Option.some.inj (hx1.symm.trans hy)
    exact hwritten hno
  · obtain rfl := Option.some.inj ((openStream_some.mp hx1).1.symm.trans hy)
    exact hsock hl
  · obtain rfl := Option.some.inj (hx1.symm.trans hy)
    exact (hstuck hl hre).1

theorem sioRpcFinish_spec (h : s.Inv w Serving.none) (hq : s.response args.resp = some q)
    (hargs : args.Ok)
    (hlasts : ∀ d ds, s.dstream d = some ds → ds.id = q.connId → args.Lasts w.lasting s ds.stream) :
    ∃ s', sioRpcFinish w.order s args = some s' ∧ s'.Inv w Serving.none ∧ s.Finished args s' := by
  cases hd : s.dstreams.lookup q.connId with
  | none =>
    refine ⟨s.setResponse args.resp none, ?_, h.freeResponse _,
      (RpcServer.Finished.of_gone hq hd).setResponse _ _⟩
    simp only [sioRpcFinish, hq, hd, Option.bind_eq_bind, Option.bind_some]
  | some d =>
    obtain ⟨ds, hds, hid⟩ := (h.conns.table _ d).mp hd
    obtain ⟨x, hx, -⟩ := h.conns.stream d ds hds
    obtain ⟨io, ret1, ret2, hoffer, heq⟩ := sioRpcFinishWrite_eq h.conns hds hx w.order q hargs
    have hlast := hlasts d ds hds hid
    have hend : ∀ s1, sioRpcFinishWrite w.order s d q args = some s1 →
        sioRpcFinish w.order s args = some (s1.setResponse args.resp none) := by
      intro s1 hrun
      simp only [sioRpcFinish, hq, hd, hrun, Option.bind_eq_bind, Option.bind_some]
    by_cases hboth : ret1 ≠ 0 ∧ ret2 ≠ 0
    · obtain ⟨hfree, h1⟩ := h.finished_freed hds hx hq hid hlast hoffer
      rw [if_pos hboth, hfree] at heq
      exact ⟨_, hend _ heq, h1.freeResponse _, (h.conns.finished_freed hq hd hds hx
        (hoffer.refused.mp hboth) io ret1 ret2 _).setResponse _ _⟩
    · rw [if_neg hboth] at heq
      exact ⟨_, hend _ heq, (h.finished_offered hds hx hq hid hlast hoffer).freeResponse _,
        (h.conns.finished_offered hq hd hds hx (fun hr => hboth (hoffer.refused.mpr hr))
          hoffer.inbuf ret1 ret2).setResponse _ _⟩

end Inv

end SimpleKit
