import SimpleKit.Rpc.ServerFinish

set_option autoImplicit false

namespace SimpleKit
open Runs Framing
open RpcServer

variable {w : RpcView} {s s' : RpcServer} {d st : RpcRef} {ds : RpcDstream} {x : RpcStream}
  {args : FinishArgs} {acts : RpcRef → List FinishArgs}

def FinishArgs.Fits (args : FinishArgs) (lasting : Prop) (s : RpcServer) : Prop :=
  args.Ok ∧ ∀ q d ds, s.response args.resp = some q → s.dstream d = some ds → ds.id = q.connId →
    args.Lasts lasting s ds.stream

theorem FinishArgs.Ok.fits (h : args.Ok) (s : RpcServer) : args.Fits False s :=
  ⟨h, fun _ _ _ _ _ _ => False.elim⟩

def FinishArgs.NoFail (args : FinishArgs) : Prop :=
  args.head ≠ .error .other ∧ args.sent ≠ .error .other

theorem FinishArgs.NoFail.spares (h : args.NoFail) (d : RpcRef) (s : RpcServer) :
    args.Spares d s := fun _ _ _ _ _ _ _ hr => h.1 hr.2.1

theorem serverAct_spec (h : s.Inv w Serving.none) (hfits : args.Fits w.lasting s) :
    ∃ s', serverAct w.order s args = some s' ∧ s'.Inv w Serving.none ∧ s.Finished args s' := by
  unfold serverAct
  cases hq : s.response args.resp with
  | none =>
    have hspares : ∀ a, args.Spares a s := by
      intro a q _ _ hq'
      rw [hq] at hq'
      cases hq'
    exact ⟨s, rfl, h, fun st x hx _ => ⟨x, hx, rfl, rfl⟩,
      fun st x _ hno => absurd (hspares _) hno, fun _ => id, fun _ _ hds _ => hds, rfl, rfl, rfl⟩
  | some q => exact sioRpcFinish_spec h hq hfits.1 fun d ds => hfits.2 q d ds hq

/-- The connection `d`, if it is still open, is as it was, and its input with it. -/
def RpcServer.Walks (s : RpcServer) (d : RpcRef) (ds : RpcDstream) (inbuf : SioBuffer) : Prop :=
  ∀ y, s.openStream ds.stream = some y → y.arg = d ∧ y.io.inbuf = inbuf ∧ s.dstream d = some ds

theorem RpcServer.Finished.walks {inbuf : SioBuffer} (h : s.Finished args s')
    (hwalk : s.Walks d ds inbuf) :
    s'.Walks d ds inbuf ∧ ((s'.openStream ds.stream).isSome ↔
      (s.openStream ds.stream).isSome ∧ args.Spares d s) := by
  cases hx : s.openStream ds.stream with
  | none =>
    have hnone := h.gone _ hx
    refine ⟨fun y hy => ?_, ?_⟩
    · rw [hnone] at hy
      cases hy
    · rw [hnone]
      simp
  | some x =>
    obtain ⟨harg, hin, hds⟩ := hwalk x hx
    by_cases hs : args.Spares d s
    · obtain ⟨y, hy, harg', hin'⟩ := h.spared _ x hx (harg ▸ hs)
      refine ⟨fun z hz => ?_, iff_of_true (by rw [hy]; rfl) ⟨rfl, hs⟩⟩
      obtain rfl := Option.some.inj (hy.symm.trans hz)
      exact ⟨harg'.trans harg, hin'.trans hin, h.dstream d ds hds hs⟩
    · have hnone := h.lost _ x hx (harg ▸ hs)
      refine ⟨fun y hy => ?_, iff_of_false (by rw [hnone]; nofun) fun hc => hs hc.2⟩
      rw [hnone] at hy
      cases hy

/-- Each response that the callback of a method finishes meets `cond`. -/
def RequestAlong (e : ByteOrder) (d : RpcRef) (acts : RpcRef → List FinishArgs)
    (cond : RpcServer → FinishArgs → Prop) (s : RpcServer) (f : Frame) : Prop :=
  ∀ m ds method, s.methods.lookup f.head.type = some m → s.dstream d = some ds →
    s.method m = some method →
    Along (plain (serverAct e)) cond (s.requested ds f method) (acts s.fresh)

theorem RequestAlong.of_all {e : ByteOrder} {cond : RpcServer → FinishArgs → Prop}
    (h : ∀ s r, ∀ args ∈ acts r, cond s args) (d : RpcRef) (s : RpcServer) (f : Frame) :
    RequestAlong e d acts cond s f := fun _ _ _ _ _ _ => Along.of_all fun s' => h s' _

theorem RpcServer.Walks.requested {inbuf : SioBuffer} (h : s.Walks d ds inbuf) (da : RpcDstream)
    (f : Frame) (m : RpcMethod) : (s.requested da f m).Walks d ds inbuf := h

theorem sioRpcDstreamHandleRequest_eq (e : ByteOrder) {f : Frame} {m : RpcRef} {method : RpcMethod}
    (hm : s.methods.lookup f.head.type = some m) (hds : s.dstream d = some ds)
    (hmethod : s.method m = some method) (acts : RpcRef → List FinishArgs) :
    sioRpcDstreamHandleRequest e s d f acts =
      (acts s.fresh).foldlM (serverAct e) (s.requested ds f method) := by
  rw [sioRpcDstreamHandleRequest, hm]
  simp only [hds, Option.bind_eq_bind, Option.bind_some]
  change (s.method m).bind _ = _
  rw [hmethod]
  rfl

/-- A request is handled: it is stuck exactly if its own connection is closed by it. -/
theorem sioRpcHandleRequest_spec (h : s.Inv w Serving.none) (hds : s.dstream d = some ds)
    (hx : s.openStream ds.stream = some x) {f : Frame} (hrec : w.received ds.stream f)
    (hfits : RequestAlong w.order d acts (fun s args => args.Fits w.lasting s) s f) :
    sioRpcHandleRequest w.order d ds.stream acts s f = none ∧
        ¬ RequestAlong w.order d acts (fun s args => args.Spares d s) s f ∨
      RequestAlong w.order d acts (fun s args => args.Spares d s) s f ∧
        ∃ s', sioRpcHandleRequest w.order d ds.stream acts s f = some s' ∧
          s'.Inv w Serving.none ∧ s'.dstream d = some ds ∧
          ∃ y, s'.openStream ds.stream = some y ∧ y.io.inbuf = x.io.inbuf := by
  have hwalk : s.Walks d ds x.io.inbuf := by
    intro y hy
    obtain ⟨z, hz, harg⟩ := h.conns.stream d ds hds
    obtain rfl := Option.some.inj (hz.symm.trans hy)
    exact ⟨harg, by rw [Option.some.inj (hx.symm.trans hz)], hds⟩
  cases hm : s.methods.lookup f.head.type with
  | none =>
    refine Or.inr ⟨fun m _ _ hm' => ?_, s, ?_, h, hds, x, hx, rfl⟩
    · rw [hm] at hm'
      cases hm'
    · simp only [sioRpcHandleRequest, sioRpcDstreamHandleRequest, hm, Option.bind_eq_bind,
        Option.bind_some, hx]
  | some m =>
    obtain ⟨method, hmethod⟩ := Option.isSome_iff_exists.mp (h.methods _ m hm)
    have halong : ∀ cond, RequestAlong w.order d acts cond s f ↔
        Along (plain (serverAct w.order)) cond (s.requested ds f method) (acts s.fresh) := by
      refine fun cond => ⟨fun ha => ha m ds method hm hds hmethod,
        fun ha m' ds' method' h1 h2 h3 => ?_⟩
      obtain rfl := Option.some.inj (hm.symm.trans h1)
      obtain rfl := Option.some.inj (hds.symm.trans h2)
      obtain rfl := Option.some.inj (hmethod.symm.trans h3)
      exact ha
    rw [halong] at hfits
    obtain ⟨s1, hrun, ⟨h1, hwalk1⟩, halive⟩ := foldlM_along
      (fun s => s.Inv w Serving.none ∧ s.Walks d ds x.io.inbuf)
      (fun s => (s.openStream ds.stream).isSome) (fun s args => args.Spares d s)
      (fun s args ⟨hi, hw⟩ hf => by
        obtain ⟨s', hact, hi', hfin⟩ := serverAct_spec hi hf
        exact ⟨s', hact, ⟨hi', (hfin.walks hw).1⟩, (hfin.walks hw).2⟩)
      ⟨h.requested hds hrec method, hwalk.requested ds f method⟩ hfits
    have hopen : (s.requested ds f method).openStream ds.stream = some x := hx
    rw [hopen, and_iff_right (Option.isSome_some (a := x)), ← halong] at halive
    have hrun' : sioRpcDstreamHandleRequest w.order s d f acts = some s1 :=
      (sioRpcDstreamHandleRequest_eq w.order hm hds hmethod acts).trans hrun
    have heq : sioRpcHandleRequest w.order d ds.stream acts s f =
        (s1.openStream ds.stream).bind fun _ => some s1 := by
      simp only [sioRpcHandleRequest, hrun', Option.bind_eq_bind, Option.bind_some]
    rw [heq, ← halive]
    cases hy : s1.openStream ds.stream with
    | none => exact Or.inl ⟨rfl, by simp⟩
    | some y =>
      obtain ⟨-, hin, hds1⟩ := hwalk1 y hy
      exact Or.inr ⟨rfl, s1, rfl, h1, hds1, y, hy, hin⟩

/-- Each response that is finished while the loop walks over the input of `d` meets `cond`. -/
def LoopAlong (e : ByteOrder) (fuel : Nat) (d : RpcRef) (acts : RpcRef → List FinishArgs)
    (cond : RpcServer → FinishArgs → Prop) (s : RpcServer) : Prop :=
  ∀ ds x, s.dstream d = some ds → s.openStream ds.stream = some x →
    ScanAlong (rpcNext e) (sioRpcHandleRequest e d ds.stream acts) (RequestAlong e d acts cond)
      fuel s (sioBufferData x.io.inbuf)

theorem LoopAlong.of_all {e : ByteOrder} {cond : RpcServer → FinishArgs → Prop}
    (h : ∀ s r, ∀ args ∈ acts r, cond s args) (fuel : Nat) (d : RpcRef) (s : RpcServer) :
    LoopAlong e fuel d acts cond s :=
  fun _ _ _ _ => ScanAlong.of_all (fun s f => RequestAlong.of_all h d s f) fuel s _

theorem loopAlong_iff {e : ByteOrder} {fuel : Nat} {cond : RpcServer → FinishArgs → Prop}
    (hds : s.dstream d = some ds) (hx : s.openStream ds.stream = some x) :
    LoopAlong e fuel d acts cond s ↔
      ScanAlong (rpcNext e) (sioRpcHandleRequest e d ds.stream acts) (RequestAlong e d acts cond)
        fuel s (sioBufferData x.io.inbuf) := by
  refine ⟨fun h => h ds x hds hx, fun h ds' x' h1 h2 => ?_⟩
  obtain rfl := Option.some.inj (hds.symm.trans h1)
  obtain rfl := Option.some.inj (hx.symm.trans h2)
  exact h

theorem RpcServer.Inv.looping (h : s.Inv w Serving.none) (b : Bool) :
    { s with looping := b }.Inv w Serving.none :=
  ⟨{ h.conns with }, { h.wires with }, { h.responses with }, { h.fresh with }, { h.reads with },
    h.methods⟩

theorem sioRpcDstreamParseRequest_spec (h : s.Inv w Serving.none) (hds : s.dstream d = some ds)
    (fuel : Nat) (hfits : LoopAlong w.order fuel d acts (fun s args => args.Fits w.lasting s) s) :
    sioRpcDstreamParseRequest w.order fuel s d acts = none ∧
        ¬ LoopAlong w.order fuel d acts (fun s args => args.Spares d s) s ∨
      LoopAlong w.order fuel d acts (fun s args => args.Spares d s) s ∧
        ∃ s' ret, sioRpcDstreamParseRequest w.order fuel s d acts = some (s', ret) ∧
          s'.Inv w Serving.none ∧ s'.dstream d = some ds := by
  obtain ⟨x, hx, -⟩ := h.conns.stream d ds hds
  rw [loopAlong_iff hds hx] at hfits ⊢
  unfold sioRpcDstreamParseRequest
  simp only [hds, hx, Option.bind_eq_bind, Option.bind_some,
    sioRpcParse_eq w.order _ _ fuel s (Nat.zero_le _), List.drop_zero]
  rcases scan_along
    (fun s1 l => s1.Inv w Serving.none ∧ w.input ds.stream l ∧ s1.dstream d = some ds ∧
      ∃ y, s1.openStream ds.stream = some y ∧ y.io.inbuf = x.io.inbuf)
    (RequestAlong w.order d acts fun s args => args.Fits w.lasting s)
    (RequestAlong w.order d acts fun s args => args.Spares d s)
    (fun s1 l f n ⟨h1, hin, hds1, y, hy, hbuf⟩ hl hok => by
      obtain ⟨hrec, hin'⟩ := w.frame ds.stream l f n hin hl
      rcases sioRpcHandleRequest_spec h1 hds1 hy hrec hok with hbad |
        ⟨hc, s2, hrun, h2, hds2, z, hz, hz'⟩
      · exact Or.inl hbad
      · exact Or.inr ⟨hc, s2, hrun, h2, hin', hds2, z, hz, hz'.trans hbuf⟩)
    fuel ⟨h, h.reads.input _ x hx, hds, x, hx, rfl⟩ hfits with
    ⟨hnone, hbad⟩ | ⟨hall, s1, left, o, hscan, ⟨l, h1, -, hds1, -⟩, hwait⟩
  · exact Or.inl ⟨by rw [hnone]; rfl, hbad⟩
  · refine Or.inr ⟨hall, ?_⟩
    simp only [hscan, Option.map_some, Option.bind_some]
    cases o with
    | bad => exact ⟨s1, -1, rfl, h1, hds1⟩
    | more => exact ⟨_, 0, rfl, h1.looping true, hds1⟩
    | wait l =>
      obtain ⟨-, hin, -, y, hy, hbuf⟩ := hwait l rfl
      obtain ⟨hsends, hsfd, htype, -⟩ := h1.conns.owner _ y hy
      have hsuffix := (scan_rest hscan).2
      have hsize : (sioBufferData x.io.inbuf).length - l.length ≤ sioBufferLength y.io.inbuf := by
        rw [← hsends.inbuf.length_data, hbuf]
        exact Nat.sub_le _ _
      obtain ⟨hwf, hdata⟩ := hsends.inbuf.erase hsize
      have hrest := List.suffix_iff_eq_drop.mp hsuffix
      rw [← hbuf] at hrest
      simp only [Outcome.map, hy, Option.bind_some]
      refine ⟨_, 0, rfl, h1.setIo hy ⟨hwf, hsends.outbuf, hsends.type, hsends.callback,
        hsends.watched⟩ hsfd htype (Or.inr ⟨rfl, id⟩) ?_, hds1⟩
      change w.input ds.stream (sioBufferData (sioBufferErase y.io.inbuf _))
      rw [hdata, ← hbuf, ← hrest]
      exact hin

theorem sioRpcDstreamFree_spec (h : s.Inv w Serving.none) (hds : s.dstream d = some ds) :
    ∃ s', sioRpcDstreamFree s d = some s' ∧ s'.Inv w Serving.none := by
  obtain ⟨x, hx, -⟩ := h.conns.stream d ds hds
  exact ⟨_, sioRpcDstreamFree_eq h.conns hds List.not_mem_nil hx, h.freed hds List.not_mem_nil hx⟩

theorem sioRpcDstreamCallback_spec (h : s.Inv w Serving.none) (hds : s.dstream d = some ds)
    (fuel : Nat) {event : SioStreamEvent} (haccept : event ≠ .accept) (hconn : event ≠ .connected)
    (hfits : event = .data →
      LoopAlong w.order fuel d acts (fun s args => args.Fits w.lasting s) s) :
    sioRpcDstreamCallback w.order fuel s d acts event = none ∧ event = .data ∧
        ¬ LoopAlong w.order fuel d acts (fun s args => args.Spares d s) s ∨
      (event = .data → LoopAlong w.order fuel d acts (fun s args => args.Spares d s) s) ∧
        ∃ s', sioRpcDstreamCallback w.order fuel s d acts event = some s' ∧
          s'.Inv w Serving.none := by
  cases event with
  | accept => exact absurd rfl haccept
  | connected => exact absurd rfl hconn
  | error => exact Or.inr ⟨nofun, sioRpcDstreamFree_spec h hds⟩
  | close => exact Or.inr ⟨nofun, sioRpcDstreamFree_spec h hds⟩
  | data =>
    unfold sioRpcDstreamCallback
    rcases sioRpcDstreamParseRequest_spec h hds fuel (hfits rfl) with
      ⟨hnone, hbad⟩ | ⟨hall, s1, ret, hrun, h1, hds1⟩
    · exact Or.inl ⟨by rw [hnone]; rfl, rfl, hbad⟩
    · refine Or.inr ⟨fun _ => hall, ?_⟩
      simp only [hrun, Option.bind_eq_bind, Option.bind_some]
      split
      · exact sioRpcDstreamFree_spec h1 hds1
      · exact ⟨s1, rfl, h1⟩

theorem sioRpcDstreamTimer_spec (h : s.Inv w { Serving.none with ticking := [d] })
    (hds : s.dstream d = some ds) :
    ∃ s', sioRpcDstreamTimer s d = some s' ∧ s'.Inv w Serving.none := by
  have h1 : (s.startTimer d).Inv w Serving.none :=
    RpcServer.Inv.startTick (p := Serving.none) (l := []) h (by rw [hds]; rfl) List.not_mem_nil
  obtain ⟨x, hx, -⟩ := h.conns.stream d ds hds
  have hds1 : (s.startTimer d).dstream d = some ds := hds
  have hx1 : (s.startTimer d).openStream ds.stream = some x := hx
  obtain ⟨full, hfull⟩ : ∃ full, sioRpcDstreamFull (s.startTimer d) d = some full := by
    simp only [sioRpcDstreamFull, hds1, hx1, Option.bind_eq_bind, Option.bind_some]
    exact ⟨_, rfl⟩
  simp only [sioRpcDstreamTimer, hfull, Option.bind_eq_bind, Option.bind_some]
  split
  · exact sioRpcDstreamFree_spec h1 hds
  · exact ⟨_, rfl, h1⟩

theorem RpcServer.Inv.addMethod (h : s.Inv w Serving.none) (type : UInt32) (cb arg : Nat) :
    (sioRpcServerAddMethod s type cb arg).Inv w Serving.none := by
  unfold sioRpcServerAddMethod
  split
  · exact h
  · have hmethod : ∀ a, ({ s with
        fresh := s.fresh + 1, methods := s.methods.insert type s.fresh }.setMethod s.fresh
          (some ⟨cb, arg⟩)).method a = if a = s.fresh then some ⟨cb, arg⟩ else s.method a :=
      fun a => Function.update_apply ..
    refine ⟨{ h.conns with }, { h.wires with }, { h.responses with },
      ⟨fun a ha => h.fresh.dstream a (Nat.le_of_succ_le ha), fun a ha => ?_,
        fun a ha => h.fresh.response a (Nat.le_of_succ_le ha),
        fun a ha => h.fresh.stream a (Nat.le_of_succ_le ha),
        fun a ha => h.fresh.finish a (Nat.le_of_succ_le ha)⟩,
      ⟨h.reads.input, fun a ha => h.reads.unborn a (Nat.le_of_succ_le ha)⟩, fun t m hm => ?_⟩
    · rw [hmethod, if_neg (Nat.ne_of_gt ha)]
      exact h.fresh.method a (Nat.le_of_succ_le ha)
    · rw [hmethod]
      split
      · rfl
      · next hne =>
        have hm' : (s.methods.insert type s.fresh).lookup t = some m := hm
        by_cases ht : t = type
        · rw [ht, AList.lookup_insert] at hm'
          exact absurd (Option.some.inj hm').symm hne
        · rw [AList.lookup_insert_ne ht] at hm'
          exact h.methods t m hm'

theorem sioRpcServerNew_inv (w : RpcView) (hw : ∀ st, w.input st []) (maxPending : Nat) :
    (sioRpcServerNew maxPending).Inv w Serving.none := by
  refine ⟨⟨fun id d => ?_, nofun, fun d => rfl, nofun, nofun⟩,
    ⟨nofun, fun _ => nofun, fun _ => nofun⟩,
    ⟨nofun, nofun, nofun⟩, ⟨fun _ _ => rfl, fun _ _ => rfl, fun _ _ => rfl, fun _ _ => rfl,
      fun _ _ => ⟨rfl, nofun⟩⟩, ⟨nofun, fun st _ => hw st⟩, nofun⟩
  exact ⟨nofun, fun ⟨_, h, _⟩ => by cases h⟩

end SimpleKit
