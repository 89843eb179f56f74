import SimpleKit.Rpc.Net

set_option autoImplicit false

namespace SimpleKit
open Framing

theorem sioStreamOnRead_reads {x : SioStream} (h : x.inbuf.Wf) {read : Except Errno (List UInt8)}
    (hread : ReadAtMost 4096 read) :
    sioBufferData (sioStreamOnRead x read).1.inbuf =
      sioBufferData x.inbuf ++ match read with
        | .ok bytes => bytes
        | .error _ => [] := by
  obtain ⟨hwf, hkeep, hroom⟩ := h.reserve 4096
  cases read with
  | error e =>
    rw [List.append_nil, ← hkeep]
    cases e <;> rfl
  | ok bytes =>
    cases bytes with
    | nil =>
      rw [List.append_nil, ← hkeep]
      rfl
    | cons b bytes =>
      rw [← hkeep]
      exact (hwf.fill_seek (Nat.le_trans hread hroom)).2

theorem SioStream.Sends.ready_reads {x : SioStream} (h : x.Sends) {ready : SioReady}
    (hready : StreamOk x (.ready ready)) :
    sioBufferData (sioRunReady x ready).1.inbuf = sioBufferData x.inbuf ++ sioReads x ready := by
  rw [sioRunReady]
  cases hfd : x.sfd with
  | none =>
    cases ready with
    | read read => cases read <;> simp [sioReads, hfd]
    | write conn write => exact (List.append_nil _).symm
    | error => exact (List.append_nil _).symm
  | some fd =>
    dsimp only
    split
    · next hwatch =>
      unfold sioCallback
      cases ready with
      | error =>
        refine Eq.trans ?_ (List.append_nil _).symm
        cases fd.callback <;> rfl
      | write conn write =>
        refine Eq.trans ?_ (List.append_nil _).symm
        cases fd.callback with
        | accept => rfl
        | connect => cases conn <;> rfl
        | stream =>
          cases write with
          | error e => cases e <;> rfl
          | ok bytes => rfl
      | read read =>
        cases hcall : fd.callback with
        | accept => cases read <;> simp [sioReads, hfd, hcall]
        | connect =>
          simp only [sioConnectCallback]
          cases read <;> simp [sioReads, hfd, hcall]
        | stream =>
          refine (sioStreamOnRead_reads h.inbuf hready).trans ?_
          have hwatch' : fd.watchRead = true := hwatch
          cases read <;> simp [sioReads, hfd, hcall, hwatch']
    · next hwatch =>
      cases ready with
      | read read =>
        have hwatch' : ¬ fd.watchRead = true := hwatch
        cases read <;> simp [sioReads, hfd, hwatch']
      | write conn write => exact (List.append_nil _).symm
      | error => exact (List.append_nil _).symm

theorem rpcArrives_looping (x : Option RpcStream) (ready : SioReady) :
    rpcArrives x true ready = [] := by
  cases x <;> rfl

/-- The view of a party: the frames `frames st` are sent at the other end of `st`, and the bytes
`got st` have come in. -/
def RpcView.net (e : ByteOrder) (frames : RpcRef → List Frame) (got : RpcRef → List UInt8) :
    RpcView where
  order := e
  lasting := True
  input st l := Arrived (rpcNext e) (frameWire e) ((frames st).map Frame.received) (got st) l
  received st f := ∃ g ∈ frames st, f = g.received
  frame st l f n h hl := by
    obtain ⟨hmem, h'⟩ := h.item (rpcNext_stable e) rfl hl
    obtain ⟨g, hg, rfl⟩ := List.mem_map.mp hmem
    exact ⟨⟨g, hg, rfl⟩, h'⟩

def RpcView.blind (w : RpcView) : RpcView where
  order := w.order
  lasting := w.lasting
  input _ _ := True
  received _ _ := True
  frame _ _ _ _ _ _ := ⟨trivial, trivial⟩

/-- The view `w'` is what `w` becomes when `more st` comes in on `st`. -/
structure RpcView.Brings (w : RpcView) (more : RpcRef → List UInt8) (w' : RpcView) : Prop where
  order : w'.order = w.order
  lasting : w'.lasting = w.lasting
  received : ∀ st f, w.received st f → w'.received st f
  input : ∀ st l, w.input st l → w'.input st (l ++ more st)

namespace RpcClient
variable {w w' : RpcView} {p : Underway} {s s' : RpcClient} {st : RpcRef}

/-- Of what comes in the invariant says no more than `Reads` and `responses`. -/
theorem Inv.revise (h : s.Inv w p) (horder : w'.order = w.order) (hlasting : w'.lasting = w.lasting)
    (hreads : s.Reads w') (hresponses : ∀ r st g, .response r st g ∈ s.log → w'.received st g) :
    s.Inv w' p := by
  refine ⟨h.links, ⟨h.wires.sent, h.wires.waiting, h.wires.stream, h.wires.owner, ?_, ?_,
    h.wires.frames⟩, h.records, h.ups, h.fresh, hreads,
    fun r st g hg => ⟨hresponses r st g hg, (h.responses r st g hg).2⟩⟩
  · rw [horder]
    exact h.wires.written
  · rw [horder, hlasting]
    exact h.wires.closed

theorem Inv.quiet (h : s.Inv w p) {more : RpcRef → List UInt8} (hb : w.Brings more w')
    (hmore : ∀ st, more st = []) : s.Inv w' p := by
  have hinput : ∀ st l, w.input st l → w'.input st l := by
    intro st l hl
    have h1 := hb.input st l hl
    rwa [hmore, List.append_nil] at h1
  exact h.revise hb.order hb.lasting
    ⟨fun st x hx => hinput st _ (h.reads.input st x hx),
      fun st hst => hinput st _ (h.reads.unborn st hst)⟩
    fun r st g hg => hb.received st g (h.responses r st g hg).1

theorem Inv.ready (h : s.Inv w Underway.none) {x : RpcStream} (hx : s.openStream st = some x)
    {ready : SioReady} (hready : StreamOk x.io (.ready ready)) {acts : RpcRef → List ClientAct}
    {env : RpcEnv} (hl : s.looping = false)
    (hb : w.Brings (fun a => s.arrives a (.ready st ready acts env)) w') :
    (s.setStream st { x with io := (sioRunReady x.io ready).1 }).Inv w' Underway.none := by
  obtain ⟨hsends, hsfd, -⟩ := h.wires.owner st x hx
  obtain ⟨hsends', hwritten⟩ := hsends.ready hready
  have hblind : s.Inv w.blind Underway.none :=
    h.revise rfl rfl ⟨fun _ _ _ => trivial, fun _ _ => trivial⟩ fun _ _ _ _ => trivial
  have h1 := hblind.setIo hx hsends' (sioRunReady_sfd ready hsfd) (Or.inr hwritten) trivial
  have hinput : ∀ a l, a ≠ st → w.input a l → w'.input a l := by
    intro a l ha hl
    have h2 := hb.input a l hl
    rwa [arrives, if_neg ha, List.append_nil] at h2
  refine h1.revise hb.order hb.lasting ⟨fun a y hy => ?_, fun a ha => ?_⟩
    fun r a g hg => hb.received a g (h.responses r a g hg).1
  · rcases setStream_cases hy with ⟨rfl, rfl⟩ | ⟨hne, hy⟩
    · have hread := hb.input a _ (h.reads.input a x hx)
      have harrives : s.arrives a (.ready a ready acts env) = sioReads x.io ready := by
        rw [arrives, if_pos rfl, hx, hl]
        rfl
      rwa [harrives, ← hsends.ready_reads hready] at hread
    · exact hinput a _ hne (h.reads.input a y hy)
  · refine hinput a [] ?_ (h.reads.unborn a ha)
    rintro rfl
    exact absurd (h.fresh.lt_stream (openStream_some.mp hx).1) (Nat.not_lt.mpr ha)

end RpcClient

theorem clientStep_view {w w' : RpcView} {s s' : RpcClient} (h : s.Inv w Underway.none)
    {op : ClientOp} (hop : ClientFits w.lasting s op)
    (hb : w.Brings (fun st => s.arrives st op) w')
    (hstep : clientStep w.order s op = some (s', ())) : s'.Inv w' Underway.none := by
  unfold clientStep at hstep
  rw [← hb.lasting] at hop
  rw [← hb.order] at hstep
  cases hl : s.looping with
  | true =>
    rw [hl, if_pos rfl] at hstep
    cases hstep
    refine h.quiet hb fun st => ?_
    cases op with
    | ready st' ready acts env =>
      rw [RpcClient.arrives, hl, rpcArrives_looping, ite_self]
    | _ => rfl
  | false =>
    rw [hl, if_neg (by decide)] at hstep
    obtain ⟨s1, hdo, heq⟩ := Option.map_eq_some_iff.mp hstep
    cases heq
    have hother : (∀ st ready acts env, op ≠ .ready st ready acts env) →
      s'.Inv w' Underway.none := by
      intro hno
      have h1 : s.Inv w' Underway.none := h.quiet hb fun st => by
        cases op with
        | ready st' ready acts env => exact absurd rfl (hno st' ready acts env)
        | _ => rfl
      rcases clientDo_spec h1 hl hop
          (fun st ready acts env _ he => absurd he (hno st ready acts env))
        with ⟨hnone, -⟩ | ⟨-, s2, hdo2, h2⟩
      · rw [hnone] at hdo
        cases hdo
      · rw [hdo2] at hdo
        cases hdo
        exact h2
    cases op with
    | ready st ready acts env =>
      rw [clientDo] at hdo
      cases hx : s.openStream st with
      | none =>
        rw [hx] at hdo
        cases hdo
        refine h.quiet hb fun a => ?_
        rw [RpcClient.arrives]
        split
        · next ha => rw [ha, hx, rpcArrives]
        · rfl
      | some x =>
        rw [hx] at hdo
        change clientReady w'.order s st x ready acts env = some s' at hdo
        obtain ⟨-, -, hof⟩ := h.wires.owner st x hx
        rcases clientReady_rest (h.ready hx (hop.1 x hx) hl hb) hof hop.2 env Iff.rfl with
          ⟨hnone, -⟩ | ⟨-, s2, hdo2, h2⟩
        · rw [hnone] at hdo
          cases hdo
        · rw [hdo2] at hdo
          cases hdo
          exact h2
    | call args => exact hother fun _ _ _ _ he => by cases he
    | addUpstream ip port env => exact hother fun _ _ _ _ he => by cases he
    | removeUpstream ip port env => exact hother fun _ _ _ _ he => by cases he
    | timer t acts env => exact hother fun _ _ _ _ he => by cases he

namespace RpcServer
variable {w w' : RpcView} {p : Serving} {s s' : RpcServer} {st : RpcRef}

theorem Inv.revise (h : s.Inv w p) (horder : w'.order = w.order) (hlasting : w'.lasting = w.lasting)
    (hreads : s.Reads w') (hrequests : ∀ r st f m, .request r st f m ∈ s.log → w'.received st f) :
    s.Inv w' p := by
  refine ⟨h.conns, ⟨?_, ?_, ?_⟩, ⟨h.responses.live, hrequests, h.responses.finished⟩, h.fresh,
    hreads, h.methods⟩
  · rw [horder]
    exact h.wires.written
  · rw [horder, hlasting]
    exact h.wires.sock
  · rw [hlasting]
    exact h.wires.stuck

theorem Inv.quiet (h : s.Inv w p) {more : RpcRef → List UInt8} (hb : w.Brings more w')
    (hmore : ∀ st, more st = []) : s.Inv w' p := by
  have hinput : ∀ st l, w.input st l → w'.input st l := by
    intro st l hl
    have h1 := hb.input st l hl
    rwa [hmore, List.append_nil] at h1
  exact h.revise hb.order hb.lasting
    ⟨fun st x hx => hinput st _ (h.reads.input st x hx),
      fun st hst => hinput st _ (h.reads.unborn st hst)⟩
    fun r st f m hm => hb.received st f (h.responses.received r st f m hm)

theorem Inv.ready (h : s.Inv w Serving.none) {x : RpcStream} (hx : s.openStream st = some x)
    {ready : SioReady} (hready : StreamOk x.io (.ready ready)) {acts : RpcRef → List FinishArgs}
    (hl : s.looping = false)
    (hb : w.Brings (fun a => s.arrives a (.ready st ready acts)) w') :
    (s.setStream st { x with io := (sioRunReady x.io ready).1 }).Inv w' Serving.none := by
  obtain ⟨hsends, hsfd, htype, -⟩ := h.conns.owner st x hx
  obtain ⟨hsends', hwritten⟩ := hsends.ready hready
  obtain ⟨htype', -, hempty⟩ := hsends.ready_normal htype hready
  have hblind : s.Inv w.blind Serving.none :=
    h.revise rfl rfl ⟨fun _ _ _ => trivial, fun _ _ => trivial⟩ fun _ _ _ _ _ => trivial
  have h1 := hblind.setIo hx hsends' (sioRunReady_sfd ready hsfd) htype'
    (Or.inr ⟨hwritten, hempty⟩) trivial
  have hinput : ∀ a l, a ≠ st → w.input a l → w'.input a l := by
    intro a l ha hl
    have h2 := hb.input a l hl
    rwa [arrives, if_neg ha, List.append_nil] at h2
  refine h1.revise hb.order hb.lasting ⟨fun a y hy => ?_, fun a ha => ?_⟩
    fun r a f m hm => hb.received a f (h.responses.received r a f m hm)
  · rcases setStream_cases hy with ⟨rfl, rfl⟩ | ⟨hne, hy⟩
    · have hread := hb.input a _ (h.reads.input a x hx)
      have harrives : s.arrives a (.ready a ready acts) = sioReads x.io ready := by
        rw [arrives, if_pos rfl, hx, hl]
        rfl
      rwa [harrives, ← hsends.ready_reads hready] at hread
    · exact hinput a _ hne (h.reads.input a y hy)
  · refine hinput a [] ?_ (h.reads.unborn a ha)
    rintro rfl
    exact absurd (h.fresh.lt_stream (openStream_some.mp hx).1) (Nat.not_lt.mpr ha)

end RpcServer

theorem RpcServer.arrives_other {s : RpcServer} {op : ServerOp}
    (h : ∀ st ready acts, op ≠ .ready st ready acts) (a : RpcRef) : s.arrives a op = [] := by
  cases op with
  | ready st ready acts => exact absurd rfl (h st ready acts)
  | _ => rfl

/-- What a step of a server does: bytes come in on an open stream, or none. -/
inductive ServerDoes (e : ByteOrder) (s : RpcServer) : ServerOp → RpcServer → Prop
  | rests {op : ServerOp} : (∀ a, s.arrives a op = []) → ServerDoes e s op s
  | ready {st : RpcRef} {ready : SioReady} {acts : RpcRef → List FinishArgs} {x : RpcStream}
      {s' : RpcServer} : s.looping = false → s.openStream st = some x →
      serverReady e s st x ready acts = some s' → ServerDoes e s (.ready st ready acts) s'
  | other {op : ServerOp} {s' : RpcServer} : s.looping = false →
      (∀ st ready acts, op ≠ .ready st ready acts) → serverDo e s op = some s' →
      ServerDoes e s op s'

theorem serverStep_does {e : ByteOrder} {s s' : RpcServer} {op : ServerOp}
    (hstep : serverStep e s op = some (s', ())) : ServerDoes e s op s' := by
  unfold serverStep at hstep
  cases hl : s.looping with
  | true =>
    rw [hl, if_pos rfl] at hstep
    cases hstep
    refine .rests fun a => ?_
    cases op with
    | ready st ready acts => rw [RpcServer.arrives, hl, rpcArrives_looping, ite_self]
    | _ => rfl
  | false =>
    rw [hl, if_neg (by decide)] at hstep
    obtain ⟨s1, hdo, heq⟩ := Option.map_eq_some_iff.mp hstep
    cases heq
    cases op with
    | ready st ready acts =>
      rw [serverDo] at hdo
      cases hx : s.openStream st with
      | none =>
        rw [hx] at hdo
        cases hdo
        refine .rests fun a => ?_
        rw [RpcServer.arrives]
        split
        · next ha => rw [ha, hx, rpcArrives]
        · rfl
      | some x =>
        rw [hx] at hdo
        exact .ready hl hx hdo
    | _ => exact .other hl (fun _ _ _ he => by cases he) hdo

theorem serverStep_view {w w' : RpcView} {s s' : RpcServer} (h : s.Inv w Serving.none)
    {op : ServerOp} (hop : ServerFits w.order w.lasting s op)
    (hb : w.Brings (fun st => s.arrives st op) w')
    (hstep : serverStep w.order s op = some (s', ())) : s'.Inv w' Serving.none := by
  rw [← hb.order, ← hb.lasting] at hop
  rw [← hb.order] at hstep
  cases serverStep_does hstep with
  | rests hnone => exact h.quiet hb hnone
  | @ready st ready acts x _ hl hx hdo =>
    obtain ⟨hsends, -, htype, ds, hds, hst⟩ := h.conns.owner st x hx
    rcases serverReady_rest hx (hop.1 x hx) hsends htype hds hst (h.ready hx (hop.1 x hx) hl hb)
      hop.2 with ⟨hnone, -⟩ | ⟨-, s2, hdo2, h2⟩
    · rw [hnone] at hdo
      cases hdo
    · rw [hdo2] at hdo
      cases hdo
      exact h2
  | other _ hno hdo =>
    obtain ⟨s2, hdo2, h2⟩ :=
      serverDo_other (h.quiet hb (RpcServer.arrives_other hno)) op hop hno
    rw [hdo2] at hdo
    cases hdo
    exact h2

end SimpleKit
