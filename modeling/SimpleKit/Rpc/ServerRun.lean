import SimpleKit.Rpc.ServerEvents

set_option autoImplicit false

namespace SimpleKit
open Runs Framing
open RpcServer

/-- What the user and the event loop do to a server; `acts r` is what the callback of a method
does with the response `r`. -/
inductive ServerOp where
  | accept : Bool → ServerOp
  | ready : RpcRef → SioReady → (RpcRef → List FinishArgs) → ServerOp
  | timer : RpcRef → ServerOp
  | finish : FinishArgs → ServerOp
  | addMethod : UInt32 → Nat → Nat → ServerOp

def serverReady (e : ByteOrder) (s : RpcServer) (st : RpcRef) (x : RpcStream) (ready : SioReady)
    (acts : RpcRef → List FinishArgs) : Option RpcServer :=
  let (io, event) := sioRunReady x.io ready
  let s := s.setStream st { x with io := io }
  match event with
  | none => some s
  | some event => sioRpcDstreamCallback e (sioBufferLength io.inbuf) s x.arg acts event

def serverTimer (s : RpcServer) (d : RpcRef) : Option RpcServer := do
  let s ← s.stopTimer d
  sioRpcDstreamTimer s d

def serverDo (e : ByteOrder) (s : RpcServer) : ServerOp → Option RpcServer
  | .accept ok =>
    match sioStreamAccept ok with
    | none => some s
    | some io => sioRpcDstreamAccept s io
  | .ready st ready acts =>
    match s.openStream st with
    | none => some s
    | some x => serverReady e s st x ready acts
  | .timer d => if d ∈ s.timers then serverTimer s d else some s
  | .finish args => serverAct e s args
  | .addMethod type cb arg => some (sioRpcServerAddMethod s type cb arg)

/-- Nothing more happens while a loop goes on for ever. -/
def serverStep (e : ByteOrder) (s : RpcServer) (op : ServerOp) : Option (RpcServer × Unit) :=
  if s.looping then some (s, ()) else (serverDo e s op).map fun s => (s, ())

def ReadyAlong (e : ByteOrder) (cond : RpcRef → RpcServer → FinishArgs → Prop) (s : RpcServer)
    (st : RpcRef) (ready : SioReady) (acts : RpcRef → List FinishArgs) : Prop :=
  ∀ x, s.openStream st = some x → (sioRunReady x.io ready).2 = some .data →
    LoopAlong e (sioBufferLength (sioRunReady x.io ready).1.inbuf) x.arg acts (cond x.arg)
      (s.setStream st { x with io := (sioRunReady x.io ready).1 })

def ServerOk (s : RpcServer) : ServerOp → Prop
  | .ready st ready acts =>
    (∀ x, s.openStream st = some x → StreamOk x.io (.ready ready)) ∧
      ∀ r, ∀ args ∈ acts r, args.Ok
  | .finish args => args.Ok
  | _ => True

/-- No callback closes the connection of its own request, by finishing a response on it that is
refused as a whole. -/
def ServerSpares (e : ByteOrder) (s : RpcServer) : ServerOp → Prop
  | .ready st ready acts => s.looping = false →
    ReadyAlong e (fun d s args => args.Spares d s) s st ready acts
  | _ => True

def ServerFits (e : ByteOrder) (lasting : Prop) (s : RpcServer) : ServerOp → Prop
  | .ready st ready acts =>
    (∀ x, s.openStream st = some x → StreamOk x.io (.ready ready)) ∧
      ReadyAlong e (fun _ s args => args.Fits lasting s) s st ready acts
  | .finish args => args.Fits lasting s
  | _ => True

variable {w : RpcView} {s s' : RpcServer} {d st : RpcRef} {acts : RpcRef → List FinishArgs}

theorem ServerOk.fits {op : ServerOp} (h : ServerOk s op) (e : ByteOrder) :
    ServerFits e False s op := by
  cases op with
  | ready st ready acts =>
    exact ⟨h.1, fun _ _ _ => LoopAlong.of_all (fun s r args ha => (h.2 r args ha).fits s) _ _ _⟩
  | finish args => exact FinishArgs.Ok.fits h s
  | accept ok => trivial
  | timer d => trivial
  | addMethod type cb arg => trivial

def RpcView.ServerReads (w : RpcView) (s : RpcServer) (op : ServerOp) : Prop :=
  ∀ st ready acts x, op = .ready st ready acts → s.openStream st = some x →
    w.input st (sioBufferData (sioRunReady x.io ready).1.inbuf)

theorem serverReady_rest {x : RpcStream} {ready : SioReady} {ds : RpcDstream}
    (hx : s.openStream st = some x) (hready : StreamOk x.io (.ready ready))
    (hsends : x.io.Sends) (htype : x.io.type = .normal) (hds : s.dstream x.arg = some ds)
    (hst : ds.stream = st)
    (h : (s.setStream st { x with io := (sioRunReady x.io ready).1 }).Inv w Serving.none)
    (hfits : ReadyAlong w.order (fun _ s args => args.Fits w.lasting s) s st ready acts) :
    serverReady w.order s st x ready acts = none ∧
        ¬ ReadyAlong w.order (fun d s args => args.Spares d s) s st ready acts ∨
      ReadyAlong w.order (fun d s args => args.Spares d s) s st ready acts ∧
        ∃ s', serverReady w.order s st x ready acts = some s' ∧ s'.Inv w Serving.none := by
  subst hst
  obtain ⟨-, hconn, -⟩ := hsends.ready_normal htype hready
  have haccept := sioRunReady_event x.io ready
  have halong : ∀ cond, ReadyAlong w.order cond s ds.stream ready acts ↔
      ((sioRunReady x.io ready).2 = some .data →
        LoopAlong w.order (sioBufferLength (sioRunReady x.io ready).1.inbuf) x.arg acts
          (cond x.arg) (s.setStream ds.stream { x with io := (sioRunReady x.io ready).1 })) := by
    refine fun cond => ⟨fun ha => ha x hx, fun ha x' hx' => ?_⟩
    obtain rfl := Option.some.inj (hx.symm.trans hx')
    exact ha
  rw [halong] at hfits ⊢
  unfold serverReady
  revert h hfits hconn haccept
  generalize sioRunReady x.io ready = y
  obtain ⟨io, event⟩ := y
  intro h hfits hconn haccept
  cases event with
  | none => exact Or.inr ⟨nofun, _, rfl, h⟩
  | some event =>
    rcases sioRpcDstreamCallback_spec h hds (sioBufferLength io.inbuf)
      (fun he => haccept (congrArg some he)) (fun he => hconn (congrArg some he))
      (fun he => hfits (congrArg some he)) with ⟨hnone, rfl, hbad⟩ | ⟨hall, hend⟩
    · exact Or.inl ⟨hnone, fun ha => hbad (ha rfl)⟩
    · exact Or.inr ⟨fun he => hall (Option.some.inj he), hend⟩

theorem serverReady_spec (h : s.Inv w Serving.none) {x : RpcStream} (hx : s.openStream st = some x)
    {ready : SioReady} (hready : StreamOk x.io (.ready ready))
    (hinput : w.input st (sioBufferData (sioRunReady x.io ready).1.inbuf))
    (hfits : ReadyAlong w.order (fun _ s args => args.Fits w.lasting s) s st ready acts) :
    serverReady w.order s st x ready acts = none ∧
        ¬ ReadyAlong w.order (fun d s args => args.Spares d s) s st ready acts ∨
      ReadyAlong w.order (fun d s args => args.Spares d s) s st ready acts ∧
        ∃ s', serverReady w.order s st x ready acts = some s' ∧ s'.Inv w Serving.none := by
  obtain ⟨hsends, hsfd, htype, ds, hds, hst⟩ := h.conns.owner st x hx
  obtain ⟨hsends', hwritten⟩ := hsends.ready hready
  obtain ⟨htype', -, hempty⟩ := hsends.ready_normal htype hready
  have h1 := h.setIo hx hsends' (sioRunReady_sfd ready hsfd) htype' (Or.inr ⟨hwritten, hempty⟩)
    hinput
  exact serverReady_rest hx hready hsends htype hds hst h1 hfits

theorem serverTimer_spec (h : s.Inv w Serving.none) (hd : d ∈ s.timers) :
    ∃ s', serverTimer s d = some s' ∧ s'.Inv w Serving.none := by
  have hcount : 0 < s.timers.count d := List.count_pos_iff.mpr hd
  have hsome : (s.dstream d).isSome := by
    rw [h.conns.ticks] at hcount
    split at hcount
    · next hc => exact hc.1
    · cases hcount
  obtain ⟨ds, hds⟩ := Option.isSome_iff_exists.mp hsome
  obtain ⟨hstop, h1⟩ := h.stopTick hsome List.not_mem_nil
  unfold serverTimer
  simp only [hstop, Option.bind_eq_bind, Option.bind_some]
  exact sioRpcDstreamTimer_spec h1 hds

theorem sioRpcDstreamAccept_spec (h : s.Inv w Serving.none) {ok : Bool} {io : SioStream}
    (hio : sioStreamAccept ok = some io) :
    ∃ s', sioRpcDstreamAccept s io = some s' ∧ s'.Inv w Serving.none := by
  cases ok with
  | false => cases hio
  | true =>
    obtain ⟨hfree, h1⟩ := h.accepted hio
    exact ⟨_, if_neg hfree, h1⟩

theorem serverDo_other (h : s.Inv w Serving.none) (op : ServerOp)
    (hop : ServerFits w.order w.lasting s op)
    (hready : ∀ st ready acts, op ≠ .ready st ready acts) :
    ∃ s', serverDo w.order s op = some s' ∧ s'.Inv w Serving.none := by
  cases op with
  | accept ok =>
    rw [serverDo]
    cases hio : sioStreamAccept ok with
    | none => exact ⟨s, rfl, h⟩
    | some io => exact sioRpcDstreamAccept_spec h hio
  | ready st ready acts => exact absurd rfl (hready st ready acts)
  | timer d =>
    rw [serverDo]
    split
    · next hd => exact serverTimer_spec h hd
    · exact ⟨s, rfl, h⟩
  | finish args =>
    obtain ⟨s', hact, h', -⟩ := serverAct_spec h hop
    exact ⟨s', hact, h'⟩
  | addMethod type cb arg => exact ⟨_, rfl, h.addMethod type cb arg⟩

theorem serverDo_spec (h : s.Inv w Serving.none) (hrun : s.looping = false) {op : ServerOp}
    (hop : ServerFits w.order w.lasting s op) (hreads : w.ServerReads s op) :
    serverDo w.order s op = none ∧ ¬ ServerSpares w.order s op ∨
      ServerSpares w.order s op ∧
        ∃ s', serverDo w.order s op = some s' ∧ s'.Inv w Serving.none := by
  cases op with
  | ready st ready acts =>
    rw [serverDo, ServerSpares, hrun, imp_iff_right rfl]
    cases hx : s.openStream st with
    | none =>
      refine Or.inr ⟨fun x hx' => ?_, s, rfl, h⟩
      rw [hx] at hx'
      cases hx'
    | some x => exact serverReady_spec h hx (hop.1 x hx) (hreads st ready acts x rfl hx) hop.2
  | accept ok => exact Or.inr ⟨trivial, serverDo_other h _ hop nofun⟩
  | timer d => exact Or.inr ⟨trivial, serverDo_other h _ hop nofun⟩
  | finish args => exact Or.inr ⟨trivial, serverDo_other h _ hop nofun⟩
  | addMethod type cb arg => exact Or.inr ⟨trivial, serverDo_other h _ hop nofun⟩

theorem serverStep_spec (h : s.Inv w Serving.none) {op : ServerOp}
    (hop : ServerFits w.order w.lasting s op) (hreads : w.ServerReads s op) :
    serverStep w.order s op = none ∧ ¬ ServerSpares w.order s op ∨
      ServerSpares w.order s op ∧
        ∃ s', serverStep w.order s op = some (s', ()) ∧ s'.Inv w Serving.none := by
  unfold serverStep
  cases hl : s.looping with
  | true =>
    refine Or.inr ⟨?_, s, if_pos rfl, h⟩
    cases op with
    | ready st ready acts => exact fun hno => absurd (hl.symm.trans hno) (by decide)
    | _ => trivial
  | false =>
    rw [if_neg (by decide)]
    rcases serverDo_spec h hl hop hreads with ⟨hnone, hbad⟩ | ⟨hspares, s', hdo, h'⟩
    · exact Or.inl ⟨by rw [hnone]; rfl, hbad⟩
    · exact Or.inr ⟨hspares, s', by rw [hdo]; rfl, h'⟩

theorem server_run_inv (e : ByteOrder) (maxPending : Nat) {ops : List ServerOp}
    (hops : Along (serverStep e) (fun s op => ServerOk s op ∧ ServerSpares e s op)
      (sioRpcServerNew maxPending) ops) :
    ∃ s rets, run (serverStep e) (sioRpcServerNew maxPending) ops = some (s, rets) ∧
      s.Inv (RpcView.any e) Serving.none :=
  run_invariant (fun s => s.Inv (RpcView.any e) Serving.none)
    (fun s op h hop => by
      rcases serverStep_spec h (hop.1.fits e) fun _ _ _ _ _ _ => trivial with
        ⟨-, hbad⟩ | ⟨-, s', hrun, h'⟩
      · exact absurd hop.2 hbad
      · exact ⟨s', (), hrun, h'⟩)
    (sioRpcServerNew_inv _ (fun _ => trivial) maxPending) hops

def ServerOp.NoFail : ServerOp → Prop
  | .ready _ _ acts => ∀ r, ∀ args ∈ acts r, FinishArgs.NoFail args
  | _ => True

theorem ServerOp.NoFail.spares {op : ServerOp} (h : op.NoFail) (e : ByteOrder) (s : RpcServer) :
    ServerSpares e s op := by
  cases op with
  | ready st ready acts =>
    exact fun _ _ _ _ => LoopAlong.of_all (fun s r args ha => (h r args ha).spares _ s) _ _ _
  | _ => trivial

def serverSampleFrame : Frame := ⟨⟨7, 3, 0, 0, 1⟩, [9]⟩

/-- A connection, a method and a request for it; `acts` is what the method does. -/
def serverSampleOps (acts : RpcRef → List FinishArgs) : List ServerOp :=
  [.accept true, .addMethod 3 5 6,
    .ready 0 (.read (.ok (frameWire .little serverSampleFrame))) acts,
    .timer 1]

theorem serverSampleOps_ok (e : ByteOrder) {acts : RpcRef → List FinishArgs}
    (hacts : ∀ r, ∀ args ∈ acts r, args.Ok) (s : RpcServer) :
    Along (serverStep e) ServerOk s (serverSampleOps acts) := by
  have hread : ReadAtMost 4096 (.ok (frameWire .little serverSampleFrame)) := by
    decide +kernel
  refine Along.of_all fun s op hop => ?_
  simp only [serverSampleOps, List.mem_cons, List.not_mem_nil, or_false] at hop
  rcases hop with rfl | rfl | rfl | rfl
  · trivial
  · trivial
  · exact ⟨fun _ _ => hread, hacts⟩
  · trivial

theorem serverSampleOps_noFail {acts : RpcRef → List FinishArgs}
    (hacts : ∀ r, ∀ args ∈ acts r, args.NoFail) : ∀ op ∈ serverSampleOps acts, op.NoFail := by
  intro op hop
  simp only [serverSampleOps, List.mem_cons, List.not_mem_nil, or_false] at hop
  rcases hop with rfl | rfl | rfl | rfl
  · trivial
  · trivial
  · exact hacts
  · trivial

/-- The loop over the input of a connection, and all else that a server does, uses nothing that
is freed and frees nothing twice, exactly if no callback closes the connection of its request. -/
theorem rpc_server_survives (e : ByteOrder) (maxPending : Nat) {ops : List ServerOp}
    (hops : Along (serverStep e) ServerOk (sioRpcServerNew maxPending) ops) :
    (run (serverStep e) (sioRpcServerNew maxPending) ops).isSome ↔
      Along (serverStep e) (ServerSpares e) (sioRpcServerNew maxPending) ops := by
  rcases run_along (fun s => s.Inv (RpcView.any e) Serving.none) (ServerSpares e)
    (fun s op h hop => by
      rcases serverStep_spec h (hop.fits e) fun _ _ _ _ _ _ => trivial with
        hbad | ⟨hspares, s', hrun, h'⟩
      · exact Or.inl hbad
      · exact Or.inr ⟨hspares, s', (), hrun, h'⟩)
    (sioRpcServerNew_inv _ (fun _ => trivial) maxPending) hops with
    ⟨hnone, hbad⟩ | ⟨hall, s, rets, hrun, -⟩
  · exact iff_of_false (by rw [hnone]; nofun) hbad
  · exact iff_of_true (by rw [hrun]; rfl) hall

def answerAtOnce (head sent : Except Errno Nat) (r : RpcRef) : List FinishArgs :=
  [⟨r, [1], head, sent⟩]

theorem answerAtOnce_ok (head sent : Except Errno Nat) (hhead : WroteAtMost 24 head)
    (hsent : WroteAtMost 1 sent) : ∀ r, ∀ args ∈ answerAtOnce head sent r, args.Ok := by
  intro r args ha
  cases List.mem_singleton.mp ha
  exact ⟨hhead, hsent⟩

theorem answerAtOnce_noFail {head sent : Except Errno Nat} (hhead : head ≠ .error .other)
    (hsent : sent ≠ .error .other) : ∀ r, ∀ args ∈ answerAtOnce head sent r, args.NoFail := by
  intro r args ha
  cases List.mem_singleton.mp ha
  exact ⟨hhead, hsent⟩

/-- Both parts of the response are refused, and the loop goes on with a buffer that is freed. -/
theorem rpc_server_uses_freed : Along (serverStep .little) ServerOk (sioRpcServerNew 4096)
      (serverSampleOps (answerAtOnce (.error .other) (.error .other))) ∧
    run (serverStep .little) (sioRpcServerNew 4096)
      (serverSampleOps (answerAtOnce (.error .other) (.error .other))) = none :=
  ⟨serverSampleOps_ok .little (answerAtOnce_ok (.error .other) (.error .other) trivial trivial) _,
    Option.isNone_iff_eq_none.mp (by decide +kernel)⟩

theorem rpc_server_survives_sample :
    (run (serverStep .little) (sioRpcServerNew 4096)
      (serverSampleOps (answerAtOnce (.ok 24) (.ok 1)))).isSome ∧
      ¬ Along (serverStep .little) (ServerSpares .little) (sioRpcServerNew 4096)
        (serverSampleOps (answerAtOnce (.error .other) (.error .other))) := by
  have hok := serverSampleOps_ok .little (answerAtOnce_ok (.ok 24) (.ok 1) (Nat.le_refl 24)
    (Nat.le_refl 1)) (sioRpcServerNew 4096)
  have hnofail : ∀ r, ∀ args ∈ answerAtOnce (.ok 24) (.ok 1) r, args.NoFail :=
    answerAtOnce_noFail nofun nofun
  have hops := hok.and (serverSampleOps_noFail hnofail)
  refine ⟨(rpc_server_survives .little 4096 hok).mpr
    (hops.mono fun s _ hop => hop.1.spares .little s), fun hspares => ?_⟩
  have hsome := (rpc_server_survives .little 4096 (serverSampleOps_ok .little
    (answerAtOnce_ok (.error .other) (.error .other) trivial trivial) _)).mpr hspares
  have hnone : (run (serverStep .little) (sioRpcServerNew 4096) (serverSampleOps
      (answerAtOnce (.error .other) (.error .other)))).isSome = false := by
    decide +kernel
  rw [hnone] at hsome
  cases hsome

/-- A response to an open connection is written as a whole, the kernel's part and the part that
waits, or the connection is closed, exactly if not one part alone is refused. -/
theorem rpc_finish_whole_or_closed (e : ByteOrder) (h : s.Conns Serving.none) {args : FinishArgs}
    (hargs : args.Ok) {q : RpcResponse} (hq : s.response args.resp = some q)
    (hd : s.dstreams.lookup q.connId = some d) :
    ∃ ds x s', s.dstream d = some ds ∧ s.openStream ds.stream = some x ∧
      sioRpcFinish e s args = some s' ∧
      ((s'.openStream ds.stream = none ∨ ∃ y, s'.openStream ds.stream = some y ∧
          y.io.written = x.io.written ++ frameWire e (finishFrame q args)) ↔ args.Framed x.io) := by
  obtain ⟨ds, hds, -⟩ := (h.table _ d).mp hd
  obtain ⟨x, hx, -⟩ := h.stream d ds hds
  obtain ⟨io, ret1, ret2, hoffer, heq⟩ := sioRpcFinishWrite_eq h hds hx e q hargs
  have hopens := s.offered_openStream ds (openStream_some.mp hx).2 q args io ret1 ret2 ds.stream
  rw [if_pos rfl] at hopens
  have hend : ∀ s1, sioRpcFinishWrite e s d q args = some s1 →
      sioRpcFinish e s args = some (s1.setResponse args.resp none) := by
    intro s1 hrun
    simp only [sioRpcFinish, hq, hd, hrun, Option.bind_eq_bind, Option.bind_some]
  have hframed := hoffer.framed
  by_cases hboth : ret1 ≠ 0 ∧ ret2 ≠ 0
  · obtain ⟨-, -, htype, -⟩ := h.owner _ x hx
    have h1 := RpcServer.offered_conns h hx q args hoffer.sends hoffer.sfd
      (hoffer.type.trans htype) ret1 ret2
    have hds1 : (s.offered ds x q args io ret1 ret2).dstream d = some ds := by
      unfold offered
      split <;> exact hds
    rw [if_pos hboth, sioRpcDstreamFree_eq h1 hds1 List.not_mem_nil hopens] at heq
    refine ⟨ds, x, _, hds, hx, hend _ heq, ?_⟩
    refine iff_of_true (Or.inl ?_) (hframed.mp (Or.inl hboth))
    exact (freed_openStream _ d ds.stream ds _).trans (if_pos rfl)
  · rw [if_neg hboth] at heq
    refine ⟨ds, x, _, hds, hx, hend _ heq, ?_⟩
    have hopen1 : ((s.offered ds x q args io ret1 ret2).setResponse args.resp none).openStream
        ds.stream = some { x with io := io } := hopens
    rw [hopen1, ← hframed, or_iff_right (Option.some_ne_none _),
      or_iff_right hboth]
    refine ⟨?_, fun hw => ⟨_, rfl, hw⟩⟩
    rintro ⟨_, ⟨⟩, hw⟩
    exact hw

/-- The server waits for the response of a request on the stream 0. -/
def waitingServer : Option RpcServer :=
  (run (serverStep .little) (sioRpcServerNew 4096) (serverSampleOps fun _ => [])).map Prod.fst

/-- The kernel takes the header, and the connection breaks before the body is written. -/
def halfSent : FinishArgs := ⟨3, [1], .ok 24, .error .other⟩

theorem waitingServer_conns : ∃ s, waitingServer = some s ∧ s.Conns Serving.none := by
  have hempty : ∀ r : RpcRef, ∀ args ∈ (fun _ => [] : RpcRef → List FinishArgs) r, args.Ok ∧
      args.NoFail := fun _ _ ha => absurd ha List.not_mem_nil
  have hops := (serverSampleOps_ok .little (fun r args ha => (hempty r args ha).1)
    (sioRpcServerNew 4096)).and (serverSampleOps_noFail fun r args ha => (hempty r args ha).2)
  obtain ⟨s, rets, hrun, h⟩ := server_run_inv .little 4096
    (hops.mono fun s op hop => ⟨hop.2, hop.1.spares .little s⟩)
  exact ⟨s, by rw [waitingServer, hrun]; rfl, h.conns⟩

theorem rpc_finish_whole_or_closed_sample : ∃ s q ds x s', waitingServer = some s ∧
    s.dstream 1 = some ds ∧ s.openStream ds.stream = some x ∧
      sioRpcFinish .little s halfSent = some s' ∧
      ((s'.openStream ds.stream = none ∨ ∃ y, s'.openStream ds.stream = some y ∧
          y.io.written = x.io.written ++ frameWire .little (finishFrame q halfSent)) ↔
        halfSent.Framed x.io) := by
  obtain ⟨s, hs, hconns⟩ := waitingServer_conns
  have htables : waitingServer.map (fun s => (s.response 3, s.dstreams.lookup 0)) =
      some (some ⟨0, serverSampleFrame.received.head, [9]⟩, some 1) := by decide +kernel
  rw [hs, Option.map_some, Option.some.injEq, Prod.mk.injEq] at htables
  have hok : halfSent.Ok := ⟨Nat.le_refl 24, trivial⟩
  obtain ⟨ds, x, s', hds, h⟩ := rpc_finish_whole_or_closed .little hconns hok htables.1 htables.2
  exact ⟨s, _, ds, x, s', hs, hds, h⟩

/-- The connection stays open with a header and no body on it. -/
theorem rpc_finish_half_sent :
    (do
      let s ← waitingServer
      let x ← s.openStream 0
      let s' ← sioRpcFinish .little s halfSent
      let y ← s'.openStream 0
      some (x.io.written, y.io.written)) =
      some ([], (sheadEncode .little ⟨7, 3, 0, 0, 1⟩ (List.replicate sheadEncodeSize 0)).1) := by
  decide +kernel

end SimpleKit
