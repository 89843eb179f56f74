import SimpleKit.Rpc.ClientEvents

set_option autoImplicit false

namespace SimpleKit
open Runs
open RpcClient

/-- What the user and the event loop do to a client; `acts r` is what the callback of the
request `r` does. -/
inductive ClientOp where
  | call : CallArgs → ClientOp
  | addUpstream : String → UInt16 → RpcEnv → ClientOp
  | removeUpstream : String → UInt16 → RpcEnv → ClientOp
  | ready : RpcRef → SioReady → (RpcRef → List ClientAct) → RpcEnv → ClientOp
  | timer : RpcTimer → (RpcRef → List ClientAct) → RpcEnv → ClientOp

/-- An event of a stream that is open. Every round of the loop over the frames that does not
advance is followed by the same one, so more rounds than there are bytes never end. -/
def clientReady (e : ByteOrder) (s : RpcClient) (st : RpcRef) (x : RpcStream) (ready : SioReady)
    (acts : RpcRef → List ClientAct) (env : RpcEnv) : Option RpcClient :=
  let (io, event) := sioRunReady x.io ready
  let s := s.setStream st { x with io := io }
  match event with
  | none => some s
  | some event => sioRpcUpstreamCallback e (sioBufferLength io.inbuf) s x.arg acts env event

def clientTimer (e : ByteOrder) (s : RpcClient) (t : RpcTimer) (acts : RpcRef → List ClientAct)
    (env : RpcEnv) : Option RpcClient := do
  let s ← s.stopTimer t
  match t with
  | .request r => sioRpcCallTimer e s r acts env
  | .upstream u => sioRpcUpstreamTimer s u env

/-- Events of closed streams and of timers that do not run do not occur. -/
def clientDo (e : ByteOrder) (s : RpcClient) : ClientOp → Option RpcClient
  | .call args => sioRpcCall e s args
  | .addUpstream ip port env => sioRpcAddUpstream s ip port env
  | .removeUpstream ip port env => sioRpcRemoveUpstream s ip port env
  | .ready st ready acts env =>
    match s.openStream st with
    | none => some s
    | some x => clientReady e s st x ready acts env
  | .timer t acts env => if t ∈ s.timers then clientTimer e s t acts env else some s

/-- Nothing more happens while a loop goes on for ever. -/
def clientStep (e : ByteOrder) (s : RpcClient) (op : ClientOp) : Option (RpcClient × Unit) :=
  if s.looping then some (s, ()) else (clientDo e s op).map fun s => (s, ())

/-- The kernel transfers no more than it is asked to, and calls that are made in the callback
of a response do not fail to be written. -/
def ClientOk (lasting : Prop) (s : RpcClient) : ClientOp → Prop
  | .call args => args.env.Ok lasting args.body.length
  | .addUpstream _ _ _ => True
  | .removeUpstream _ _ _ => True
  | .ready st ready acts _ =>
    (∀ x, s.openStream st = some x → StreamOk x.io (.ready ready)) ∧
      ∀ r, ∀ act ∈ acts r, act.Ok lasting ∧ act.NoFail
  | .timer t acts env =>
    (∀ r, ∀ act ∈ acts r, act.Ok lasting) ∧
      ∀ r q, t = .request r → s.request r = some q → env.Ok lasting q.body.length

def ClientFits (lasting : Prop) (s : RpcClient) : ClientOp → Prop
  | .call args => args.env.Ok lasting args.body.length
  | .addUpstream _ _ _ => True
  | .removeUpstream _ _ _ => True
  | .ready st ready acts _ =>
    (∀ x, s.openStream st = some x → StreamOk x.io (.ready ready)) ∧
      ∀ r, ∀ act ∈ acts r, act.Ok lasting
  | .timer t acts env =>
    (∀ r, ∀ act ∈ acts r, act.Ok lasting) ∧
      ∀ r q, t = .request r → s.request r = some q → env.Ok lasting q.body.length

/-- No callback of a response makes a call that is refused on the stream of the response. -/
def ClientSpares (e : ByteOrder) (s : RpcClient) : ClientOp → Prop
  | .ready st ready acts _ => s.looping = false → ∀ x, s.openStream st = some x →
    (sioRunReady x.io ready).2 = some .data →
      ResponsesAlong e (sioBufferLength (sioRunReady x.io ready).1.inbuf) x.arg acts
        (fun st s act => ¬ act.Loses s st)
        (s.setStream st { x with io := (sioRunReady x.io ready).1 })
  | _ => True

variable {w : RpcView} {s : RpcClient} {u r st : RpcRef} {acts : RpcRef → List ClientAct}
  {env : RpcEnv} {lasting : Prop}

theorem ClientOk.fits {op : ClientOp} (h : ClientOk lasting s op) : ClientFits lasting s op := by
  cases op with
  | ready st ready acts env => exact ⟨h.1, fun r act ha => (h.2 r act ha).1⟩
  | _ => exact h

theorem ClientOk.spares {op : ClientOp} (h : ClientOk lasting s op) (e : ByteOrder) :
    ClientSpares e s op := by
  cases op with
  | ready st ready acts env =>
    exact fun _ _ _ _ => ResponsesAlong.of_all
      (fun st s r act ha => (h.2 r act ha).2.not_loses s st) _ _ _
  | _ => trivial

theorem clientReady_rest {x : RpcStream} {ready : SioReady}
    (h : (s.setStream st { x with io := (sioRunReady x.io ready).1 }).Inv w Underway.none)
    (hof : s.StreamOf x.arg st) (hacts : ∀ r, ∀ act ∈ acts r, act.Ok w.lasting) (env : RpcEnv)
    {along : Prop}
    (halong : along ↔ ((sioRunReady x.io ready).2 = some .data →
      ResponsesAlong w.order (sioBufferLength (sioRunReady x.io ready).1.inbuf) x.arg acts
        (fun st s act => ¬ act.Loses s st)
        (s.setStream st { x with io := (sioRunReady x.io ready).1 }))) :
    clientReady w.order s st x ready acts env = none ∧ ¬ along ∨
      along ∧ ∃ s', clientReady w.order s st x ready acts env = some s' ∧
        s'.Inv w Underway.none := by
  have hevent := sioRunReady_event x.io ready
  rw [halong]
  clear halong
  unfold clientReady
  revert h hevent
  generalize sioRunReady x.io ready = y
  obtain ⟨io, event⟩ := y
  intro h hevent
  cases event with
  | none => exact Or.inr ⟨nofun, _, rfl, h⟩
  | some event =>
    rcases sioRpcUpstreamCallback_spec h hof hacts (sioBufferLength io.inbuf) env
      (fun he => hevent (congrArg some he)) with ⟨hnone, rfl, hbad⟩ | ⟨hall, hend⟩
    · exact Or.inl ⟨hnone, fun ha => hbad (ha rfl)⟩
    · exact Or.inr ⟨fun he => hall (Option.some.inj he), hend⟩

theorem clientReady_spec (h : s.Inv w Underway.none) {x : RpcStream}
    (hx : s.openStream st = some x) {ready : SioReady} (hready : StreamOk x.io (.ready ready))
    (hinput : w.input st (sioBufferData (sioRunReady x.io ready).1.inbuf))
    (hacts : ∀ r, ∀ act ∈ acts r, act.Ok w.lasting) (env : RpcEnv) {along : Prop}
    (halong : along ↔ ((sioRunReady x.io ready).2 = some .data →
      ResponsesAlong w.order (sioBufferLength (sioRunReady x.io ready).1.inbuf) x.arg acts
        (fun st s act => ¬ act.Loses s st)
        (s.setStream st { x with io := (sioRunReady x.io ready).1 }))) :
    clientReady w.order s st x ready acts env = none ∧ ¬ along ∨
      along ∧ ∃ s', clientReady w.order s st x ready acts env = some s' ∧
        s'.Inv w Underway.none := by
  obtain ⟨hsends, hsfd, hof⟩ := h.wires.owner st x hx
  obtain ⟨hsends', hwritten⟩ := hsends.ready hready
  have h1 := h.setIo hx hsends' (sioRunReady_sfd ready hsfd) (Or.inr hwritten) hinput
  exact clientReady_rest h1 hof hacts env halong

theorem clientTimer_spec (h : s.Inv w Underway.none) {t : RpcTimer} (ht : t ∈ s.timers)
    (hacts : ∀ r, ∀ act ∈ acts r, act.Ok w.lasting)
    (henv : ∀ r q, t = .request r → s.request r = some q → env.Ok w.lasting q.body.length) :
    ∃ s', clientTimer w.order s t acts env = some s' ∧ s'.Inv w Underway.none := by
  have hcount : 0 < s.timers.count t := List.count_pos_iff.mpr ht
  unfold clientTimer
  cases t with
  | request r =>
    have hr : r ∈ s.reqRecord := by
      rw [h.records.armed] at hcount
      split at hcount
      · next hc => exact hc.1
      · cases hcount
    obtain ⟨hstop, h1⟩ := h.stopRequest hr List.not_mem_nil
    simp only [hstop, Option.bind_eq_bind, Option.bind_some]
    exact sioRpcCallTimer_spec h1 hr (hacts r) fun q hq => henv r q rfl hq
  | upstream u =>
    have hu : (s.upstream u).isSome := by
      rw [h.ups.ticks] at hcount
      split at hcount
      · next hc => exact hc.1
      · cases hcount
    obtain ⟨hstop, h1⟩ := h.stopTick hu List.not_mem_nil
    simp only [hstop, Option.bind_eq_bind, Option.bind_some]
    obtain ⟨s', hrun, h', -⟩ := sioRpcUpstreamTimer_spec (p := Underway.none) h1 rfl hu env
    exact ⟨s', hrun, h'⟩

def RpcView.Reads (w : RpcView) (s : RpcClient) (op : ClientOp) : Prop :=
  ∀ st ready acts env x, op = .ready st ready acts env → s.openStream st = some x →
    w.input st (sioBufferData (sioRunReady x.io ready).1.inbuf)

theorem clientDo_spec (h : s.Inv w Underway.none) (hrun : s.looping = false) {op : ClientOp}
    (hop : ClientFits w.lasting s op) (hreads : w.Reads s op) :
    clientDo w.order s op = none ∧ ¬ ClientSpares w.order s op ∨
      ClientSpares w.order s op ∧
        ∃ s', clientDo w.order s op = some s' ∧ s'.Inv w Underway.none := by
  cases op with
  | call args =>
    obtain ⟨s', hrun, h', -⟩ := sioRpcCall_spec h rfl rfl hop
    exact Or.inr ⟨trivial, s', hrun, h'⟩
  | addUpstream ip port env =>
    obtain ⟨s', hrun, h', -⟩ := sioRpcAddUpstream_spec h rfl rfl rfl ip port env
    exact Or.inr ⟨trivial, s', hrun, h'⟩
  | removeUpstream ip port env =>
    obtain ⟨s', hrun, h', -⟩ := sioRpcRemoveUpstream_spec h rfl rfl rfl ip port env
    exact Or.inr ⟨trivial, s', hrun, h'⟩
  | ready st ready acts env =>
    rw [clientDo, ClientSpares, hrun, imp_iff_right rfl]
    cases hx : s.openStream st with
    | none => exact Or.inr ⟨nofun, s, rfl, h⟩
    | some x =>
      refine clientReady_spec h hx (hop.1 x hx) (hreads st ready acts env x rfl hx) hop.2 env ?_
      refine ⟨fun ha => ha x rfl, ?_⟩
      rintro ha _ ⟨⟩
      exact ha
  | timer t acts env =>
    refine Or.inr ⟨trivial, ?_⟩
    rw [clientDo]
    split
    · next ht => exact clientTimer_spec h ht hop.1 hop.2
    · exact ⟨s, rfl, h⟩

theorem clientStep_spec (h : s.Inv w Underway.none) {op : ClientOp}
    (hop : ClientFits w.lasting s op) (hreads : w.Reads s op) :
    clientStep w.order s op = none ∧ ¬ ClientSpares w.order s op ∨
      ClientSpares w.order s op ∧
        ∃ s', clientStep w.order s op = some (s', ()) ∧ s'.Inv w Underway.none := by
  unfold clientStep
  cases hl : s.looping with
  | true =>
    refine Or.inr ⟨?_, s, if_pos rfl, h⟩
    cases op with
    | ready st ready acts env => exact fun hno => absurd (hl.symm.trans hno) (by decide)
    | _ => trivial
  | false =>
    rw [if_neg (by decide)]
    rcases clientDo_spec h hl hop hreads with ⟨hnone, hbad⟩ | ⟨hspares, s', hdo, h'⟩
    · exact Or.inl ⟨by rw [hnone]; rfl, hbad⟩
    · exact Or.inr ⟨hspares, s', by rw [hdo]; rfl, h'⟩

theorem clientStep_inv (h : s.Inv w Underway.none) {op : ClientOp}
    (hop : ClientOk w.lasting s op) (hreads : w.Reads s op) :
    ∃ s', clientStep w.order s op = some (s', ()) ∧ s'.Inv w Underway.none := by
  rcases clientStep_spec h hop.fits hreads with ⟨-, hbad⟩ | ⟨-, hend⟩
  · exact absurd (hop.spares w.order) hbad
  · exact hend

theorem sioRpcClientNew_inv (w : RpcView) (hw : ∀ st, w.input st []) (maxPending : Nat) :
    (sioRpcClientNew maxPending).Inv w Underway.none := by
  refine ⟨⟨fun u k r => ?_, nofun⟩, ⟨nofun, nofun, ?_, nofun, nofun, nofun, nofun⟩,
    ⟨List.nodup_nil, fun r => ?_, fun r => rfl, nofun, fun r => Nat.zero_le _, fun r => ?_⟩,
    ⟨List.nodup_nil, fun u => ?_, nofun, fun u => rfl⟩,
    ⟨fun _ _ => rfl, fun _ _ => rfl, fun _ _ => rfl, nofun, fun _ _ => rfl, ?_⟩,
    ⟨nofun, fun st _ => hw st⟩, nofun⟩
  all_goals simp [sioRpcClientNew, Underway.none, table, link, StreamOf, Called]

theorem client_run_inv (e : ByteOrder) (maxPending : Nat) {ops : List ClientOp}
    (hops : Along (clientStep e) (ClientOk False) (sioRpcClientNew maxPending) ops) :
    ∃ s rets, run (clientStep e) (sioRpcClientNew maxPending) ops = some (s, rets) ∧
      s.Inv (RpcView.any e) Underway.none :=
  run_invariant (fun s => s.Inv (RpcView.any e) Underway.none)
    (fun s op h hop => by
      obtain ⟨s', hrun, h'⟩ := clientStep_inv h hop fun _ _ _ _ _ _ _ => trivial
      exact ⟨s', (), hrun, h'⟩)
    (sioRpcClientNew_inv _ (fun _ => trivial) maxPending) hops

/-- Every call is recorded, with its timer in the heap once, until its callback is invoked,
and is nowhere from then on; the end of the client invokes the callbacks that are left. -/
theorem rpc_calls_answered_once (e : ByteOrder) (maxPending : Nat) {ops : List ClientOp}
    (hops : Along (clientStep e) (ClientOk False) (sioRpcClientNew maxPending) ops) :
    ∃ s rets, run (clientStep e) (sioRpcClientNew maxPending) ops = some (s, rets) ∧
      (∀ r, s.log.countP (ClientEvent.calls r) ≤ 1 ∧
        (¬ Called r s.log → s.log.countP (ClientEvent.answers r) = 0) ∧
        (Called r s.log →
          s.log.countP (ClientEvent.answers r) = 0 ∧ r ∈ s.reqRecord ∧
              s.timers.count (.request r) = 1 ∨
            s.log.countP (ClientEvent.answers r) = 1 ∧ r ∉ s.reqRecord ∧
              s.timers.count (.request r) = 0)) ∧
      ∀ order env, order.Perm s.reqRecord → ∃ s', sioRpcClientFree s order env = some s' ∧
        ∀ r, (Called r s'.log ↔ Called r s.log) ∧
          (Called r s'.log → s'.log.countP (ClientEvent.answers r) = 1) := by
  obtain ⟨s, rets, hrun, h⟩ := client_run_inv e maxPending hops
  refine ⟨s, rets, hrun, fun r => ⟨h.records.once r, fun hno => ?_, fun hcall => ?_⟩,
    fun order env horder => ?_⟩
  · rw [h.records.answers, if_neg fun hc => hno hc.1]
  · rw [h.records.answers, h.records.armed]
    by_cases hr : r ∈ s.reqRecord
    · exact Or.inl ⟨if_neg fun hc => hc.2.elim (fun hout => hout hr) List.not_mem_nil, hr,
        if_pos ⟨hr, List.not_mem_nil⟩⟩
    · exact Or.inr ⟨if_pos ⟨hcall, Or.inl hr⟩, hr, if_neg fun hc => hr hc.1⟩
  · obtain ⟨s', hfree, hend⟩ := sioRpcClientFree_spec h horder env
    refine ⟨s', hfree, fun r => ⟨(hend r).1, fun hcall => ?_⟩⟩
    rw [(hend r).2, if_pos ((hend r).1.mp hcall)]

def clientSampleEnv : RpcEnv := ⟨7, 7, 7, true, .ok 24, .ok 0⟩

def clientSampleCall : CallArgs := ⟨3, 100, 1, [8, 9], clientSampleEnv⟩

def responseSample : Frame := ⟨⟨0, 3, 0, 0, 1⟩, [5]⟩

/-- Two calls are sent. The first is sent again when its timer expires, and the second is
answered, and its callback makes another call; then the first times out. -/
def clientSampleOps : List ClientOp :=
  [.addUpstream "127.0.0.1" 80 clientSampleEnv,
    .ready 1 (.write true (.ok 0)) (fun _ => []) clientSampleEnv, .call clientSampleCall,
    .call clientSampleCall, .timer (.request 2) (fun _ => []) clientSampleEnv,
    .ready 1 (.read (.ok (frameWire .little ⟨⟨1, 3, 0, 0, 1⟩, [5]⟩)))
      (fun _ => [.call clientSampleCall]) clientSampleEnv,
    .timer (.request 2) (fun _ => []) clientSampleEnv]

theorem clientSampleEnv_ok (lasting : Prop) (size : Nat) : clientSampleEnv.Ok lasting size :=
  ⟨by decide, Nat.zero_le _, nofun⟩

theorem clientSampleOps_ok (e : ByteOrder) (s : RpcClient) :
    Along (clientStep e) (ClientOk False) s clientSampleOps := by
  have hread : ReadAtMost 4096 (.ok (frameWire .little ⟨⟨1, 3, 0, 0, 1⟩, [5]⟩)) := by
    decide +kernel
  have hnone : ∀ r : RpcRef, ∀ act ∈ (fun _ => [] : RpcRef → List ClientAct) r,
      act.Ok False ∧ act.NoFail := fun _ _ ha => absurd ha List.not_mem_nil
  have htimer : ∀ s, ClientOk False s (.timer (.request 2) (fun _ => []) clientSampleEnv) := fun _ =>
    ⟨fun r act ha => (hnone r act ha).1, fun _ _ _ _ => clientSampleEnv_ok _ _⟩
  refine Along.of_all fun s op hop => ?_
  simp only [clientSampleOps, List.mem_cons, List.not_mem_nil, or_false] at hop
  rcases hop with rfl | rfl | rfl | rfl | rfl | rfl | rfl
  · trivial
  · exact ⟨fun _ _ => Nat.zero_le _, hnone⟩
  · exact clientSampleEnv_ok _ _
  · exact clientSampleEnv_ok _ _
  · exact htimer s
  · refine ⟨fun _ _ => hread, fun r act ha => ?_⟩
    cases List.mem_singleton.mp ha
    exact ⟨clientSampleEnv_ok _ _, nofun, nofun⟩
  · exact htimer s

theorem rpc_calls_answered_once_sample : ∃ s rets,
    run (clientStep .little) (sioRpcClientNew 4096) clientSampleOps = some (s, rets) ∧
      s.reqRecord = [4] ∧ (∀ r, s.log.countP (ClientEvent.calls r) ≤ 1 ∧
        (¬ Called r s.log → s.log.countP (ClientEvent.answers r) = 0) ∧
        (Called r s.log →
          s.log.countP (ClientEvent.answers r) = 0 ∧ r ∈ s.reqRecord ∧
              s.timers.count (.request r) = 1 ∨
            s.log.countP (ClientEvent.answers r) = 1 ∧ r ∉ s.reqRecord ∧
              s.timers.count (.request r) = 0)) ∧
      ∀ order env, order.Perm s.reqRecord → ∃ s', sioRpcClientFree s order env = some s' ∧
        ∀ r, (Called r s'.log ↔ Called r s.log) ∧
          (Called r s'.log → s'.log.countP (ClientEvent.answers r) = 1) := by
  obtain ⟨s, rets, hrun, hlog, hfree⟩ :=
    rpc_calls_answered_once .little 4096 (clientSampleOps_ok .little _)
  have hleft : (run (clientStep .little) (sioRpcClientNew 4096) clientSampleOps).map
      (fun x => x.1.reqRecord) = some [4] := by decide +kernel
  rw [hrun] at hleft
  exact ⟨s, rets, hrun, Option.some.inj hleft, hlog, hfree⟩

/-- The loop over the responses, and all else that a client does, uses nothing that is freed and
closes no stream twice, exactly if no callback of a response makes a call that is refused on the
stream of the response. -/
theorem rpc_client_survives (e : ByteOrder) (maxPending : Nat) {ops : List ClientOp}
    (hops : Along (clientStep e) (ClientFits False) (sioRpcClientNew maxPending) ops) :
    (run (clientStep e) (sioRpcClientNew maxPending) ops).isSome ↔
      Along (clientStep e) (ClientSpares e) (sioRpcClientNew maxPending) ops := by
  rcases run_along (fun s => s.Inv (RpcView.any e) Underway.none) (ClientSpares e)
    (fun s op h hop => by
      rcases clientStep_spec h hop fun _ _ _ _ _ _ _ => trivial with
        hbad | ⟨hspares, s', hrun, h'⟩
      · exact Or.inl hbad
      · exact Or.inr ⟨hspares, s', (), hrun, h'⟩)
    (sioRpcClientNew_inv _ (fun _ => trivial) maxPending) hops with
    ⟨hnone, hbad⟩ | ⟨hall, s, rets, hrun, -⟩
  · exact iff_of_false (by rw [hnone]; nofun) hbad
  · exact iff_of_true (by rw [hrun]; rfl) hall

/-- A call is answered, and its callback makes another one, of which write(2) refuses the header. -/
def nestedSampleOps : List ClientOp :=
  [.addUpstream "127.0.0.1" 80 clientSampleEnv,
    .ready 1 (.write true (.ok 0)) (fun _ => []) clientSampleEnv,
    .call ⟨3, 100, 1, [], clientSampleEnv⟩,
    .ready 1 (.read (.ok (frameWire .little responseSample)))
      (fun _ => [.call ⟨3, 100, 1, [], { clientSampleEnv with
        head := .error .other, body := .error .other }⟩])
      clientSampleEnv]

theorem nestedSampleOps_fits (e : ByteOrder) (s : RpcClient) :
    Along (clientStep e) (ClientFits False) s nestedSampleOps := by
  have hread : ReadAtMost 4096 (.ok (frameWire .little responseSample)) := by
    decide +kernel
  refine Along.of_all fun s op hop => ?_
  simp only [nestedSampleOps, List.mem_cons, List.not_mem_nil, or_false] at hop
  rcases hop with rfl | rfl | rfl | rfl
  · trivial
  · exact ⟨fun _ _ => Nat.zero_le _, fun _ _ ha => absurd ha List.not_mem_nil⟩
  · exact clientSampleEnv_ok _ _
  · refine ⟨fun _ _ => hread, fun _ _ ha => ?_⟩
    cases List.mem_singleton.mp ha
    exact ⟨trivial, trivial, False.elim⟩

/-- The second call resets the upstream, and the loop goes on with a buffer that is freed. -/
theorem rpc_client_uses_freed : Along (clientStep .little) (ClientFits False) (sioRpcClientNew 4096)
      nestedSampleOps ∧
    run (clientStep .little) (sioRpcClientNew 4096) nestedSampleOps = none :=
  ⟨nestedSampleOps_fits .little _, Option.isNone_iff_eq_none.mp (by decide +kernel)⟩

theorem rpc_client_survives_sample :
    (run (clientStep .little) (sioRpcClientNew 4096) clientSampleOps).isSome ∧
      ¬ Along (clientStep .little) (ClientSpares .little) (sioRpcClientNew 4096)
        nestedSampleOps := by
  have hok := clientSampleOps_ok .little (sioRpcClientNew 4096)
  refine ⟨(rpc_client_survives .little 4096 (hok.mono fun _ _ h => h.fits)).mpr
    (hok.mono fun _ _ h => h.spares .little), fun hspares => ?_⟩
  have hsome := (rpc_client_survives .little 4096 (nestedSampleOps_fits .little _)).mpr hspares
  have hnone : (run (clientStep .little) (sioRpcClientNew 4096) nestedSampleOps).isSome = false := by
    decide +kernel
  rw [hnone] at hsome
  cases hsome

end SimpleKit
