import SimpleKit.Io.SocketsOps

set_option autoImplicit false

namespace SimpleKit.Loop
open Runs

variable {K : Type} {B : SioBackend K} {asked : K → Int → Asked}
  {batch batch' : Option (List (SfdRef × SioEvents))} {s t : Sockets K} {k : SockRef}
  {x z : SioStream} {d : SioDgram} {r : SfdRef} {sfd : SioFd} {sio' : Sio K}

section Callbacks

def Served (B : SioBackend K) (asked : K → Int → Asked)
    (batch : Option (List (SfdRef × SioEvents))) (r : Option (Sockets K × List SockAct)) : Prop :=
  ∃ y, r = some y ∧ SockInv B asked batch y.1

/-- The user is called with what was asked for last. -/
theorem SockInv.user (hi : SockInv B asked batch s) (hz : s.streams k = some z)
    (huser : z.userCallback = x.userCallback ∧ z.userArg = x.userArg)
    (event : SioStreamEvent) (acts : List SockAct) :
    Served B asked batch (some (sockUser s k x event acts)) := by
  have htold := ((hi.told.each k).stream z hz).1
  rw [huser.1, huser.2] at htold
  have hnote : SockInv B asked batch (s.note (.event k event x.userCallback x.userArg)) :=
    hi.noted (hi.owns.unused_lt (hi.owns.claim_stream hz)) htold (fun _ _ _ he => by cases he)
      userOf_append madeOf_append
  exact ⟨_, rfl, hnote⟩

theorem ready_step (hr : x.sfd = some r) (hlive : s.sio.live r = some sfd) {e : SioReady}
    (hwatch : sioWatched ⟨sfdCallback sfd.userCallback, sfd.watchRead, sfd.watchWrite⟩ e = true) :
    useStep (x.seen s.sio) (.op (.ready e)) =
      let y := SimpleKit.sioCallback (x.seen s.sio)
        ⟨sfdCallback sfd.userCallback, sfd.watchRead, sfd.watchWrite⟩ e
      some (y.1, .event y.2) := by
  have hready : sioRunReady (x.seen s.sio) e = SimpleKit.sioCallback (x.seen s.sio)
      ⟨sfdCallback sfd.userCallback, sfd.watchRead, sfd.watchWrite⟩ e := by
    rw [sioRunReady, seen_live hr hlive]
    exact if_pos hwatch
  change some ((sioRunReady (x.seen s.sio) e).1, StreamRet.event (sioRunReady _ e).2) = _
  rw [hready]

theorem SockInv.stepUser (hi : SockInv B asked batch s)
    (hx : s.streams k = some x) (hclaim : z.claim = x.claim)
    (huser : z.userCallback = x.userCallback ∧ z.userArg = x.userArg) {e : SioReady}
    {event : SioStreamEvent} (hok : UseOk (x.seen s.sio) (.op (.ready e)))
    (hstep : useStep (x.seen s.sio) (.op (.ready e)) =
      some (z.seen s.sio, .event (some event))) (acts : List SockAct) :
    Served B asked batch
      (some (sockUser ((s.putStream k z).ready k e (some event)) k z event acts)) := by
  have hused := hi.useStill hx hclaim huser hok hstep
  have hz : ((s.putStream k z).ready k e (some event)).streams k = some z :=
    Function.update_self ..
  exact SockInv.user hused hz ⟨rfl, rfl⟩ event acts

theorem SockInv.noneUser (hi : SockInv B asked batch s)
    (hx : s.streams k = some x) {e : SioReady} {event : SioStreamEvent}
    (hok : UseOk (x.seen s.sio) (.op (.ready e)))
    (hstep : useStep (x.seen s.sio) (.op (.ready e)) =
      some (x.seen s.sio, .event (some event))) (acts : List SockAct) :
    Served B asked batch (some (sockUser (s.ready k e (some event)) k x event acts)) := by
  have hnone := hi.stepUser hx rfl ⟨rfl, rfl⟩ hok hstep acts
  rw [putStream_self hx] at hnone
  exact hnone

theorem SockInv.onRead (hi : SockInv B asked batch s)
    (hx : s.streams k = some x) (hty : x.type = .normal) (hr : x.sfd = some r)
    (hlive : s.sio.live r = some sfd) (hwatch : sfd.watchRead = true) (call : SockCall) :
    Served B asked batch (sockStreamRead s k call) := by
  obtain ⟨sfd', hlive', -, -, hcode⟩ := hi.owns.live hx hr
  obtain rfl := Option.some.inj (hlive.symm.trans hlive')
  have hok : UseOk (x.seen s.sio) (.op (.ready (.read (sysRead 4096 call.read)))) :=
    ⟨sysRead_atMost _ _, trivial⟩
  have hstep := ready_step hr hlive (e := .read (sysRead 4096 call.read)) hwatch
  rw [hcode, sfdCallback_code, hty] at hstep
  change _ = some ((sioStreamOnRead (x.seen s.sio) _).1, StreamRet.event
    (sioStreamOnRead (x.seen s.sio) _).2) at hstep
  rw [sockStreamRead, hx, Option.bind_eq_bind, Option.bind_some]
  dsimp only
  have hroom : ({ x with inbuf := sioBufferReserve x.inbuf 4096 } : SioStream).claim = x.claim :=
    rfl
  generalize sysRead 4096 call.read = read at hok hstep ⊢
  cases read with
  | error e =>
    cases e with
    | other => exact hi.stepUser hx hroom ⟨rfl, rfl⟩ hok hstep call.acts
    | eintr => exact ⟨_, rfl, hi.useStill hx hroom ⟨rfl, rfl⟩ hok hstep⟩
    | eagain => exact ⟨_, rfl, hi.useStill hx hroom ⟨rfl, rfl⟩ hok hstep⟩
  | ok bytes =>
    cases bytes with
    | nil => exact hi.stepUser hx hroom ⟨rfl, rfl⟩ hok hstep call.acts
    | cons b rest =>
      refine hi.stepUser hx ?_ ?_ hok ?_ call.acts
      · rfl
      · exact ⟨rfl, rfl⟩
      · exact hstep

theorem SockInv.onWrite (hB : B.Works asked) (hi : SockInv B asked batch s)
    (hx : s.streams k = some x) (hty : x.type = .normal) (hr : x.sfd = some r)
    (hlive : s.sio.live r = some sfd) (hwatch : sfd.watchWrite = true) (call : SockCall) :
    Served B asked batch (sockStreamWrite B s r k call) := by
  obtain ⟨sfd', hlive', -, -, hcode⟩ := hi.owns.live hx hr
  obtain rfl := Option.some.inj (hlive.symm.trans hlive')
  have hok : UseOk (x.seen s.sio) (.op (.ready (.write call.connected
      (sysWrite (sioBufferLength x.outbuf) call.write)))) := ⟨sysWrite_atMost _ _, trivial⟩
  have hstep := ready_step hr hlive (e := .write call.connected
    (sysWrite (sioBufferLength x.outbuf) call.write)) hwatch
  rw [hcode, sfdCallback_code, hty] at hstep
  change _ = some ((sioStreamOnWrite (x.seen s.sio) _ _).1, StreamRet.event
    (sioStreamOnWrite (x.seen s.sio) _ _).2) at hstep
  rw [sockStreamWrite, hx, Option.bind_eq_bind, Option.bind_some]
  dsimp only
  generalize sysWrite (sioBufferLength x.outbuf) call.write = write at hok hstep ⊢
  cases write with
  | error e =>
    cases e with
    | other => exact hi.noneUser hx hok hstep call.acts
    | eintr => exact ⟨_, rfl, hi.useNone hx hok hstep⟩
    | eagain => exact ⟨_, rfl, hi.useNone hx hok hstep⟩
  | ok bytes =>
    have hdone : useStep (x.seen s.sio) (.op (.ready (.write call.connected (.ok bytes)))) =
        some (⟨x.type, x.sent ++ (sioBufferData x.outbuf).take bytes,
          some (if bytes = sioBufferLength x.outbuf then ⟨.stream, sfd.watchRead, false⟩
            else ⟨.stream, sfd.watchRead, sfd.watchWrite⟩),
          x.inbuf, sioBufferErase x.outbuf bytes⟩, .event none) := hstep
    dsimp only
    by_cases hall : bytes = sioBufferLength x.outbuf
    · rw [if_pos hall] at hdone
      rw [if_pos hall]
      obtain ⟨t, hrun, hinv⟩ : ∃ t, sockWatch B (s.putStream k { x with
            sent := x.sent ++ (sioBufferData x.outbuf).take bytes
            outbuf := sioBufferErase x.outbuf bytes }) r .write false = some t ∧
          SockInv B asked batch
            (t.ready k (.write call.connected (.ok bytes)) none, ([] : List SockAct)).1 := by
        refine hi.useWatch hB hx hr hlive ?_ ?_ .write false hok ?_
        · rfl
        · exact ⟨rfl, rfl⟩
        · rw [hdone, hcode, sfdCallback_code, hty]
          rfl
      refine ⟨_, ?_, hinv⟩
      rw [hrun]
      rfl
    · rw [if_neg hall] at hdone
      rw [if_neg hall]
      refine ⟨_, rfl, hi.useStill hx ?_ ?_ hok ?_⟩
      · rfl
      · exact ⟨rfl, rfl⟩
      · rw [hdone, SioStream.seen]
        dsimp only
        rw [hr, Option.bind_some, hlive, Option.map_some, hcode, sfdCallback_code, hty]

theorem SockInv.onStream (hB : B.Works asked) (hi : SockInv B asked batch s)
    (hx : s.streams k = some x) (hty : x.type = .normal) (hr : x.sfd = some r)
    (hlive : s.sio.live r = some sfd) {event : SioEvent} (hwatch : sfd.watches event = true)
    (call : SockCall) :
    Served B asked batch (sockStreamCallback B s r event k call) := by
  cases event with
  | read => exact hi.onRead hx hty hr hlive hwatch call
  | write => exact hi.onWrite hB hx hty hr hlive hwatch call
  | error =>
    obtain ⟨sfd', hlive', -, -, hcode⟩ := hi.owns.live hx hr
    obtain rfl := Option.some.inj (hlive.symm.trans hlive')
    have hok : UseOk (x.seen s.sio) (.op (.ready .error)) := ⟨trivial, trivial⟩
    have hstep := ready_step hr hlive (e := .error) rfl
    rw [hcode, sfdCallback_code, hty] at hstep
    rw [sockStreamCallback, hx]
    exact hi.noneUser hx hok hstep call.acts

def connectedSfd (sfd : SioFd) (empty : Prop) [Decidable empty] (arg : Nat) : SioFd :=
  { sfd with
    watchRead := true
    watchWrite := if empty then false else sfd.watchWrite
    userCallback := SioHandler.stream.code
    userArg := arg }

theorem connect_sio (hB : B.Works asked) (hok : SioOk B asked batch s.sio)
    (hlive : s.sio.live r = some sfd) (empty : Prop) [Decidable empty] (arg : Nat) :
    ∃ t u sio', sockWatch B s r .read true = some t ∧
      (if empty then sockWatch B t r .write false else some t) = some u ∧
      (sioSet u.sio r SioHandler.stream.code arg).map u.withSio = some (s.withSio sio') ∧
      SfdTo B asked batch s.sio sio' r (connectedSfd sfd empty arg) := by
  obtain ⟨sio1, hrun1, hto1⟩ := SockOwns.watch hB hok hlive .read true
  obtain ⟨sio2, hrun2, hto2⟩ : ∃ sio2, (if empty then
      sockWatch B (s.withSio sio1) r .write false else some (s.withSio sio1)) =
        some (s.withSio sio2) ∧ SfdTo B asked batch s.sio sio2 r
          { sfd with watchRead := true, watchWrite := if empty then false else sfd.watchWrite } := by
    split
    · obtain ⟨sio2, hrun2, hto2⟩ := SockOwns.watch (s := s.withSio sio1) hB hto1.ok hto1.self
        .write false
      exact ⟨sio2, hrun2, hto1.trans hto2⟩
    · exact ⟨sio1, rfl, hto1⟩
  obtain ⟨sio3, hset, hok3, hlive3⟩ := hto2.ok.set hB hto2.self SioHandler.stream.code arg
  refine ⟨_, _, sio3, hrun1, hrun2, ?_, hto2.trans ⟨hok3, hlive3⟩⟩
  change (sioSet sio2 r SioHandler.stream.code arg).map _ = _
  rw [hset]
  rfl

theorem SockInv.onConnect (hB : B.Works asked) (hi : SockInv B asked batch s)
    (hx : s.streams k = some x) (hty : x.type = .connect) (hr : x.sfd = some r)
    (hlive : s.sio.live r = some sfd) {event : SioEvent} (hwatch : sfd.watches event = true)
    (call : SockCall) :
    Served B asked batch (sockConnectCallback B s r event k call) := by
  obtain ⟨sfd', hlive', hfd, harg, hcode⟩ := hi.owns.live hx hr
  obtain rfl := Option.some.inj (hlive.symm.trans hlive')
  have hcall : sfdCallback sfd.userCallback = .connect := by
    rw [hcode, sfdCallback_code, hty]
  rw [sockConnectCallback, hx, Option.bind_eq_bind, Option.bind_some]
  dsimp only
  cases event with
  | read =>
    have hok : UseOk (x.seen s.sio) (.op (.ready (.read (sysRead 4096 call.read)))) :=
      ⟨sysRead_atMost _ _, trivial⟩
    have hstep := ready_step hr hlive (e := .read (sysRead 4096 call.read)) hwatch
    rw [hcall] at hstep
    exact ⟨_, rfl, hi.useNone hx hok hstep⟩
  | error =>
    have hok : UseOk (x.seen s.sio) (.op (.ready .error)) := ⟨trivial, trivial⟩
    have hstep := ready_step hr hlive (e := .error) rfl
    rw [hcall] at hstep
    exact hi.noneUser hx hok hstep call.acts
  | write =>
    have hok : ∀ connected, UseOk (x.seen s.sio) (.op (.ready (.write connected
        (sysWrite (sioBufferLength x.outbuf) call.write)))) :=
      fun _ => ⟨sysWrite_atMost _ _, trivial⟩
    have hstep := fun connected => ready_step hr hlive (e := .write connected
      (sysWrite (sioBufferLength x.outbuf) call.write)) hwatch
    rw [hcall] at hstep
    dsimp only
    cases call.connected with
    | false =>
      rw [if_neg Bool.false_ne_true]
      exact hi.noneUser hx (hok false) (hstep false) call.acts
    | true =>
      rw [if_pos rfl]
      obtain ⟨t, u, sio', hrun, hempty, hset, hto⟩ := connect_sio
        (s := s.putStream k { x with type := .normal }) hB hi.owns.sio hlive
        (sioBufferLength x.outbuf = 0) k
      have hsingle : useStep (x.seen s.sio) (.op (.ready (.write true
          (sysWrite (sioBufferLength x.outbuf) call.write)))) =
          some (⟨.normal, x.sent, some ⟨.stream, true,
            if sioBufferLength x.outbuf = 0 then false else sfd.watchWrite⟩, x.inbuf, x.outbuf⟩,
            .event (some .connected)) := by
        rw [hstep true]
        change some (SimpleKit.SioStream.mk _ _ (some (SimpleKit.sioSet
          (if sioBufferLength x.outbuf = 0 then _ else _) .stream)) _ _, _) = _
        split <;> rfl
      have hused : SockInv B asked batch (((s.putStream k { x with type := .normal }).withSio
          sio').ready k (.write true (sysWrite (sioBufferLength x.outbuf) call.write))
            (some .connected)) := by
        refine hi.useSfd hx hr hto ⟨hfd, rfl, ?_⟩ ⟨?_, ?_⟩ ⟨?_, ?_⟩ (hok true) hsingle
        all_goals rfl
      have hz : (((s.putStream k { x with type := .normal }).withSio sio').ready k
          (.write true (sysWrite (sioBufferLength x.outbuf) call.write))
            (some .connected)).streams k = some { x with type := .normal } :=
        Function.update_self ..
      obtain ⟨v, huser, hinv⟩ := SockInv.user (x := x) hused hz ⟨rfl, rfl⟩ .connected call.acts
      refine ⟨v, ?_, hinv⟩
      rw [hrun, Option.bind_eq_bind, Option.bind_some]
      split at hempty
      · rw [if_pos (by assumption), hempty, Option.bind_some, hset]
        exact huser
      · rw [if_neg (by assumption), hempty, Option.bind_some, hset]
        exact huser

/-- `_sio_accept_callback`: what is accepted is a stream of its own, with the user of the one that
accepts. -/
theorem SockInv.onAccept (hB : B.Works asked) (hi : SockInv B asked batch s)
    (hx : s.streams k = some x) (call : SockCall) :
    Served B asked batch (sockAcceptCallback B s k call) := by
  rw [sockAcceptCallback]
  cases hfd : s.descriptor call.accept with
  | none => exact ⟨_, rfl, hi⟩
  | some fd =>
    obtain ⟨t, made, hrun, hinv, hmade⟩ := hi.make hB (hi.owns.descriptor hfd) .normal call.add
      x.userCallback x.userArg rfl
    have hrun' : sockStreamMake B s fd .normal .stream .read call.add x.userCallback x.userArg =
      some (t, made) := hrun
    dsimp only
    rw [hx, Option.bind_eq_bind, Option.bind_some, hrun', Option.bind_eq_bind, Option.bind_some]
    cases made with
    | none => exact ⟨_, rfl, hinv⟩
    | some stream =>
      obtain ⟨y, hy, huser⟩ := hmade stream rfl
      exact hinv.user hy huser .accept call.acts

theorem SockInv.onDgram (hi : SockInv B asked batch s) (hx : s.dgrams k = some d)
    (event : SioEvent) (call : SockCall) :
    Served B asked batch (sockDgramCallback s event k call) := by
  cases event with
  | write => exact ⟨_, rfl, hi⟩
  | error => exact ⟨_, rfl, hi⟩
  | read =>
    change Served B asked batch (sockDgramRead s k call)
    rw [sockDgramRead, hx, Option.bind_eq_bind, Option.bind_some]
    cases call.recvfrom with
    | error e => exact ⟨_, rfl, hi⟩
    | ok got =>
      dsimp only
      split
      · exact ⟨_, rfl, hi⟩
      · have hnote : SockInv B asked batch
            (s.note (.datagram k got.1 (got.2.take 4096) d.userCallback d.userArg)) :=
          hi.noted (hi.owns.unused_lt (hi.owns.claim_dgram hx)) ((hi.told.each k).dgram d hx)
            (fun _ _ _ he => by cases he) userOf_append madeOf_append
        exact ⟨_, rfl, hnote⟩

/-- The callback of an sfd is that of the socket which it belongs to. -/
theorem SockInv.handle (hB : B.Works asked) (hi : SockInv B asked batch s)
    (hlive : s.sio.live r = some sfd) {event : SioEvent} (hwatch : sfd.watches event = true)
    (call : SockCall) : ∃ handler, sioHandler sfd.userCallback = some handler ∧
      Served B asked batch (sockHandle B s r event sfd.userArg call handler) := by
  obtain ⟨c, hc, hr⟩ := hi.owns.holds.owned r sfd hlive
  obtain ⟨sfd', hlive', -, -, hcode⟩ := hi.owns.holds.claimed _ c r hc hr
  obtain rfl := Option.some.inj (hlive.symm.trans hlive')
  refine ⟨c.handler, by rw [hcode, sioHandler_code], ?_⟩
  rw [Sockets.claim] at hc
  split at hc
  · obtain rfl := Option.some.inj hc
    exact ⟨_, rfl, hi⟩
  · split at hc
    · next x hx =>
      obtain rfl := Option.some.inj hc
      have hhandler : x.claim.handler = x.handler := rfl
      rw [hhandler, SioStream.handler]
      cases hty : x.type with
      | listen => exact hi.onAccept hB hx call
      | connect => exact hi.onConnect hB hx hty hr hlive hwatch call
      | normal => exact hi.onStream hB hx hty hr hlive hwatch call
    · obtain ⟨d, hd, rfl⟩ := Option.map_eq_some_iff.mp hc
      exact hi.onDgram hd event call

end Callbacks

section Loop

def SioFd.quiet (sfd : SioFd) : SioFd := { sfd with revents := SioEvents.none }

theorem SockInv.withSio (hi : SockInv B asked batch s) (hok : SioOk B asked batch' sio')
    (hquiet : ∀ r, (sio'.live r).map SioFd.quiet = (s.sio.live r).map SioFd.quiet) :
    SockInv B asked batch' (s.withSio sio') := by
  have hback : ∀ {r sfd'}, sio'.live r = some sfd' → ∃ sfd, s.sio.live r = some sfd ∧
      sfd.quiet = sfd'.quiet := by
    intro r sfd' hlive
    have hq := hquiet r
    rw [hlive] at hq
    obtain ⟨sfd, hsfd, he⟩ := Option.map_eq_some_iff.mp hq.symm
    exact ⟨sfd, hsfd, he⟩
  have hsame : ∀ {sfd sfd' : SioFd}, sfd.quiet = sfd'.quiet → sfd.fd = sfd'.fd ∧
      sfd.userArg = sfd'.userArg ∧ sfd.userCallback = sfd'.userCallback := by
    intro sfd sfd' he
    exact SioFd.mk.inj he |>.elim fun h1 h2 => ⟨h1, h2.2.2.2.2.1, h2.2.2.2.1⟩
  have hforth : ∀ {r sfd}, s.sio.live r = some sfd → ∃ sfd', sio'.live r = some sfd' ∧
      sfd'.quiet = sfd.quiet := by
    intro r sfd hlive
    have hq := hquiet r
    rw [hlive] at hq
    exact Option.map_eq_some_iff.mp hq
  have hseen : ∀ x : SioStream, x.seen sio' = x.seen s.sio := by
    intro x
    rw [SioStream.seen, SioStream.seen]
    cases x.sfd with
    | none => rfl
    | some r =>
      rw [Option.bind_some, Option.bind_some]
      congr 1
      have hq := hquiet r
      cases hlive : s.sio.live r with
      | none =>
        rw [hlive] at hq
        rw [Option.map_eq_none_iff.mp hq]
      | some sfd =>
        obtain ⟨sfd', hlive', he⟩ := hforth hlive
        have hflags := congrArg (fun y : SioFd => (⟨sfdCallback y.userCallback, y.watchRead,
          y.watchWrite⟩ : SimpleKit.SioFd)) he
        rw [hlive', Option.map_some, Option.map_some]
        exact congrArg some hflags
  refine ⟨⟨hok, ⟨fun h c r hc hr => ?_, fun r sfd' hlive => ?_, hi.owns.holds.apart⟩,
    hi.owns.unused, hi.owns.stream, hi.owns.dgram⟩, fun h => ⟨fun x hx => ?_,
      (hi.told.each h).dgram, (hi.told.each h).made⟩, hi.told.used, hi.told.safe⟩
  · obtain ⟨sfd, hlive, hfd, harg, hcode⟩ := hi.owns.holds.claimed h c r hc hr
    obtain ⟨sfd', hlive', he⟩ := hforth hlive
    obtain ⟨hfd', harg', hcode'⟩ := hsame he
    exact ⟨sfd', hlive', hfd'.trans hfd, harg'.trans harg, hcode'.trans hcode⟩
  · obtain ⟨sfd, hsfd, he⟩ := hback hlive
    rw [← (hsame he).2.1]
    exact hi.owns.holds.owned r sfd hsfd
  · obtain ⟨huser, type, hmade, hlived⟩ := (hi.told.each h).stream x hx
    exact ⟨huser, type, hmade, (hseen x).symm ▸ hlived⟩

variable {batch : List (SfdRef × SioEvents)}

theorem SockInv.serve (hB : B.Works asked) (hi : SockInv B asked (some batch) s)
    {y : SfdRef × SioEvents} (hy : y ∈ batch) (hsfd : s.sio.sfds y.1 = some sfd)
    (hdel : sfd.isDel = false) {event : SioEvent} (hhas : y.2.has event = true)
    (hwatch : sfd.watches event = true) : Served B asked (some batch) (sockServe B s y.1 event) := by
  have hlive : s.sio.live y.1 = some sfd := live_iff.mpr ⟨hsfd, hdel⟩
  have hreg : ∀ reg ∈ sfd.reg, reg.watches event = true := by
    intro reg hreg
    rw [reg_of_live hdel] at hreg
    obtain rfl := Option.mem_some_iff.mp hreg
    cases event <;> exact hwatch
  have hcalled := hi.withSio (hi.owns.sio.called hy hlive hhas hreg) fun _ => rfl
  have hscript : SockInv B asked (some batch) { s with
      script := s.script.tail
      sio := s.sio.note (.call y.1 event sfd.fd sfd.userCallback sfd.userArg) } :=
    ⟨⟨hcalled.owns.sio, hcalled.owns.holds, hcalled.owns.unused, hcalled.owns.stream,
      hcalled.owns.dgram⟩, fun h => ⟨(hcalled.told.each h).stream, (hcalled.told.each h).dgram,
        (hcalled.told.each h).made⟩, hcalled.told.used, hcalled.told.safe⟩
  obtain ⟨handler, hhandler, t, hrun, hinv⟩ := hscript.handle hB hlive hwatch
    (s.script.headD SockCall.idle)
  refine ⟨t, ?_, hinv⟩
  rw [sockServe, hsfd, Option.bind_eq_bind, Option.bind_some, hhandler,
    Option.bind_eq_bind, Option.bind_some]
  exact hrun

theorem SockInv.round (hB : B.Works asked) (hi : SockInv B asked (some batch) s)
    {y : SfdRef × SioEvents} (hy : y ∈ batch) {event : SioEvent}
    (hok : RoundAlong B Sockets.Permits y.1 y.2 s event) :
    Goes (SockInv B asked (some batch)) (RoundAlong B Sockets.Spares y.1 y.2 s event)
      (sockRound B y.1 y.2 s event) := by
  obtain ⟨sfd, hsfd, -⟩ := hi.owns.sio.inv.allocated hy
  rw [sockRound, hsfd, Option.bind_eq_bind, Option.bind_some]
  split
  · next hcall =>
    have hall := hcall
    rw [Bool.and_eq_true, Bool.and_eq_true, Bool.not_eq_true'] at hall
    obtain ⟨z, hserve, hz⟩ := hi.serve hB hy hsfd hall.1.1 hall.1.2 hall.2
    rw [sockCallback, hserve, Option.bind_eq_bind, Option.bind_some]
    refine (hz.acts hB (hok sfd hsfd hcall z hserve)).congr ⟨fun h => h sfd hsfd hcall z hserve,
      fun h sfd' hsfd' _ z' hz' => ?_⟩
    rwa [← Option.some.inj (hserve.symm.trans hz')]
  · next hskip =>
    refine .goes (fun sfd' hsfd' hcall => absurd hcall ?_) hi
    rwa [← Option.some.inj (hsfd.symm.trans hsfd')]

theorem SockInv.dispatch (hB : B.Works asked) (hi : SockInv B asked (some batch) s)
    {y : SfdRef × SioEvents} (hy : y ∈ batch) (hok : DispatchAlong B Sockets.Permits s y) :
    Goes (SockInv B asked (some batch)) (DispatchAlong B Sockets.Spares s y)
      (sockDispatch B s y) := by
  obtain ⟨sfd, hsfd, hevents⟩ := hi.owns.sio.inv.allocated hy
  rw [sockDispatch, hsfd, Option.bind_eq_bind, Option.bind_some]
  split
  · next hdel =>
    refine .goes (fun sfd' hsfd' hlive => ?_) hi
    rw [← Option.some.inj (hsfd.symm.trans hsfd'), hdel] at hlive
    cases hlive
  · next hdel =>
    rw [Bool.not_eq_true] at hdel
    have hrounds := hok sfd hsfd hdel
    rw [hevents] at hrounds ⊢
    refine (foldlM_goes (SockInv B asked (some batch)) (RoundAlong B Sockets.Spares y.1 y.2)
      (fun _ _ h hr => h.round hB hy hr) hi hrounds).congr ⟨fun h => ?_, fun h sfd' hsfd' _ => ?_⟩
    · rw [← hevents]
      exact h sfd hsfd hdel
    · rw [← Option.some.inj (hsfd.symm.trans hsfd'), hevents]
      exact h

theorem SockInv.run (hB : B.Works asked) (hi : SockInv B asked none s) {timers : List SockAct}
    {ready : List (Int × SioEvents)} (htimers : Along (plain (sockAct B)) Sockets.Permits s timers)
    (hloop : ∀ t ∈ timers.foldlM (sockAct B) s, LoopAlong B Sockets.Permits ready t) :
    Goes (SockInv B asked none) (Along (plain (sockAct B)) Sockets.Spares s timers ∧
        ∀ t ∈ timers.foldlM (sockAct B) s, LoopAlong B Sockets.Spares ready t)
      (sockRun B s timers ready) := by
  have hstart := hi.acts hB htimers
  refine Goes.bind hstart fun s1 hs1 h1 => ?_
  obtain ⟨res, hpoll, hres⟩ := h1.owns.sio.poll hB ready
  have hfits := hloop s1 hs1 res hpoll
  rw [LoopAlong, hpoll, Option.bind_eq_bind, Option.bind_some]
  cases res with
  | none => exact .goes (fun polled hp y hy => by cases hp; cases hy) h1
  | some y =>
    obtain ⟨hok, hlive⟩ := hres y rfl
    have h2 := h1.withSio hok fun r => by
      obtain ⟨events, he⟩ := hlive r
      rw [he, Option.map_map]
      rfl
    have hbatch : ∀ (s : Sockets K) x, SockInv B asked (some y.2) s →
        x ∈ y.2 ∧ DispatchAlong B Sockets.Permits s x → Goes (SockInv B asked (some y.2))
          (DispatchAlong B Sockets.Spares s x) (sockDispatch B s x) :=
      fun _ _ h hx => h.dispatch hB hx.1 hx.2
    have hrounds := foldlM_goes (SockInv B asked (some y.2)) (DispatchAlong B Sockets.Spares) hbatch
      h2 ((hfits y rfl).and fun _ hx => hx)
    have hleaves := hrounds.after fun s3 h3 => by
      obtain ⟨sio4, hleave, hok4, hlive4⟩ := h3.owns.sio.leave
      have hrun : (sioLeave s3.sio).map s3.withSio = some (s3.withSio sio4) := by
        rw [hleave]
        rfl
      exact ⟨_, hrun, h3.withSio hok4 fun r => by rw [hlive4]⟩
    refine hleaves.congr ⟨fun h => h _ rfl y rfl, fun h polled hp z hz => ?_⟩
    cases hp
    cases hz
    exact h

theorem SockInv.step (hB : B.Works asked) (hi : SockInv B asked none s) {op : SockOp}
    (hop : SockAlong B Sockets.Permits s op) :
    Goes (SockInv B asked none) (SockAlong B Sockets.Spares s op) (sockStep B s op) := by
  cases op with
  | act a => exact hi.act hB hop
  | run timers ready script =>
    have hscript : SockInv B asked none { s with script := script } :=
      ⟨⟨hi.owns.sio, hi.owns.holds, hi.owns.unused, hi.owns.stream, hi.owns.dgram⟩,
        fun h => ⟨(hi.told.each h).stream, (hi.told.each h).dgram, (hi.told.each h).made⟩,
        hi.told.used, hi.told.safe⟩
    exact hscript.run hB hop.1 hop.2

end Loop

end SimpleKit.Loop
