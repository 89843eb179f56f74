import SimpleKit.Io.SocketsInv

set_option autoImplicit false

namespace SimpleKit.Loop
open Runs

variable {K : Type} {B : SioBackend K} {asked : K → Int → Asked}
  {batch : Option (List (SfdRef × SioEvents))} {s t u : Sockets K} {k h : SockRef}
  {x z : SioStream} {d d' : SioDgram}

theorem SockOwns.note (ho : SockOwns B asked batch s) (e : SockTrace) :
    SockOwns B asked batch (s.note e) :=
  ⟨ho.sio, ho.holds, ho.unused, ho.stream, ho.dgram⟩

theorem SockOwns.live (ho : SockOwns B asked batch s) (hx : s.streams k = some x) {r : SfdRef}
    (hr : x.sfd = some r) : ∃ sfd, s.sio.live r = some sfd ∧ sfd.fd = x.sock ∧ sfd.userArg = k ∧
      sfd.userCallback = x.handler.code :=
  ho.holds.claimed k x.claim r (ho.claim_stream hx) hr

theorem sfdCallback_code (x : SioStream) : sfdCallback x.handler.code =
    match x.type with
    | .listen => .accept
    | .connect => .connect
    | .normal => .stream := by
  rw [SioStream.handler]
  cases x.type <;> rfl

theorem SockInv.use (hi : SockInv B asked batch s) (hx : s.streams k = some x)
    (hsio : SioOk B asked batch t.sio) (hp : Puts s t k z) (htrace : t.trace = s.trace)
    (huser : z.userCallback = x.userCallback ∧ z.userArg = x.userArg)
    (ht : Turns s.sio t.sio k x.claim z.claim) {use : StreamUse} {ret : StreamRet}
    (hok : UseOk (x.seen s.sio) use)
    (hstep : useStep (x.seen s.sio) use = some (z.seen t.sio, ret)) :
    SockInv B asked batch (t.note (.use k use ret)) := by
  have hk := hi.owns.claim_stream hx
  have helse := hi.owns.elsewhere hk ht hp.other.1 hp.other.2
  obtain ⟨huserOf, type, hmade, hlived⟩ := (hi.told.each k).stream x hx
  have huserOf' : userOf k (s.trace ++ [.use k use ret]) = userOf k s.trace := userOf_append
  have hmade' : madeOf k (s.trace ++ [.use k use ret]) = madeOf k s.trace := madeOf_append
  refine ⟨(hi.owns.turn hx hsio hp ht).note _, hi.told.step (k := k)
    ⟨helse.streams, helse.dgrams, helse.seen⟩ (e := .use k use ret)
    (congrArg (· ++ [SockTrace.use k use ret]) htrace) rfl ?_ (Nat.le_of_eq hp.next.symm) ?_ ?_⟩
  · exact Nat.lt_of_lt_of_eq (hi.owns.unused_lt hk) hp.next.symm
  · exact Option.isSome_iff_exists.mpr ⟨_, huserOf⟩
  · refine ⟨fun y hy => ?_, fun y hy => ?_, fun ty hty => ?_⟩
    · change t.streams k = some y at hy
      rw [hp.streams, Function.update_self, Option.some.injEq] at hy
      subst hy
      change userOf k (t.trace ++ [.use k use ret]) = _ ∧ ∃ type,
        madeOf k (t.trace ++ [.use k use ret]) = some type ∧ Lived k (t.trace ++ _) type _
      rw [htrace, huserOf', hmade', huserOf, huser.1, huser.2]
      exact ⟨rfl, type, hmade, hlived.use hok hstep⟩
    · change t.dgrams k = some y at hy
      rw [hp.dgrams, (hi.owns.stream k x hx).2] at hy
      cases hy
    · change madeOf k (t.trace ++ [.use k use ret]) = some ty at hty
      change ∃ y, Lived k (t.trace ++ [.use k use ret]) ty y
      rw [htrace] at hty ⊢
      rw [hmade', hmade, Option.some.injEq] at hty
      subst hty
      exact ⟨_, hlived.use hok hstep⟩

theorem SockInv.noted (hi : SockInv B asked batch s) {e : SockTrace} (hk : e.sock < s.next)
    (hsafe : SafeSock s.trace e) (huse : ∀ h use ret, e ≠ .use h use ret)
    (huser : userOf e.sock (s.trace ++ [e]) = userOf e.sock s.trace)
    (hmade : madeOf e.sock (s.trace ++ [e]) = madeOf e.sock s.trace) :
    SockInv B asked batch (s.note e) := by
  refine ⟨hi.owns.note e, hi.told.step (k := e.sock) ⟨fun _ _ => rfl, fun _ _ => rfl,
    fun _ _ _ _ => rfl⟩ rfl rfl hk (Nat.le_refl _) hsafe ?_⟩
  have hself := hi.told.each e.sock
  refine ⟨fun x hx => ?_, fun x hx => ?_, fun type hty => ?_⟩
  · obtain ⟨h1, type, h2, h3⟩ := hself.stream x hx
    exact ⟨huser.trans h1, type, hmade.trans h2, h3.idle huse⟩
  · exact huser.trans (hself.dgram x hx)
  · obtain ⟨y, hy⟩ := hself.made type (hmade.symm.trans hty)
    exact ⟨y, hy.idle huse⟩

section Uses

theorem seen_none (hr : x.sfd = none) (sio : Sio K) :
    x.seen sio = ⟨x.type, x.sent, none, x.inbuf, x.outbuf⟩ := by
  rw [SioStream.seen, hr]
  rfl

theorem seen_live {sio : Sio K} {r : SfdRef} {sfd : SioFd} (hr : x.sfd = some r)
    (hlive : sio.live r = some sfd) : x.seen sio = ⟨x.type, x.sent,
      some ⟨sfdCallback sfd.userCallback, sfd.watchRead, sfd.watchWrite⟩, x.inbuf, x.outbuf⟩ := by
  rw [SioStream.seen, hr, Option.bind_some, hlive]
  rfl

structure SfdTo (B : SioBackend K) (asked : K → Int → Asked)
    (batch : Option (List (SfdRef × SioEvents))) (sio sio' : Sio K) (r : SfdRef) (sfd : SioFd) :
    Prop where
  ok : SioOk B asked batch sio'
  live : ∀ y, sio'.live y = if y = r then some sfd else sio.live y

variable {sio sio' sio'' : Sio K} {r : SfdRef} {sfd sfd' sfd'' : SioFd}

theorem SfdTo.self (h : SfdTo B asked batch sio sio' r sfd) : sio'.live r = some sfd :=
  (h.live r).trans (if_pos rfl)

theorem SfdTo.trans (h : SfdTo B asked batch sio sio' r sfd)
    (h' : SfdTo B asked batch sio' sio'' r sfd') : SfdTo B asked batch sio sio'' r sfd' := by
  refine ⟨h'.ok, fun y => ?_⟩
  rw [h'.live, h.live]
  split <;> rfl

theorem SfdTo.refl (hok : SioOk B asked batch sio) (hlive : sio.live r = some sfd) :
    SfdTo B asked batch sio sio r sfd := by
  refine ⟨hok, fun y => ?_⟩
  split
  · next hy => rw [hy, hlive]
  · rfl

theorem SockOwns.watch (hB : B.Works asked) (hok : SioOk B asked batch s.sio)
    (hlive : s.sio.live r = some sfd) (event : SioEvent) (on : Bool) : ∃ sio',
      sockWatch B s r event on = some (s.withSio sio') ∧
        SfdTo B asked batch s.sio sio' r (sfd.watch event on) := by
  obtain ⟨sio', hrun, hok', hlive'⟩ := hok.watch hB hlive event on
  refine ⟨sio', ?_, hok', hlive'⟩
  rw [sockWatch, hrun]
  rfl

theorem SockInv.useSfd (hi : SockInv B asked batch s) (hx : s.streams k = some x)
    (hr : x.sfd = some r) (hto : SfdTo B asked batch s.sio sio' r sfd)
    (hsfd : sfd.fd = x.sock ∧ sfd.userArg = k ∧ sfd.userCallback = z.handler.code)
    (hsame : z.sock = x.sock ∧ z.sfd = x.sfd)
    (huser : z.userCallback = x.userCallback ∧ z.userArg = x.userArg)
    {use : StreamUse} {ret : StreamRet} (hok : UseOk (x.seen s.sio) use)
    (hstep : useStep (x.seen s.sio) use = some (⟨z.type, z.sent,
      some ⟨sfdCallback sfd.userCallback, sfd.watchRead, sfd.watchWrite⟩, z.inbuf, z.outbuf⟩,
      ret)) :
    SockInv B asked batch (((s.putStream k z).withSio sio').note (.use k use ret)) := by
  have hr' : z.sfd = some r := hsame.2.trans hr
  have hturns : Turns s.sio sio' k x.claim z.claim :=
    Turns.stored hsame.1 hr hr' hto.live hsfd.1 hsfd.2.1 hsfd.2.2
  exact hi.use (t := (s.putStream k z).withSio sio') hx hto.ok ⟨rfl, rfl, ⟨rfl, rfl⟩, rfl⟩ rfl
    huser hturns hok (by rw [hstep, ← seen_live hr' hto.self]; rfl)

theorem SockInv.useStill (hi : SockInv B asked batch s) (hx : s.streams k = some x)
    (hclaim : z.claim = x.claim)
    (huser : z.userCallback = x.userCallback ∧ z.userArg = x.userArg)
    {use : StreamUse} {ret : StreamRet} (hok : UseOk (x.seen s.sio) use)
    (hstep : useStep (x.seen s.sio) use = some (z.seen s.sio, ret)) :
    SockInv B asked batch ((s.putStream k z).note (.use k use ret)) :=
  hi.use (t := s.putStream k z) hx hi.owns.sio ⟨rfl, rfl, ⟨rfl, rfl⟩, rfl⟩ rfl huser
    (Turns.same hi.owns.holds (hi.owns.claim_stream hx) (fun _ => rfl) hclaim) hok hstep

theorem putStream_self (hx : s.streams k = some x) : s.putStream k x = s := by
  rw [Sockets.putStream, ← hx, Function.update_eq_self]

theorem SockInv.useNone (hi : SockInv B asked batch s) (hx : s.streams k = some x)
    {use : StreamUse} {ret : StreamRet} (hok : UseOk (x.seen s.sio) use)
    (hstep : useStep (x.seen s.sio) use = some (x.seen s.sio, ret)) :
    SockInv B asked batch (s.note (.use k use ret)) := by
  have hnote := hi.useStill hx rfl ⟨rfl, rfl⟩ hok hstep
  rw [putStream_self hx] at hnote
  exact hnote

theorem SockInv.useWatch (hB : B.Works asked) (hi : SockInv B asked batch s)
    (hx : s.streams k = some x) (hr : x.sfd = some r) (hlive : s.sio.live r = some sfd)
    (hclaim : z.claim = x.claim)
    (huser : z.userCallback = x.userCallback ∧ z.userArg = x.userArg) (event : SioEvent)
    (on : Bool) {use : StreamUse} {ret : StreamRet} (hok : UseOk (x.seen s.sio) use)
    (hstep : useStep (x.seen s.sio) use = some (⟨z.type, z.sent,
      some ⟨sfdCallback sfd.userCallback, (sfd.watch event on).watchRead,
        (sfd.watch event on).watchWrite⟩, z.inbuf, z.outbuf⟩, ret)) :
    ∃ t, sockWatch B (s.putStream k z) r event on = some t ∧
      SockInv B asked batch (t.note (.use k use ret)) := by
  obtain ⟨sfd', hlive', hfd, harg, hcode⟩ := hi.owns.live hx hr
  obtain rfl := Option.some.inj (hlive.symm.trans hlive')
  obtain ⟨sio', hrun, hto⟩ := SockOwns.watch (s := s.putStream k z) hB hi.owns.sio hlive event on
  have hhandler : z.handler = x.handler := congrArg SockClaim.handler hclaim
  have hwatch : (sfd.watch event on).fd = sfd.fd ∧ (sfd.watch event on).userArg = sfd.userArg ∧
      (sfd.watch event on).userCallback = sfd.userCallback := by
    cases event <;> exact ⟨rfl, rfl, rfl⟩
  refine ⟨_, hrun, hi.useSfd hx hr hto ⟨hwatch.1.trans hfd, hwatch.2.1.trans harg, ?_⟩
    ⟨congrArg SockClaim.sock hclaim, congrArg SockClaim.sfd hclaim⟩ huser hok ?_⟩
  · rw [hwatch.2.2, hcode, hhandler]
  · rw [hstep, hwatch.2.2]

end Uses

section Write

theorem sysWrite_atMost (size : Nat) (write : Except Errno Nat) :
    WroteAtMost size (sysWrite size write) := by
  cases write with
  | error e => trivial
  | ok bytes => exact Nat.min_le_right bytes size

theorem sysRead_atMost (size : Nat) (read : Except Errno (List UInt8)) :
    ReadAtMost size (sysRead size read) := by
  cases read with
  | error e => trivial
  | ok bytes => exact List.length_take_le size bytes

theorem SockInv.writeOk (hi : SockInv B asked batch s) (hx : s.streams k = some x)
    {data : List UInt8} {write : Except Errno Nat} (hspares : s.Spares (.write k data write)) :
    UseOk (x.seen s.sio) (.op (.write data (sysWrite data.length write))) := by
  refine ⟨sysWrite_atMost _ _, fun hno hdirect => ?_⟩
  have hnone : x.sfd = none := Option.eq_none_iff_forall_not_mem.mpr fun r hr => by
    obtain ⟨sfd, hlive, -⟩ := hi.owns.live hx hr
    rw [seen_live hr hlive] at hno
    cases hno
  have hnow := (or_assoc.mpr (hspares x hx hnone)).resolve_left
    (SioStream.Direct.iff_not.mp hdirect)
  cases hw : sysWrite data.length write with
  | ok bytes =>
    rw [hw] at hnow
    exact Or.inl (congrArg Except.ok hnow)
  | error e =>
    rw [hw] at hnow
    exact Or.inr (congrArg Except.error hnow)

/-- What the kernel has not accepted waits, and the sfd is watched. -/
theorem SockInv.backlog (hB : B.Works asked) (hi : SockInv B asked batch s)
    (hx : s.streams k = some x) (hfd : x.sfd ≠ none) {use : StreamUse}
    (hok : UseOk (x.seen s.sio) use) (sent rest : List UInt8)
    (hstep : useStep (x.seen s.sio) use =
      ((sioStreamBacklog { x.seen s.sio with sock := sent } rest).map
        fun y => (y, (0 : Int))).map fun y => (y.1, StreamRet.code y.2)) :
    ∃ t, sockBacklog B s k { x with sent := sent } rest = some t ∧
      SockInv B asked batch (t.note (.use k use (.code 0))) := by
  obtain ⟨r, hr⟩ := Option.ne_none_iff_exists'.mp hfd
  obtain ⟨sfd, hlive, -⟩ := hi.owns.live hx hr
  obtain ⟨t, hs', hinv⟩ : ∃ t, sockWatch B (s.putStream k { x with
        sent := sent, outbuf := sioBufferAppend x.outbuf rest }) r .write true = some t ∧
      SockInv B asked batch (t.note (.use k use (.code 0))) := by
    refine hi.useWatch hB hx hr hlive ?_ ?_ .write true hok ?_
    · rfl
    · exact ⟨rfl, rfl⟩
    · rw [hstep, seen_live hr hlive]
      rfl
  exact ⟨t, Option.bind_eq_some_iff.mpr ⟨r, hr, hs'⟩, hinv⟩

/-- sio_stream_write is that of the stream alone. -/
theorem SockInv.writeSpares (hB : B.Works asked) (hi : SockInv B asked batch s)
    (hx : s.streams k = some x) {data : List UInt8} {write : Except Errno Nat}
    (hspares : s.Spares (.write k data write)) :
    ∃ t ret, sioStreamWrite B s k data write = some (t, ret) ∧ SockInv B asked batch t := by
  have hok := hi.writeOk hx hspares
  rw [sioStreamWrite, hx, Option.bind_eq_bind, Option.bind_some]
  dsimp only
  have hsingle : useStep (x.seen s.sio) (.op (.write data (sysWrite data.length write))) =
      (SimpleKit.sioStreamWrite (x.seen s.sio) data (sysWrite data.length write)).map
        fun y => (y.1, .code y.2) := rfl
  by_cases hwait : sioBufferLength x.outbuf ≠ 0 ∨ x.type = .connect
  · rw [if_pos hwait]
    refine ⟨_, _, rfl, hi.useStill hx ?_ ?_ hok ?_⟩
    · rfl
    · exact ⟨rfl, rfl⟩
    · rw [hsingle]
      unfold SimpleKit.sioStreamWrite
      exact congrArg _ (if_pos hwait)
  · rw [if_neg hwait]
    have hseen : ¬ (sioBufferLength (x.seen s.sio).outbuf ≠ 0 ∨
        (x.seen s.sio).type = .connect) := hwait
    unfold SimpleKit.sioStreamWrite at hsingle
    rw [if_neg hseen] at hsingle
    -- a part that has to wait is only allowed where there is an sfd
    have hfd (hpart : ¬ WriteEnds data.length (sysWrite data.length write)) : x.sfd ≠ none :=
      fun hno => hpart ((or_assoc.mpr (hspares x hx hno)).resolve_left hwait)
    cases hw : sysWrite data.length write with
    | error e =>
      rw [hw] at hsingle hfd hok
      cases e with
      | other =>
        exact ⟨_, _, rfl, hi.useNone hx hok hsingle⟩
      | eintr =>
        obtain ⟨t, hs', hinv⟩ := hi.backlog hB hx (hfd fun h => by cases h) hok x.sent data hsingle
        exact ⟨_, 0, by dsimp only; rw [hs']; rfl, hinv⟩
      | eagain =>
        obtain ⟨t, hs', hinv⟩ := hi.backlog hB hx (hfd fun h => by cases h) hok x.sent data hsingle
        exact ⟨_, 0, by dsimp only; rw [hs']; rfl, hinv⟩
    | ok bytes =>
      rw [hw] at hsingle hfd hok
      dsimp only at hsingle ⊢
      by_cases hall : bytes = data.length
      · rw [if_pos hall] at hsingle ⊢
        refine ⟨_, _, rfl, hi.useStill hx ?_ ?_ hok hsingle⟩
        · rfl
        · exact ⟨rfl, rfl⟩
      · rw [if_neg hall] at hsingle ⊢
        obtain ⟨t, hs', hinv⟩ := hi.backlog hB hx (hfd hall) hok (x.sent ++ data.take bytes)
          (data.drop bytes) hsingle
        exact ⟨_, 0, by rw [hs']; rfl, hinv⟩

/-- What has to wait for an sfd that there is not. -/
theorem sioStreamWrite_null (hx : s.streams k = some x) {data : List UInt8}
    {write : Except Errno Nat} (hbad : ¬ s.Spares (.write k data write)) :
    sioStreamWrite B s k data write = none := by
  have hwaits : x.sfd = none ∧ ¬ (sioBufferLength x.outbuf ≠ 0 ∨ x.type = .connect) ∧
      ¬ WriteEnds data.length (sysWrite data.length write) := by
    refine ⟨by_contra fun hfd => hbad fun y hy hno => ?_, fun hwait => hbad fun y hy _ => ?_,
      fun hends => hbad fun y hy _ => Or.inr (Or.inr hends)⟩
    · obtain rfl := Option.some.inj (hx.symm.trans hy)
      exact absurd hno hfd
    · obtain rfl := Option.some.inj (hx.symm.trans hy)
      exact hwait.imp_right Or.inl
  obtain ⟨hfd, hwait, hpart⟩ := hwaits
  rw [sioStreamWrite, hx, Option.bind_eq_bind, Option.bind_some]
  dsimp only
  rw [if_neg hwait]
  have hnull : ∀ sent rest, sockBacklog B s k { x with sent := sent } rest = none := by
    intro sent rest
    rw [sockBacklog]
    dsimp only
    rw [hfd]
    rfl
  have hnull' := hnull x.sent data
  cases hw : sysWrite data.length write with
  | error e =>
    rw [hw] at hpart
    cases e with
    | other => exact absurd rfl hpart
    | eintr | eagain =>
      dsimp only
      rw [hnull']
      rfl
  | ok bytes =>
    rw [hw] at hpart
    have hne : bytes ≠ data.length := hpart
    dsimp only
    rw [if_neg hne, hnull]
    rfl

theorem SockInv.write (hB : B.Works asked) (hi : SockInv B asked batch s)
    (hx : s.streams k = some x) (data : List UInt8) (write : Except Errno Nat) :
    Goes (SockInv B asked batch) (s.Spares (.write k data write))
      ((sioStreamWrite B s k data write).map Prod.fst) := by
  by_cases hspares : s.Spares (.write k data write)
  · obtain ⟨t, ret, hrun, ht⟩ := hi.writeSpares hB hx hspares
    rw [hrun]
    exact .goes hspares ht
  · rw [sioStreamWrite_null hx hspares]
    exact .stuck hspares

theorem SockInv.erase (hi : SockInv B asked batch s) (hx : s.streams k = some x) {size : Nat}
    (hsize : size ≤ sioBufferLength x.inbuf) : ∃ t, sockErase s k size = some t ∧
      SockInv B asked batch t := by
  have hok : UseOk (x.seen s.sio) (.erase size) := hsize
  have hinv := hi.useStill hx (z := { x with inbuf := sioBufferErase x.inbuf size }) rfl
    ⟨rfl, rfl⟩ hok rfl
  refine ⟨_, ?_, hinv⟩
  rw [sockErase, hx]
  rfl

end Write

section Attach

inductive SockAdded (B : SioBackend K) (asked : K → Int → Asked)
    (batch : Option (List (SfdRef × SioEvents))) (sio sio' : Sio K) (c : SockClaim) (k : SockRef)
    (event : SioEvent) : Option SfdRef → Bool → Prop where
  | failed : sio' = sio → SockAdded B asked batch sio sio' c k event none false
  | done (r : SfdRef) : sio.live r = none →
      SfdTo B asked batch sio sio' r ((⟨c.sock, false, false, SioEvents.none, c.handler.code, k,
        false⟩ : SioFd).watch event true) → SockAdded B asked batch sio sio' c k event (some r) true

theorem SockOwns.attach (hB : B.Works asked) (ho : SockOwns B asked batch s)
    (hx : s.streams k = some x) (hnone : x.sfd = none) (event : SioEvent) (ok : Bool) :
    ∃ sio' sfd added, sockAttach B s k x.handler event ok =
        some ((s.putStream k { x with sfd := sfd }).withSio sio', added) ∧
      SioOk B asked batch sio' ∧ SockAdded B asked batch s.sio sio' x.claim k event sfd added := by
  have hk := ho.claim_stream hx
  have hfree : ∀ r sfd, s.sio.live r = some sfd → sfd.fd ≠ x.sock := ho.holds.free hk hnone
  obtain ⟨hok, hnew, hadd⟩ := ho.sio.add hB hfree ok x.handler.code k
  simp only [sockAttach, sockAdd, hx, Option.bind_eq_bind, Option.bind_some]
  rcases hadd with ⟨hfail, hsame⟩ | ⟨⟨k', hk'⟩, hlive⟩
  · rw [hfail]
    exact ⟨_, none, false, rfl, hok, .failed hsame⟩
  · rw [hk']
    have hto : SfdTo B asked batch s.sio (sioAdd B s.sio x.sock ok x.handler.code k) s.sio.next
        ⟨x.sock, false, false, SioEvents.none, x.handler.code, k, false⟩ := ⟨hok, hlive⟩
    obtain ⟨sio', hwatch, hto'⟩ := SockOwns.watch
      (s := (s.putStream k { x with sfd := some s.sio.next }).withSio
        (sioAdd B s.sio x.sock ok x.handler.code k)) hB hok hto.self event true
    refine ⟨sio', some s.sio.next, true, ?_, hto'.ok, .done s.sio.next hnew (hto.trans hto')⟩
    change Option.map _ (sockWatch B ((s.putStream k { x with sfd := some s.sio.next }).withSio
      (sioAdd B s.sio x.sock ok x.handler.code k)) s.sio.next event true) = _
    rw [hwatch]
    rfl

theorem SockInv.detach (hB : B.Works asked) (hi : SockInv B asked batch s)
    (hx : s.streams k = some x) (hfd : x.sfd.isSome) : ∃ t, sioStreamDetach B s k = some t ∧
      SockInv B asked batch t := by
  obtain ⟨r, hr⟩ := Option.isSome_iff_exists.mp hfd
  obtain ⟨sfd, hlive, -⟩ := hi.owns.live hx hr
  obtain ⟨sio', hdel, hok', hlive', -⟩ := hi.owns.sio.del hB hlive
  have hok : UseOk (x.seen s.sio) (.op .detach) := by
    rw [seen_live hr hlive]
    exact ⟨rfl, trivial⟩
  have hstep : useStep (x.seen s.sio) (.op .detach) =
      some (SioStream.seen sio' { x with sfd := none }, .void) := by
    rw [seen_live hr hlive]
    rfl
  have hinv := hi.use (t := (s.withSio sio').putStream k { x with sfd := none }) hx hok'
    ⟨rfl, rfl, ⟨rfl, rfl⟩, rfl⟩ rfl ⟨rfl, rfl⟩ (Turns.deleted rfl hr rfl hlive') hok hstep
  refine ⟨_, ?_, hinv⟩
  rw [sioStreamDetach, hx]
  change x.sfd.bind (fun r => (sockDel B s r).bind _) = _
  rw [hr, Option.bind_some, sockDel, hdel]
  rfl

theorem SockInv.attached (hi : SockInv B asked batch s) (hx : s.streams k = some x)
    (hnone : x.sfd = none) {sio' : Sio K} {r : SfdRef} {sfd : SioFd} (hnew : s.sio.live r = none)
    (hto : SfdTo B asked batch s.sio sio' r sfd)
    (hsfd : sfd.fd = x.sock ∧ sfd.userArg = k ∧ sfd.userCallback = x.handler.code)
    (hstep : (⟨sfdCallback sfd.userCallback, sfd.watchRead, sfd.watchWrite⟩ : SimpleKit.SioFd) =
      sioStreamSfd (x.seen s.sio)) :
    SockInv B asked batch (((s.putStream k { x with sfd := some r }).withSio sio').note
      (.use k (.op (.attach true)) (.code 0))) := by
  refine hi.use (t := (s.putStream k { x with sfd := some r }).withSio sio')
    (z := { x with sfd := some r }) hx hto.ok ⟨rfl, rfl, ⟨rfl, rfl⟩, rfl⟩ rfl ⟨rfl, rfl⟩
    (Turns.added rfl hnone rfl hnew hto.live hsfd.1 hsfd.2.1 hsfd.2.2) ⟨trivial, trivial⟩ ?_
  have hseen : ({ x with sfd := some r } : SioStream).seen sio' = ⟨x.type, x.sent,
      some ⟨sfdCallback sfd.userCallback, sfd.watchRead, sfd.watchWrite⟩, x.inbuf, x.outbuf⟩ :=
    seen_live rfl hto.self
  change some (_, StreamRet.code 0) = some (SioStream.seen sio' _, _)
  rw [hseen, hstep]
  rfl

theorem SockInv.unattached (hi : SockInv B asked batch s) (hx : s.streams k = some x)
    (hnone : x.sfd = none) : SockInv B asked batch ((s.putStream k { x with sfd := none }).note
      (.use k (.op (.attach false)) (.code (-1)))) := by
  have hok : UseOk (x.seen s.sio) (.op (.attach false)) := ⟨trivial, trivial⟩
  refine hi.useStill hx ?_ ?_ hok ?_
  · rw [SioStream.claim, SioStream.claim, hnone]
    rfl
  · exact ⟨rfl, rfl⟩
  · rw [seen_none hnone, seen_none rfl]
    rfl

def attachEvent : SioStreamType → SioEvent
  | .connect => .write
  | .listen | .normal => .read

/-- The three branches of sio_stream_attach in one. -/
theorem sioStreamAttach_eq (hx : s.streams k = some x) (ok : Bool) : sioStreamAttach B s k ok = (do
    let (s, added) ← sockAttach B s k x.handler (attachEvent x.type) ok
    let (s, added) ← if x.type = .normal ∧ added ∧ sioBufferLength x.outbuf ≠ 0 then do
        let x ← s.streams k
        (sockWatch B s (← x.sfd) .write true).map fun s => (s, added)
      else some (s, added)
    let ret := if added then 0 else -1
    some (s.note (.use k (.op (.attach added)) (.code ret)), ret)) := by
  rw [sioStreamAttach, hx, Option.bind_eq_bind, Option.bind_some, SioStream.handler]
  cases x.type with
  | listen => simp [attachEvent]
  | connect => simp [attachEvent]
  | normal => simp [attachEvent]

theorem SockInv.attach (hB : B.Works asked) (hi : SockInv B asked batch s)
    (hx : s.streams k = some x) (hnone : x.sfd = none) (ok : Bool) :
    ∃ t ret, sioStreamAttach B s k ok = some (t, ret) ∧ SockInv B asked batch t := by
  obtain ⟨sio', sfd, added, hrun, -, hadded⟩ :=
    hi.owns.attach hB hx hnone (attachEvent x.type) ok
  rw [sioStreamAttach_eq hx, hrun, Option.bind_eq_bind, Option.bind_some]
  dsimp only
  cases hadded with
  | failed hsame =>
    subst hsame
    refine ⟨_, -1, ?_, hi.unattached hx hnone⟩
    rw [if_neg fun hall => Bool.false_ne_true hall.2.1]
    rfl
  | done r hnew hto =>
    by_cases hwait : x.type = .normal ∧ sioBufferLength x.outbuf ≠ 0
    · -- what waits is to be written, too
      obtain ⟨sio1, hwatch, hto1⟩ := SockOwns.watch
        (s := (s.putStream k { x with sfd := some r }).withSio sio') hB hto.ok hto.self .write true
      refine ⟨_, 0, ?_, hi.attached hx hnone hnew (hto.trans hto1) ?_ ?_⟩
      · rw [if_pos ⟨hwait.1, rfl, hwait.2⟩]
        exact Option.bind_eq_some_iff.mpr ⟨{ x with sfd := some r }, Function.update_self ..,
          Option.bind_eq_some_iff.mpr ⟨r, rfl, by rw [hwatch]; rfl⟩⟩
      · rw [hwait.1]
        exact ⟨rfl, rfl, rfl⟩
      · rw [hwait.1, sioStreamSfd, seen_none hnone]
        dsimp only
        rw [hwait.1]
        dsimp only
        rw [if_pos hwait.2]
        change (⟨sfdCallback x.handler.code, true, true⟩ : SimpleKit.SioFd) = _
        rw [sfdCallback_code, hwait.1]
        rfl
    · refine ⟨_, 0, ?_, hi.attached hx hnone hnew hto ?_ ?_⟩
      · rw [if_neg fun hall => hwait ⟨hall.1, hall.2.2⟩]
        rfl
      · cases attachEvent x.type <;> exact ⟨rfl, rfl, rfl⟩
      · rw [sioStreamSfd, seen_none hnone]
        dsimp only
        cases hty : x.type with
        | listen => 
          change (⟨sfdCallback x.handler.code, true, false⟩ : SimpleKit.SioFd) = _
          rw [sfdCallback_code, hty]
          rfl
        | connect =>
          change (⟨sfdCallback x.handler.code, false, true⟩ : SimpleKit.SioFd) = _
          rw [sfdCallback_code, hty]
          rfl
        | normal =>
          dsimp only
          rw [if_neg fun hout => hwait ⟨hty, hout⟩]
          change (⟨sfdCallback x.handler.code, true, false⟩ : SimpleKit.SioFd) = _
          rw [sfdCallback_code, hty]
          rfl

end Attach

end SimpleKit.Loop
