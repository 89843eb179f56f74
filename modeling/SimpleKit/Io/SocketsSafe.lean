import SimpleKit.Io.SocketsRun

set_option autoImplicit false

namespace SimpleKit.Loop
open Runs

/-- A program uses the sockets that it has as they are to be used, and system calls answer what they
will: it goes through exactly if no write uses an sfd that there is not, and is good then. -/
def SockRuns {K : Type} (B : SioBackend K) (good : Sockets K → Prop) : Prop :=
  ∀ wake ok s, sockStart B wake ok = some s → ∀ ops : List SockOp,
    Along (plain (sockStep B)) (SockAlong B Sockets.Permits) s ops →
    ((ops.foldlM (sockStep B) s).isSome ↔
      Along (plain (sockStep B)) (SockAlong B Sockets.Spares) s ops) ∧
    ∀ t, ops.foldlM (sockStep B) s = some t → good t

/-- What is safe: the loop, who is called for a socket, and whose the sfds are. -/
structure SocketsSafe {K : Type} (s : Sockets K) : Prop where
  loop : LoopSafe s.sio.trace
  sock : SockSafe s.trace
  holds : Holds s.claim s.sio

def sentTo {K : Type} (s : Sockets K) (h : SockRef) : List UInt8 :=
  ((usesOf h s.trace).zipWith sentBytes (retsOf h s.trace)).flatten

def receivedBy {K : Type} (s : Sockets K) (h : SockRef) : List UInt8 :=
  ((usesOf h s.trace).zipWith receivedBytes (retsOf h s.trace)).flatten

def erasedBy {K : Type} (s : Sockets K) (h : SockRef) : Nat :=
  ((usesOf h s.trace).map erasedCount).sum

/-- A stream as if it were alone: `y` is what its own uses make of it. -/
structure Alone {K : Type} (s : Sockets K) (h : SockRef) (type : SioStreamType)
    (y : SimpleKit.SioStream) : Prop where
  run : run useStep (sioStreamMade type) (usesOf h s.trace) = some (y, retsOf h s.trace)
  seen : ∀ x, s.streams h = some x → x.seen s.sio = y
  sent : y.sock ++ sioBufferData y.outbuf = sentTo s h
  received : sioBufferData y.inbuf = (receivedBy s h).drop (erasedBy s h)

structure Asking {K : Type} (asked : K → Int → Asked) (s : Sockets K) : Prop where
  attached : ∀ h x r, s.streams h = some x → x.sfd = some r → ∃ write,
    asked s.sio.kernel x.sock = ⟨some r, decide (x.type ≠ .connect), write⟩ ∧
      (x.type = .connect ∨ x.type = .normal ∧ sioBufferLength x.outbuf ≠ 0 → write = true)
  detached : ∀ h x, s.streams h = some x → x.sfd = none → asked s.sio.kernel x.sock = .nothing
  only : ∀ fd r, (asked s.sio.kernel fd).ref = some r →
    ∃ h c, s.claim h = some c ∧ c.sock = fd ∧ c.sfd = some r

variable {K : Type} {B : SioBackend K} {asked : K → Int → Asked} {s : Sockets K}

theorem sockStart_inv (hB : B.Works asked) {wake : Int} {ok : Bool}
    (hs : sockStart B wake ok = some s) : SockInv B asked none s := by
  have hstart : SioOk B asked none (sioStart B) :=
    ⟨sioStart_inv hB.lawful, (sioStart_keeps hB.lawful hB.asks).registers⟩
  have hfree : ∀ r sfd, (sioStart B).live r = some sfd → sfd.fd ≠ wake := fun _ _ hr => by cases hr
  obtain ⟨hok, -, hadd⟩ := hstart.add hB hfree ok SioHandler.wakeup.code 0
  obtain ⟨r, hr, hs⟩ := Option.bind_eq_some_iff.mp hs
  obtain ⟨k', hk', rfl⟩ := Option.map_eq_some_iff.mp hr
  obtain ⟨sio, hsio, hs⟩ := Option.bind_eq_some_iff.mp hs
  obtain rfl := Option.some.inj hs
  rcases hadd with ⟨hfail, -⟩ | ⟨-, hlive⟩
  · have hnone : B.add B.new wake ok 0 = none := hfail
    rw [hk'] at hnone
    cases hnone
  · obtain ⟨sio', hrun, hok', hlive'⟩ := hok.watch hB ((hlive _).trans (if_pos rfl)) .read true
    obtain rfl := Option.some.inj (hrun.symm.trans hsio)
    have hall : ∀ y, sio'.live y = if y = 0 then some ⟨wake, true, false, SioEvents.none,
        SioHandler.wakeup.code, 0, false⟩ else none := by
      intro y
      rw [hlive']
      change (if y = 0 then _ else _) = _
      split
      · rfl
      · next hne =>
        rw [hlive]
        exact if_neg hne
    have hclaim : ∀ h c, Sockets.claim (K := K) ⟨sio', wake, 0, fun _ => none, fun _ => none, 1,
        [], []⟩ h = some c → h = 0 ∧ c = ⟨wake, some 0, .wakeup⟩ := by
      intro h c hc
      rw [Sockets.claim] at hc
      split at hc
      · next hh => exact ⟨hh, (Option.some.inj hc).symm⟩
      · cases hc
    refine ⟨⟨hok', ⟨fun h c r hc hr => ?_, fun r sfd hr => ?_, fun h h' c c' hc hc' _ => ?_⟩,
      fun h hh => ?_, fun _ _ hx => (by cases hx), fun _ _ hx => (by cases hx)⟩,
      fun h => ⟨fun _ hx => (by cases hx), fun _ hx => (by cases hx), fun _ hm => (by cases hm)⟩,
      fun e he => (by cases he), fun l e hp => ?_⟩
    · obtain ⟨rfl, rfl⟩ := hclaim h c hc
      obtain rfl := Option.some.inj hr
      exact ⟨_, (hall 0).trans (if_pos rfl), rfl, rfl, rfl⟩
    · rw [hall] at hr
      obtain ⟨rfl, hsfd⟩ := Option.ite_none_right_eq_some.mp hr
      obtain rfl := Option.some.inj hsfd
      exact ⟨_, if_pos rfl, rfl⟩
    · exact (hclaim h c hc).1.trans (hclaim h' c' hc').1.symm
    · refine Option.eq_none_iff_forall_not_mem.mpr fun c hc => ?_
      obtain ⟨rfl, -⟩ := hclaim h c hc
      exact Nat.not_succ_le_zero 0 hh
    · have hnil := List.eq_nil_of_prefix_nil hp
      rw [List.append_eq_nil_iff] at hnil
      cases hnil.2

theorem sockRuns (hB : B.Works asked) {good : Sockets K → Prop}
    (hgood : ∀ s, SockInv B asked none s → good s) : SockRuns B good := by
  intro wake ok s hs ops hops
  have hgoes := foldlM_goes (SockInv B asked none) (SockAlong B Sockets.Spares)
    (fun _ _ h hop => h.step hB hop) (sockStart_inv hB hs) hops
  exact ⟨hgoes.isSome_iff, fun t ht => hgood t (hgoes.keeps ht)⟩

theorem SockInv.safe (hi : SockInv B asked none s) : SocketsSafe s := by
  obtain ⟨t, hrel, hnone, hquiet⟩ := hi.owns.sio.inv
  exact ⟨hrel.passes.loopSafe (hrel.dead.trans (hquiet rfl)), hi.told.safe, hi.owns.holds⟩

theorem SockInv.alone (hi : SockInv B asked none s) {h : SockRef} {type : SioStreamType}
    (hmade : madeOf h s.trace = some type) : ∃ y, Alone s h type y := by
  obtain ⟨y, hy⟩ := (hi.told.each h).made type hmade
  have hcarries : y.Carries ([] ++ sentTo s h) ([] ++ receivedBy s h) (0 + erasedBy s h) :=
    (sioStreamMade_carries type).run hy.ok hy.run
  refine ⟨y, hy.run, fun x hx => ?_, hcarries.written, ?_⟩
  · obtain ⟨-, type', hmade', hlived⟩ := (hi.told.each h).stream x hx
    obtain rfl := Option.some.inj (hmade.symm.trans hmade')
    exact (Prod.mk.inj (Option.some.inj (hlived.run.symm.trans hy.run))).1
  · have hread := hcarries.read
    rw [Nat.zero_add] at hread
    exact hread

/-- The kernel is asked for what a stream waits for, and for nothing if it is detached. -/
theorem SockInv.asking (hi : SockInv B asked none s) : Asking asked s := by
  refine ⟨fun h x r hx hr => ?_, fun h x hx hnone => ?_, fun fd r hr => ?_⟩
  · obtain ⟨sfd, hlive, hfd, -, hcode⟩ := hi.owns.holds.claimed h x.claim r
      (hi.owns.claim_stream hx) hr
    obtain ⟨-, type, hmade, hlived⟩ := (hi.told.each h).stream x hx
    have hasked := hi.owns.sio.registers.asked_eq hlive
    have hfd' : (x.seen s.sio).sfd = some ⟨sfdCallback sfd.userCallback, sfd.watchRead,
        sfd.watchWrite⟩ := by rw [seen_live hr hlive]
    have hreads := run_keeps (fun y : SimpleKit.SioStream => y.Reads (type = .listen))
      (fun _ _ _ _ h _ hstep => h.step hstep) (sioStreamMade_reads type) hlived.ok hlived.run
    refine ⟨sfd.watchWrite, ?_, fun hwaits => ?_⟩
    · have hread : sfd.watchRead = decide (x.type ≠ .connect) := hreads.read _ hfd'
      rw [← hread, ← hasked, hfd]
      rfl
    · have htype : type ≠ .listen := fun hlisten => by
        have hty : x.type = .listen := hreads.listen.mpr hlisten
        rw [hty] at hwaits
        rcases hwaits with hc | ⟨hn, -⟩
        · cases hc
        · cases hn
      have hsends := run_keeps SioStream.Sends (fun _ _ _ _ h hok hstep => h.use hok hstep)
        (sioStreamMade_sends htype) hlived.ok hlived.run
      exact hsends.watched _ hfd' (hwaits.symm.imp And.right id)
  · refine hi.owns.sio.registers.idle _ (Option.eq_none_iff_forall_not_mem.mpr fun r hr => ?_)
    obtain ⟨sfd, hlive, hfd⟩ := (hi.owns.sio.registers.live _ r).mp hr
    exact hi.owns.holds.free (hi.owns.claim_stream hx) hnone r sfd hlive hfd
  · obtain ⟨sfd, hlive, rfl⟩ := (hi.owns.sio.registers.live fd r).mp hr
    obtain ⟨c, hc, hcr⟩ := hi.owns.holds.owned r sfd hlive
    obtain ⟨sfd', hlive', hfd, -⟩ := hi.owns.holds.claimed _ c r hc hcr
    obtain rfl := Option.some.inj (hlive.symm.trans hlive')
    exact ⟨_, c, hc, hfd.symm, hcr⟩

/-- No run uses a socket or an sfd that there is not, unless a write does to a detached stream that
the kernel does not take whole; the user of each socket is called as was asked for last, and each
sfd that is live is that of one open socket. -/
theorem sockets_safe : SockRuns epoll SocketsSafe ∧ SockRuns select SocketsSafe :=
  ⟨sockRuns epoll_works fun _ hi => hi.safe, sockRuns select_works fun _ hi => hi.safe⟩

/-- A listener accepts a connection and writes to it. It is detached, a write to it is taken whole,
and it is attached again; a datagram is answered; the connection is closed. -/
def socketsSampleOps : List SockOp := [.act (.listen (some 5) true true 1 10),
  .act (.dgramOpen (some 6) true true 2 20),
  .run [.write 1 [9] (.error .other)] [(5, ⟨true, false, false⟩)]
    [{ SockCall.idle with accept := some 7, acts := [.write 3 [4, 5] (.ok 1), .set 3 1 11] }],
  .run [] [(6, ⟨true, false, false⟩), (7, ⟨true, true, false⟩)]
    [{ SockCall.idle with
        recvfrom := .ok (⟨1, 2⟩, [8]), acts := [.dgramResponse 2 ⟨1, 2⟩ [8] (.ok 1)] },
      { SockCall.idle with read := .ok [1, 2, 3], acts := [.erase 3 2] },
      { SockCall.idle with write := .ok 1 }],
  .act (.detach 3), .act (.write 3 [6] (.ok 1)), .act (.attach 3 true),
  .act (.dgramWrite 2 1 2 [7] (.error .eagain))]

/-- The same, with a write to the detached stream that is not taken. -/
def socketsSampleNull : List SockOp :=
  socketsSampleOps ++ [.act (.detach 3), .act (.write 3 [7] (.error .eagain))]

theorem sockets_safe_sample : ∃ s t, sockStart epoll 3 true = some s ∧
    socketsSampleOps.foldlM (sockStep epoll) s = some t ∧ SocketsSafe t ∧
      socketsSampleNull.foldlM (sockStep epoll) s = none := by
  obtain ⟨s, hs⟩ : ∃ s, sockStart epoll 3 true = some s := ⟨_, rfl⟩
  have huses : ∀ s ∈ sockStart epoll 3 true,
      Along (plain (sockStep epoll)) (SockAlong epoll Sockets.Permits) s socketsSampleOps ∧
      Along (plain (sockStep epoll)) (SockAlong epoll Sockets.Permits) s socketsSampleNull := by
    decide +kernel
  have hwrites : ∀ s ∈ sockStart epoll 3 true,
      Along (plain (sockStep epoll)) (SockAlong epoll Sockets.Spares) s socketsSampleOps ∧
      ¬ Along (plain (sockStep epoll)) (SockAlong epoll Sockets.Spares) s socketsSampleNull := by
    decide +kernel
  obtain ⟨hiff, hsafe⟩ := sockets_safe.1 3 true s hs socketsSampleOps (huses s hs).1
  obtain ⟨hiff', -⟩ := sockets_safe.1 3 true s hs socketsSampleNull (huses s hs).2
  obtain ⟨t, ht⟩ := Option.isSome_iff_exists.mp (hiff.mpr (hwrites s hs).1)
  exact ⟨s, t, hs, ht, hsafe t ht,
    Option.not_isSome_iff_eq_none.mp fun hnull => (hwrites s hs).2 (hiff'.mp hnull)⟩

/-- Whatever is done to other sockets, each stream is a run of the stream alone, and its bytes go
both ways in order. -/
theorem sockets_alone :
    SockRuns epoll (fun s => ∀ h type, madeOf h s.trace = some type → ∃ y, Alone s h type y) ∧
    SockRuns select (fun s => ∀ h type, madeOf h s.trace = some type → ∃ y, Alone s h type y) :=
  ⟨sockRuns epoll_works fun _ hi _ _ hmade => hi.alone hmade,
    sockRuns select_works fun _ hi _ _ hmade => hi.alone hmade⟩

theorem sockets_alone_sample : ∃ s t, sockStart epoll 3 true = some s ∧
    socketsSampleOps.foldlM (sockStep epoll) s = some t ∧ sentTo t 3 = [4, 5, 6] ∧
      receivedBy t 3 = [1, 2, 3] ∧ ∃ y, Alone t 3 .normal y := by
  obtain ⟨s, hs⟩ : ∃ s, sockStart epoll 3 true = some s := ⟨_, rfl⟩
  have huses : ∀ s ∈ sockStart epoll 3 true,
      Along (plain (sockStep epoll)) (SockAlong epoll Sockets.Permits) s socketsSampleOps ∧
      Along (plain (sockStep epoll)) (SockAlong epoll Sockets.Spares) s socketsSampleOps := by
    decide +kernel
  obtain ⟨hiff, halone⟩ := sockets_alone.1 3 true s hs socketsSampleOps (huses s hs).1
  obtain ⟨t, ht⟩ := Option.isSome_iff_exists.mp (hiff.mpr (huses s hs).2)
  have hrun : ((sockStart epoll 3 true).bind fun s => socketsSampleOps.foldlM (sockStep epoll) s).map
      (fun t => (madeOf 3 t.trace, sentTo t 3, receivedBy t 3)) =
        some (some .normal, [4, 5, 6], [1, 2, 3]) := by decide +kernel
  rw [hs, Option.bind_some, ht, Option.map_some, Option.some.injEq, Prod.mk.injEq,
    Prod.mk.injEq] at hrun
  exact ⟨s, t, hs, ht, hrun.2.1, hrun.2.2, halone t ht 3 .normal hrun.1⟩

/-- A stream whose bytes wait, or whose connection is under way, never waits in vain: the kernel is
asked for it by the sfd that is its own. -/
theorem sockets_asking : SockRuns epoll (Asking epollAsked) ∧ SockRuns select (Asking selectAsked) :=
  ⟨sockRuns epoll_works fun _ hi => hi.asking, sockRuns select_works fun _ hi => hi.asking⟩

theorem sockets_asking_sample : ∃ s t, sockStart select 3 true = some s ∧
    socketsSampleOps.foldlM (sockStep select) s = some t ∧ Asking selectAsked t := by
  obtain ⟨s, hs⟩ : ∃ s, sockStart select 3 true = some s := ⟨_, rfl⟩
  have huses : ∀ s ∈ sockStart select 3 true,
      Along (plain (sockStep select)) (SockAlong select Sockets.Permits) s socketsSampleOps ∧
      Along (plain (sockStep select)) (SockAlong select Sockets.Spares) s socketsSampleOps := by
    decide +kernel
  obtain ⟨hiff, hasking⟩ := sockets_asking.2 3 true s hs socketsSampleOps (huses s hs).1
  obtain ⟨t, ht⟩ := Option.isSome_iff_exists.mp (hiff.mpr (huses s hs).2)
  exact ⟨s, t, hs, ht, hasking t ht⟩

end SimpleKit.Loop
