import SimpleKit.Io.SocketsUse

set_option autoImplicit false

namespace SimpleKit.Loop
open Runs

variable {K : Type} {B : SioBackend K} {asked : K → Int → Asked}
  {batch : Option (List (SfdRef × SioEvents))} {s t u : Sockets K} {k h : SockRef}
  {x z : SioStream} {d d' : SioDgram}

section Close

theorem Holds.closed (hB : B.Works asked) {claims : SockRef → Option SockClaim} {sio : Sio K}
    (hh : Holds claims sio) (hok : SioOk B asked batch sio) {c : SockClaim}
    (hk : claims k = some c) : ∃ sio', (match c.sfd with
        | some r => sioDel B sio r
        | none => some sio) = some sio' ∧
      SioOk B asked batch { sio' with kernel := B.close sio'.kernel c.sock } ∧
      Holds (Function.update claims k none) { sio' with kernel := B.close sio'.kernel c.sock } ∧
      Turns sio { sio' with kernel := B.close sio'.kernel c.sock } k c { c with sfd := none } := by
  have hkeep : ∀ sio', SioOk B asked batch sio' → Turns sio sio' k c { c with sfd := none } →
      SioOk B asked batch { sio' with kernel := B.close sio'.kernel c.sock } ∧
      Holds (Function.update claims k none) { sio' with kernel := B.close sio'.kernel c.sock } ∧
      Turns sio { sio' with kernel := B.close sio'.kernel c.sock } k c { c with sfd := none } := by
    intro sio' hok' ht
    have hself : Function.update claims k (some { c with sfd := none }) k =
        some { c with sfd := none } := Function.update_self ..
    have hh' := hh.turn hk ht
    have hfree : ∀ r sfd, sio'.live r = some sfd → sfd.fd ≠ c.sock :=
      Holds.free (c := { c with sfd := none }) hh' hself rfl
    have hdrop := hh'.drop hself rfl
    rw [Function.update_idem] at hdrop
    exact ⟨hok'.close hB hfree, ⟨hdrop.claimed, hdrop.owned, hdrop.apart⟩,
      ⟨ht.sock, ht.other, ht.new, ht.old⟩⟩
  cases hr : c.sfd with
  | none =>
    refine ⟨sio, rfl, hkeep sio hok (Turns.same hh hk (fun _ => rfl) ?_)⟩
    rw [← hr]
  | some r =>
    obtain ⟨sfd, hlive, -⟩ := hh.claimed k c r hk hr
    obtain ⟨sio', hdel, hok', hlive', -⟩ := hok.del hB hlive
    exact ⟨sio', hdel, hkeep sio' hok' (Turns.deleted rfl hr rfl hlive')⟩

structure Closed (s t : Sockets K) (k : SockRef) : Prop where
  streams : t.streams = Function.update s.streams k none
  dgrams : t.dgrams = Function.update s.dgrams k none
  next : t.next = s.next
  trace : t.trace = s.trace
  script : t.script = s.script
  elsewhere : Elsewhere s t k

theorem SockOwns.drop (ho : SockOwns B asked batch s) (hk : k ≠ 0)
    (hsio : SioOk B asked batch t.sio)
    (hholds : Holds (Function.update s.claim k none) t.sio) (hc : Closed s t k)
    (hwake : t.wake = s.wake ∧ t.wakeSfd = s.wakeSfd) : SockOwns B asked batch t := by
  have hclaim : t.claim = Function.update s.claim k none := by
    funext h
    rw [Function.update_apply, Sockets.claim, Sockets.claim, hwake.1, hwake.2, hc.streams,
      hc.dgrams]
    by_cases hh : h = k
    · rw [if_pos hh, hh, if_neg hk, Function.update_self, Function.update_self]
      rfl
    · rw [if_neg hh, Function.update_of_ne hh, Function.update_of_ne hh]
  have hold : ∀ {α : Type} {f : SockRef → Option α} {h : SockRef} {y : α},
      Function.update f k none h = some y → h ≠ k ∧ f h = some y := by
    intro α f h y hy
    rw [Function.update_apply] at hy
    split at hy
    · cases hy
    · next hne => exact ⟨hne, hy⟩
  refine ⟨hsio, hclaim.symm ▸ hholds, fun h hh => ?_, fun h y hy => ?_, fun h y hy => ?_⟩
  · rw [hclaim, Function.update_apply]
    split
    · rfl
    · exact ho.unused h (hc.next ▸ hh)
  · rw [hc.streams] at hy
    obtain ⟨hne, hy⟩ := hold hy
    rw [hc.dgrams, Function.update_of_ne hne]
    exact ho.stream h y hy
  · rw [hc.dgrams] at hy
    exact ho.dgram h y (hold hy).2

theorem SockOwns.close (hB : B.Works asked) (ho : SockOwns B asked batch s)
    (hx : s.streams k = some x) : ∃ t, sioStreamClose B s k = some t ∧
      SockOwns B asked batch t ∧ Closed s t k := by
  have hk := ho.claim_stream hx
  obtain ⟨hk0, hno⟩ := ho.stream k x hx
  obtain ⟨sio', hdel, hok', hholds, ht⟩ := ho.holds.closed hB ho.sio hk
  have hrun : sioStreamClose B s k = some { s with
      sio := { sio' with kernel := B.close sio'.kernel x.sock }
      streams := Function.update s.streams k none } := by
    rw [sioStreamClose, hx, Option.bind_eq_bind, Option.bind_some]
    change (match x.sfd with
      | some r => sioDel B s.sio r
      | none => some s.sio) = some sio' at hdel
    cases hr : x.sfd with
    | none =>
      rw [hr] at hdel
      obtain rfl := Option.some.inj hdel
      rfl
    | some r =>
      rw [hr] at hdel
      dsimp only at hdel ⊢
      rw [sockDel, hdel]
      rfl
  have hdgrams : s.dgrams = Function.update s.dgrams k none :=
    (Function.update_eq_self_iff.mpr hno.symm).symm
  have helse := ho.elsewhere (t := { s with
      sio := { sio' with kernel := B.close sio'.kernel x.sock }
      streams := Function.update s.streams k none }) hk ht
    (fun h hne => Function.update_of_ne hne ..) fun _ _ => rfl
  have hc : Closed s { s with
      sio := { sio' with kernel := B.close sio'.kernel x.sock }
      streams := Function.update s.streams k none } k := ⟨rfl, hdgrams, rfl, rfl, rfl, helse⟩
  exact ⟨_, hrun, ho.drop hk0 hok' hholds hc ⟨rfl, rfl⟩, hc⟩

theorem SockOwns.closeDgram (hB : B.Works asked) (ho : SockOwns B asked batch s)
    (hx : s.dgrams k = some d) : ∃ t, sioDgramClose B s k = some t ∧
      SockOwns B asked batch t ∧ Closed s t k := by
  have hk := ho.claim_dgram hx
  have hk0 := ho.dgram k d hx
  have hno := ho.no_stream hx
  obtain ⟨sio', hdel, hok', hholds, ht⟩ := ho.holds.closed hB ho.sio hk
  have hrun : sioDgramClose B s k = some { s with
      sio := { sio' with kernel := B.close sio'.kernel d.sock }
      dgrams := Function.update s.dgrams k none } := by
    rw [sioDgramClose, hx, Option.bind_eq_bind, Option.bind_some]
    change (match d.sfd with
      | some r => sioDel B s.sio r
      | none => some s.sio) = some sio' at hdel
    cases hr : d.sfd with
    | none =>
      rw [hr] at hdel
      obtain rfl := Option.some.inj hdel
      rfl
    | some r =>
      rw [hr] at hdel
      dsimp only at hdel ⊢
      rw [sockDel, hdel]
      rfl
  have hstreams : s.streams = Function.update s.streams k none :=
    (Function.update_eq_self_iff.mpr hno.symm).symm
  have helse := ho.elsewhere (t := { s with
      sio := { sio' with kernel := B.close sio'.kernel d.sock }
      dgrams := Function.update s.dgrams k none }) hk ht
    (fun _ _ => rfl) fun h hne => Function.update_of_ne hne ..
  have hc : Closed s { s with
      sio := { sio' with kernel := B.close sio'.kernel d.sock }
      dgrams := Function.update s.dgrams k none } k := ⟨hstreams, rfl, rfl, rfl, rfl, helse⟩
  exact ⟨_, hrun, ho.drop hk0 hok' hholds hc ⟨rfl, rfl⟩, hc⟩

theorem Told.closed (ht : Told s) (hc : Closed s t k) : ToldOf t k := by
  refine ⟨fun y hy => ?_, fun y hy => ?_, fun type hty => ?_⟩
  · rw [hc.streams, Function.update_self] at hy
    cases hy
  · rw [hc.dgrams, Function.update_self] at hy
    cases hy
  · rw [hc.trace] at hty ⊢
    exact (ht.each k).made type hty

theorem SockInv.closed (hi : SockInv B asked batch s) (ho : SockOwns B asked batch t)
    (hc : Closed s t k) (hopen : (userOf k s.trace).isSome) (hlt : k < s.next) :
    SockInv B asked batch (t.note (.closed k)) := by
  have hquiet : SockInv B asked batch t :=
    ⟨ho, hi.told.quiet hc.elsewhere hc.trace (Nat.le_of_eq hc.next.symm) (hi.told.closed hc)⟩
  refine ⟨ho.note _, hquiet.told.step (k := k) ⟨fun _ _ => rfl, fun _ _ => rfl, fun _ _ _ _ => rfl⟩
    rfl rfl (hc.next ▸ hlt) (Nat.le_refl _) (hc.trace.symm ▸ hopen) ?_⟩
  refine ⟨fun y hy => ?_, fun y hy => ?_, fun type hty => ?_⟩
  · change t.streams k = some y at hy
    rw [hc.streams, Function.update_self] at hy
    cases hy
  · change t.dgrams k = some y at hy
    rw [hc.dgrams, Function.update_self] at hy
    cases hy
  · obtain ⟨y, hy⟩ := (hquiet.told.each k).made type ((madeOf_append).symm.trans hty)
    exact ⟨y, hy.idle fun _ _ _ he => by cases he⟩

end Close

section Make

theorem SockOwns.next_pos (ho : SockOwns B asked batch s) : 0 < s.next := by
  have h0 : s.claim 0 = some ⟨s.wake, some s.wakeSfd, .wakeup⟩ := if_pos rfl
  exact ho.unused_lt h0

theorem SockOwns.next_new (ho : SockOwns B asked batch s) : s.streams s.next = none ∧
    s.dgrams s.next = none := by
  refine ⟨Option.eq_none_iff_forall_not_mem.mpr fun x hx => ?_,
    Option.eq_none_iff_forall_not_mem.mpr fun x hx => ?_⟩
  · exact absurd (ho.unused_lt (ho.claim_stream hx)) (Nat.lt_irrefl _)
  · exact absurd (ho.unused_lt (ho.claim_dgram hx)) (Nat.lt_irrefl _)

theorem SockOwns.descriptor (ho : SockOwns B asked batch s) {sock : Option Int} {fd : Int}
    (hfd : s.descriptor sock = some fd) : ∀ h c, s.claim h = some c → c.sock ≠ fd := by
  intro h c hc he
  have huses : s.uses fd = true := by
    rw [Sockets.uses, List.any_eq_true]
    refine ⟨h, List.mem_range.mpr (ho.unused_lt hc), ?_⟩
    rw [hc]
    exact decide_eq_true he
  obtain ⟨-, hnot⟩ := Option.filter_eq_some_iff.mp hfd
  rw [huses] at hnot
  cases hnot

theorem SockOwns.newStream (ho : SockOwns B asked batch s) (hx : x.sfd = none)
    (hsock : ∀ h c, s.claim h = some c → c.sock ≠ x.sock) :
    SockOwns B asked batch { s.putStream s.next x with next := s.next + 1 } := by
  have hpos := Nat.ne_of_gt ho.next_pos
  have hclaim : Sockets.claim { s.putStream s.next x with next := s.next + 1 } =
      Function.update s.claim s.next (some x.claim) :=
    Puts.claim (s := { s with next := s.next + 1 }) ⟨rfl, rfl, ⟨rfl, rfl⟩, rfl⟩ hpos
  refine ⟨ho.sio, hclaim.symm ▸ ho.holds.new (ho.unused _ (Nat.le_refl _)) hx hsock,
    fun h hh => ?_, fun h y hy => ?_, ho.dgram⟩
  · rw [hclaim, Function.update_of_ne (Nat.ne_of_gt hh)]
    exact ho.unused h (Nat.le_of_succ_le hh)
  · change Function.update s.streams s.next (some x) h = some y at hy
    rw [Function.update_apply] at hy
    split at hy
    · next hh => exact ⟨hh ▸ hpos, hh ▸ ho.next_new.2⟩
    · exact ho.stream h y hy

theorem SockOwns.newDgram (ho : SockOwns B asked batch s) (hx : d.sfd = none)
    (hsock : ∀ h c, s.claim h = some c → c.sock ≠ d.sock) :
    SockOwns B asked batch { s.putDgram s.next d with next := s.next + 1 } := by
  have hpos := Nat.ne_of_gt ho.next_pos
  have hclaim : Sockets.claim { s.putDgram s.next d with next := s.next + 1 } =
      Function.update s.claim s.next (some d.claim) :=
    PutsDgram.claim (s := { s with next := s.next + 1 }) ⟨rfl, rfl, ⟨rfl, rfl⟩, rfl⟩ hpos
      ho.next_new.1
  refine ⟨ho.sio, hclaim.symm ▸ ho.holds.new (ho.unused _ (Nat.le_refl _)) hx hsock,
    fun h hh => ?_, fun h y hy => ⟨(ho.stream h y hy).1, ?_⟩, fun h y hy => ?_⟩
  · rw [hclaim, Function.update_of_ne (Nat.ne_of_gt hh)]
    exact ho.unused h (Nat.le_of_succ_le hh)
  · change Function.update s.dgrams s.next (some d) h = none
    rw [Function.update_of_ne, (ho.stream h y hy).2]
    rintro rfl
    have hnone : s.streams s.next = some y := hy
    rw [ho.next_new.1] at hnone
    cases hnone
  · change Function.update s.dgrams s.next (some d) h = some y at hy
    rw [Function.update_apply] at hy
    split at hy
    · next hh => exact hh ▸ hpos
    · exact ho.dgram h y hy

theorem Elsewhere.trans (h : Elsewhere s t k) (h' : Elsewhere t u k) :
    Elsewhere s u k := by
  refine ⟨fun i hi => (h'.streams i hi).trans (h.streams i hi),
    fun i hi => (h'.dgrams i hi).trans (h.dgrams i hi), fun i y hi hy => ?_⟩
  exact (h'.seen i y hi ((h.streams i hi).trans hy)).trans (h.seen i y hi hy)

/-- A socket that could not be added is gone as if it had never been. -/
theorem Told.never (ht : Told s) (helse : Elsewhere s t k) (hc : Closed t u k)
    (htrace : t.trace = s.trace) (hnext : s.next ≤ t.next) : Told u := by
  have hquiet : u.trace = s.trace := hc.trace.trans htrace
  refine ht.quiet (helse.trans hc.elsewhere) hquiet (hc.next.symm ▸ hnext)
    ⟨fun y hy => ?_, fun y hy => ?_, fun type hty => ?_⟩
  · rw [hc.streams, Function.update_self] at hy
    cases hy
  · rw [hc.dgrams, Function.update_self] at hy
    cases hy
  · rw [hquiet] at hty ⊢
    exact (ht.each _).made type hty

theorem SockInv.made (hi : SockInv B asked batch s) (ho : SockOwns B asked batch t)
    (helse : Elsewhere s t s.next) (htrace : t.trace = s.trace) (hnext : t.next = s.next + 1)
    (hx : t.streams s.next = some x) {type : SioStreamType}
    (hseen : x.seen t.sio = sioStreamMade type) {callback arg : Nat}
    (huser : x.userCallback = callback ∧ x.userArg = arg) :
    SockInv B asked batch (t.note (.made s.next type callback arg)) := by
  have hunused : ∀ e ∈ s.trace, e.sock ≠ s.next := fun e he => Nat.ne_of_lt (hi.told.used e he)
  have hlived := Lived.start hunused type callback arg
  have hmade : madeOf s.next (s.trace ++ [.made s.next type callback arg]) = some type := by
    rw [madeOf_append]
    exact if_pos rfl
  refine ⟨ho.note _, hi.told.step (k := s.next) ⟨helse.streams, helse.dgrams, helse.seen⟩
    (e := .made s.next type callback arg)
    (congrArg (· ++ [SockTrace.made s.next type callback arg]) htrace) rfl ?_ ?_ hunused ?_⟩
  · exact Nat.lt_of_lt_of_eq (Nat.lt_succ_self _) hnext.symm
  · exact Nat.le_trans (Nat.le_succ _) (Nat.le_of_eq hnext.symm)
  · refine ⟨fun y hy => ?_, fun y hy => ?_, fun ty hty => ?_⟩
    · obtain rfl := Option.some.inj (hx.symm.trans hy)
      change userOf s.next (t.trace ++ [.made s.next type callback arg]) = _ ∧ ∃ ty,
        madeOf s.next (t.trace ++ [.made s.next type callback arg]) = some ty ∧
          Lived s.next (t.trace ++ _) ty (x.seen t.sio)
      rw [htrace, userOf_append, huser.1, huser.2, hseen]
      exact ⟨if_pos rfl, type, hmade, hlived⟩
    · change t.dgrams s.next = some y at hy
      rw [(ho.stream _ x hx).2] at hy
      cases hy
    · change madeOf s.next (t.trace ++ [.made s.next type callback arg]) = some ty at hty
      change ∃ y, Lived s.next (t.trace ++ [.made s.next type callback arg]) ty y
      rw [htrace] at hty ⊢
      rw [hmade, Option.some.injEq] at hty
      subst hty
      exact ⟨_, hlived⟩

theorem SockInv.make (hB : B.Works asked) (hi : SockInv B asked batch s) {fd : Int}
    (hsock : ∀ h c, s.claim h = some c → c.sock ≠ fd) (type : SioStreamType)
    {handler : SioHandler} (ok : Bool) (callback arg : Nat) (hhandler : handler =
      SioStream.handler ⟨type, fd, none, callback, arg, sioBufferNew, sioBufferNew, []⟩) :
    ∃ t made, sockStreamMake B s fd type handler (attachEvent type) ok callback arg =
        some (t, made) ∧ SockInv B asked batch t ∧
      ∀ h, made = some h → ∃ y, t.streams h = some y ∧ y.userCallback = callback ∧
        y.userArg = arg := by
  subst hhandler
  generalize hx0 : (⟨type, fd, none, callback, arg, sioBufferNew, sioBufferNew, []⟩ : SioStream) = x
  have hnone : x.sfd = none := by rw [← hx0]
  have hnew := hi.owns.newStream (x := x) hnone (by rw [← hx0]; exact hsock)
  have hx : Sockets.streams { s.putStream s.next x with next := s.next + 1 } s.next = some x :=
    Function.update_self ..
  obtain ⟨sio', sfd, added, hrun, hok', hadded⟩ := hnew.attach hB hx hnone (attachEvent type) ok
  have hk := hnew.claim_stream hx
  -- the state in which the stream has been added, or not
  generalize hs1 : (Sockets.putStream { s.putStream s.next x with next := s.next + 1 } s.next
    { x with sfd := sfd }).withSio sio' = s1 at hrun
  have hputs : Puts { s.putStream s.next x with next := s.next + 1 } s1 s.next
      { x with sfd := sfd } := by
    rw [← hs1]
    exact ⟨rfl, rfl, ⟨rfl, rfl⟩, rfl⟩
  have hmake : sockStreamMake B s fd type x.handler (attachEvent type) ok callback arg =
      if added then some (s1.note (.made s.next type callback arg), some s.next)
      else (sioStreamClose B s1 s.next).map fun s => (s, none) := by
    rw [sockStreamMake, sockStreamNew, hx0]
    change Option.bind (sockAttach B { s.putStream s.next x with next := s.next + 1 } s.next
      x.handler (attachEvent type) ok) _ = _
    rw [hrun]
    rfl
  have hself : s1.streams s.next = some { x with sfd := sfd } := by
    rw [hputs.streams, Function.update_self]
  have htrace : s1.trace = s.trace := by rw [← hs1]; rfl
  have hnext : s1.next = s.next + 1 := hputs.next
  have hsio : s1.sio = sio' := by rw [← hs1]; rfl
  have hfresh : Elsewhere s { s.putStream s.next x with next := s.next + 1 } s.next :=
    ⟨fun h hne => Function.update_of_ne hne .., fun _ _ => rfl, fun _ _ _ _ => rfl⟩
  rw [hmake]
  cases hadded with
  | failed hsame =>
    have hturns : Turns s.sio s1.sio s.next x.claim ({ x with sfd := none } : SioStream).claim := by
      rw [hsio, hsame]
      refine Turns.same hnew.holds hk (fun _ => rfl) ?_
      rw [SioStream.claim, SioStream.claim, hnone]
      rfl
    have ho1 := hnew.turn hx (hsio.symm ▸ hok') hputs hturns
    obtain ⟨s2, hclose, ho2, hc2⟩ := ho1.close hB hself
    have helse := hfresh.trans (hnew.elsewhere hk hturns hputs.other.1 hputs.other.2)
    refine ⟨s2, none, ?_, ⟨ho2, hi.told.never helse hc2 htrace ?_⟩, fun h he => by cases he⟩
    · rw [if_neg Bool.false_ne_true, hclose]
      rfl
    · rw [hnext]
      exact Nat.le_succ _
  | done r hlive hto =>
    have hturns : Turns s.sio s1.sio s.next x.claim
        ({ x with sfd := some r } : SioStream).claim := by
      rw [hsio]
      refine Turns.added rfl hnone rfl hlive hto.live ?_ ?_ ?_ <;>
        cases attachEvent type <;> rfl
    have ho1 := hnew.turn hx (hsio.symm ▸ hok') hputs hturns
    have helse := hfresh.trans (hnew.elsewhere hk hturns hputs.other.1 hputs.other.2)
    have hthis : s1.sio.live r = _ := hsio.symm ▸ hto.self
    refine ⟨_, some s.next, if_pos rfl, hi.made ho1 helse htrace hnext hself ?_ ?_, fun h he => ?_⟩
    · rw [seen_live rfl hthis, ← hx0]
      cases type <;> rfl
    · rw [← hx0]
      exact ⟨rfl, rfl⟩
    · obtain rfl := Option.some.inj he
      exact ⟨_, hself, by rw [← hx0], by rw [← hx0]⟩

theorem SockInv.closeFd (hB : B.Works asked) (hi : SockInv B asked batch s) {fd : Int}
    (hsock : ∀ h c, s.claim h = some c → c.sock ≠ fd) :
    SockInv B asked batch (sockClose B s fd) := by
  have ho := hi.owns
  have hfree : ∀ r sfd, s.sio.live r = some sfd → sfd.fd ≠ fd := ho.holds.free_of hsock
  exact ⟨⟨ho.sio.close hB hfree, ⟨ho.holds.claimed, ho.holds.owned, ho.holds.apart⟩, ho.unused,
    ho.stream, ho.dgram⟩, fun h => ⟨(hi.told.each h).stream, (hi.told.each h).dgram,
    (hi.told.each h).made⟩, hi.told.used, hi.told.safe⟩

theorem SockInv.listen (hB : B.Works asked) (hi : SockInv B asked batch s) (sock : Option Int)
    (bind ok : Bool) (callback arg : Nat) : ∃ t made,
      sioStreamListen B s sock bind ok callback arg = some (t, made) ∧
        SockInv B asked batch t := by
  rw [sioStreamListen]
  cases hfd : s.descriptor sock with
  | none => exact ⟨s, none, rfl, hi⟩
  | some fd =>
    have hsock := hi.owns.descriptor hfd
    cases bind with
    | false => exact ⟨_, none, rfl, hi.closeFd hB hsock⟩
    | true =>
      obtain ⟨t, made, hrun, hinv, -⟩ :=
        hi.make hB hsock .listen ok callback arg rfl
      exact ⟨t, made, hrun, hinv⟩

theorem SockInv.connect (hB : B.Works asked) (hi : SockInv B asked batch s) (sock : Option Int)
    (connecting ok : Bool) (callback arg : Nat) : ∃ t made,
      sioStreamConnect B s sock connecting ok callback arg = some (t, made) ∧
        SockInv B asked batch t := by
  rw [sioStreamConnect]
  cases hfd : s.descriptor sock with
  | none => exact ⟨s, none, rfl, hi⟩
  | some fd =>
    have hsock := hi.owns.descriptor hfd
    cases connecting with
    | false => exact ⟨_, none, rfl, hi.closeFd hB hsock⟩
    | true =>
      obtain ⟨t, made, hrun, hinv, -⟩ :=
        hi.make hB hsock .connect ok callback arg rfl
      exact ⟨t, made, hrun, hinv⟩

theorem SockInv.set (hi : SockInv B asked batch s) (hx : s.streams k = some x)
    (callback arg : Nat) : ∃ t, sioStreamSet s k callback arg = some t ∧
      SockInv B asked batch t := by
  have hk := hi.owns.claim_stream hx
  have hp : Puts s (s.putStream k { x with userCallback := callback, userArg := arg }) k
      { x with userCallback := callback, userArg := arg } := ⟨rfl, rfl, ⟨rfl, rfl⟩, rfl⟩
  have ho := hi.owns.turn (t := s.putStream k _) hx hi.owns.sio hp
    (Turns.same hi.owns.holds hk (fun _ => rfl) rfl)
  obtain ⟨huser, type, hmade, hlived⟩ := (hi.told.each k).stream x hx
  have hmade' : madeOf k (s.trace ++ [.set k callback arg]) = madeOf k s.trace := madeOf_append
  have huser' : userOf k (s.trace ++ [.set k callback arg]) = some (callback, arg) :=
    userOf_append.trans (if_pos rfl)
  have hidle : ∀ h' use ret, SockTrace.set k callback arg ≠ .use h' use ret :=
    fun _ _ _ he => by cases he
  have hsafe : SafeSock s.trace (.set k callback arg) :=
    Option.isSome_iff_exists.mpr ⟨_, huser⟩
  refine ⟨_, by rw [sioStreamSet, hx]; rfl, ho.note _, hi.told.step (k := k)
    ⟨hp.other.1, hp.other.2, fun _ _ _ _ => rfl⟩ rfl rfl (hi.owns.unused_lt hk) (Nat.le_refl _)
    hsafe ⟨fun y hy => ?_, fun y hy => ?_, fun ty hty => ?_⟩⟩
  · obtain rfl := Option.some.inj ((Function.update_self k _ s.streams).symm.trans hy)
    exact ⟨huser', type, hmade'.trans hmade, hlived.idle hidle⟩
  · change s.dgrams k = some y at hy
    rw [(hi.owns.stream k x hx).2] at hy
    cases hy
  · obtain ⟨y, hy⟩ := (hi.told.each k).made ty (hmade'.symm.trans hty)
    exact ⟨y, hy.idle hidle⟩

end Make

section Dgram

theorem SockInv.turnDgram (hi : SockInv B asked batch s) (hx : s.dgrams k = some d)
    (hsio : SioOk B asked batch t.sio) (hp : PutsDgram s t k d') (htrace : t.trace = s.trace)
    (huser : d'.userCallback = d.userCallback ∧ d'.userArg = d.userArg)
    (ht : Turns s.sio t.sio k d.claim d'.claim) : SockInv B asked batch t := by
  have ho := hi.owns.turnDgram hx hsio hp ht
  have helse := hi.owns.elsewhere (hi.owns.claim_dgram hx) ht hp.other.1 hp.other.2
  have hself : t.dgrams k = some d' := by rw [hp.dgrams, Function.update_self]
  refine ⟨ho, hi.told.quiet helse htrace (Nat.le_of_eq hp.next.symm)
    ⟨fun y hy => ?_, fun y hy => ?_, fun ty hty => ?_⟩⟩
  · rw [ho.no_stream hself] at hy
    cases hy
  · obtain rfl := Option.some.inj (hself.symm.trans hy)
    rw [htrace, huser.1, huser.2]
    exact (hi.told.each k).dgram d hx
  · rw [htrace] at hty ⊢
    exact (hi.told.each k).made ty hty

theorem SockInv.dgramSet (hi : SockInv B asked batch s) (hx : s.dgrams k = some d)
    (callback arg : Nat) : ∃ t, sioDgramSet s k callback arg = some t ∧
      SockInv B asked batch t := by
  have hk := hi.owns.claim_dgram hx
  have hp : PutsDgram s (s.putDgram k { d with userCallback := callback, userArg := arg }) k
      { d with userCallback := callback, userArg := arg } := ⟨rfl, rfl, ⟨rfl, rfl⟩, rfl⟩
  have ho := hi.owns.turnDgram (t := s.putDgram k _) hx hi.owns.sio hp
    (Turns.same hi.owns.holds hk (fun _ => rfl) rfl)
  have hmade' : madeOf k (s.trace ++ [.set k callback arg]) = madeOf k s.trace := madeOf_append
  have huser' : userOf k (s.trace ++ [.set k callback arg]) = some (callback, arg) :=
    userOf_append.trans (if_pos rfl)
  have hsafe : SafeSock s.trace (.set k callback arg) :=
    Option.isSome_iff_exists.mpr ⟨_, (hi.told.each k).dgram d hx⟩
  refine ⟨_, by rw [sioDgramSet, hx]; rfl, ho.note _, hi.told.step (k := k)
    ⟨hp.other.1, hp.other.2, fun _ _ _ _ => rfl⟩ rfl rfl (hi.owns.unused_lt hk) (Nat.le_refl _)
    hsafe ⟨fun y hy => ?_, fun y hy => ?_, fun ty hty => ?_⟩⟩
  · change s.streams k = some y at hy
    rw [hi.owns.no_stream hx] at hy
    cases hy
  · obtain rfl := Option.some.inj ((Function.update_self k _ s.dgrams).symm.trans hy)
    exact huser'
  · obtain ⟨y, hy⟩ := (hi.told.each k).made ty (hmade'.symm.trans hty)
    exact ⟨y, hy.idle fun _ _ _ he => by cases he⟩

theorem SockInv.sendto (hi : SockInv B asked batch s) (hx : s.dgrams k = some d)
    (dest : SockAddr) (data : List UInt8) (sendto : Except Errno Nat) : ∃ t ret,
      sockSendto s k dest data sendto = some (t, ret) ∧ SockInv B asked batch t := by
  refine ⟨_, _, by rw [sockSendto, hx]; rfl, hi.noted ?_ ?_ (fun _ _ _ he => by cases he)
    userOf_append madeOf_append⟩
  · exact hi.owns.unused_lt (hi.owns.claim_dgram hx)
  · exact Option.isSome_iff_exists.mpr ⟨_, (hi.told.each k).dgram d hx⟩

theorem SockInv.dgramDetach (hB : B.Works asked) (hi : SockInv B asked batch s)
    (hx : s.dgrams k = some d) (hfd : d.sfd.isSome) : ∃ t, sioDgramDetach B s k = some t ∧
      SockInv B asked batch t := by
  obtain ⟨r, hr⟩ := Option.isSome_iff_exists.mp hfd
  obtain ⟨sfd, hlive, -⟩ := hi.owns.holds.claimed k d.claim r (hi.owns.claim_dgram hx) hr
  obtain ⟨sio', hdel, hok', hlive', -⟩ := hi.owns.sio.del hB hlive
  have hinv := hi.turnDgram (t := (s.withSio sio').putDgram k { d with sfd := none }) hx hok'
    ⟨rfl, rfl, ⟨rfl, rfl⟩, rfl⟩ rfl ⟨rfl, rfl⟩ (Turns.deleted rfl hr rfl hlive')
  refine ⟨_, ?_, hinv⟩
  rw [sioDgramDetach, hx]
  change d.sfd.bind (fun r => (sockDel B s r).bind _) = _
  rw [hr, Option.bind_some, sockDel, hdel]
  rfl

theorem SockOwns.dgramAttach (hB : B.Works asked) (ho : SockOwns B asked batch s)
    (hx : s.dgrams k = some d) (hnone : d.sfd = none) (ok : Bool) :
    ∃ sio' sfd added, sioDgramAttach B s k ok = some
        ((s.putDgram k { d with sfd := sfd }).withSio sio', if added then 0 else -1) ∧
      SioOk B asked batch sio' ∧ SockAdded B asked batch s.sio sio' d.claim k .read sfd added := by
  have hk := ho.claim_dgram hx
  have hfree : ∀ r sfd, s.sio.live r = some sfd → sfd.fd ≠ d.sock := ho.holds.free hk hnone
  obtain ⟨hok, hnew, hadd⟩ := ho.sio.add hB hfree ok SioHandler.dgram.code k
  simp only [sioDgramAttach, sockAdd, hx, Option.bind_eq_bind, Option.bind_some]
  rcases hadd with ⟨hfail, hsame⟩ | ⟨⟨k', hk'⟩, hlive⟩
  · rw [hfail]
    exact ⟨_, none, false, rfl, hok, .failed hsame⟩
  · rw [hk']
    have hto : SfdTo B asked batch s.sio (sioAdd B s.sio d.sock ok SioHandler.dgram.code k)
        s.sio.next ⟨d.sock, false, false, SioEvents.none, SioHandler.dgram.code, k, false⟩ :=
      ⟨hok, hlive⟩
    obtain ⟨sio', hwatch, hto'⟩ := SockOwns.watch
      (s := (s.putDgram k { d with sfd := some s.sio.next }).withSio
        (sioAdd B s.sio d.sock ok SioHandler.dgram.code k)) hB hok hto.self .read true
    refine ⟨sio', some s.sio.next, true, ?_, hto'.ok, .done s.sio.next hnew (hto.trans hto')⟩
    change Option.map _ (sockWatch B ((s.putDgram k { d with sfd := some s.sio.next }).withSio
      (sioAdd B s.sio d.sock ok SioHandler.dgram.code k)) s.sio.next .read true) = _
    rw [hwatch]
    rfl

theorem SockAdded.turns {sio sio' : Sio K} {claims : SockRef → Option SockClaim}
    (hh : Holds claims sio) (hk : claims k = some d.claim) (hnone : d.sfd = none)
    {sfd : Option SfdRef} {added : Bool}
    (h : SockAdded B asked batch sio sio' d.claim k .read sfd added) :
    Turns sio sio' k d.claim ({ d with sfd := sfd } : SioDgram).claim := by
  cases h with
  | failed hsame =>
    rw [hsame]
    refine Turns.same hh hk (fun _ => rfl) ?_
    rw [SioDgram.claim, SioDgram.claim, hnone]
  | done r hnew hto => exact Turns.added rfl hnone rfl hnew hto.live rfl rfl rfl

theorem SockInv.dgramAttach (hB : B.Works asked) (hi : SockInv B asked batch s)
    (hx : s.dgrams k = some d) (hnone : d.sfd = none) (ok : Bool) :
    ∃ t ret, sioDgramAttach B s k ok = some (t, ret) ∧ SockInv B asked batch t := by
  have hk := hi.owns.claim_dgram hx
  obtain ⟨sio', sfd, added, hrun, hok', hadded⟩ := hi.owns.dgramAttach hB hx hnone ok
  have hp : PutsDgram s ((s.putDgram k { d with sfd := sfd }).withSio sio') k
      { d with sfd := sfd } := ⟨rfl, rfl, ⟨rfl, rfl⟩, rfl⟩
  exact ⟨_, _, hrun, hi.turnDgram hx hok' hp rfl ⟨rfl, rfl⟩
    (hadded.turns hi.owns.holds hk hnone)⟩

theorem SockInv.dgramMade (hi : SockInv B asked batch s) (ho : SockOwns B asked batch t)
    (helse : Elsewhere s t s.next) (htrace : t.trace = s.trace) (hnext : s.next < t.next)
    {fd : Int} {sfd : Option SfdRef} {callback arg : Nat}
    (hself : t.dgrams s.next = some ⟨fd, sfd, callback, arg⟩) :
    SockInv B asked batch (t.note (.dgramMade s.next callback arg)) := by
  refine ⟨ho.note _, hi.told.step (k := s.next) ⟨helse.streams, helse.dgrams, helse.seen⟩
    (e := .dgramMade s.next callback arg)
    (congrArg (· ++ [SockTrace.dgramMade s.next callback arg]) htrace) rfl hnext
    (Nat.le_of_lt hnext) (fun e he => Nat.ne_of_lt (hi.told.used e he))
    ⟨fun y hy => ?_, fun y hy => ?_, fun ty hty => ?_⟩⟩
  · change t.streams s.next = some y at hy
    rw [ho.no_stream hself] at hy
    cases hy
  · obtain rfl := Option.some.inj (hself.symm.trans hy)
    change userOf s.next (t.trace ++ [.dgramMade s.next callback arg]) = _
    rw [userOf_append]
    exact if_pos rfl
  · change madeOf s.next (t.trace ++ [.dgramMade s.next callback arg]) = some ty at hty
    change ∃ y, Lived s.next (t.trace ++ [.dgramMade s.next callback arg]) ty y
    rw [htrace] at hty ⊢
    rw [madeOf_append] at hty
    obtain ⟨y, hy⟩ := (hi.told.each s.next).made ty hty
    exact ⟨y, hy.idle fun _ _ _ he => by cases he⟩

theorem SockInv.dgramOpen (hB : B.Works asked) (hi : SockInv B asked batch s)
    (sock : Option Int) (bind ok : Bool) (callback arg : Nat) : ∃ t made,
      sioDgramOpen B s sock bind ok callback arg = some (t, made) ∧ SockInv B asked batch t := by
  rw [sioDgramOpen]
  cases hfd : s.descriptor sock with
  | none => exact ⟨s, none, rfl, hi⟩
  | some fd =>
    have hsock := hi.owns.descriptor hfd
    cases bind with
    | false => exact ⟨_, none, rfl, hi.closeFd hB hsock⟩
    | true =>
      have hnew := hi.owns.newDgram (d := ⟨fd, none, callback, arg⟩) rfl hsock
      have hx : Sockets.dgrams { s.putDgram s.next ⟨fd, none, callback, arg⟩ with
          next := s.next + 1 } s.next = some ⟨fd, none, callback, arg⟩ := Function.update_self ..
      obtain ⟨sio', sfd, added, hrun, hok', hadded⟩ := hnew.dgramAttach hB hx rfl ok
      have hk := hnew.claim_dgram hx
      have hturns := hadded.turns hnew.holds hk rfl
      generalize hs1 : (Sockets.putDgram { s.putDgram s.next ⟨fd, none, callback, arg⟩ with
        next := s.next + 1 } s.next ⟨fd, sfd, callback, arg⟩).withSio sio' = s1 at hrun
      have hsio : s1.sio = sio' := by rw [← hs1]; rfl
      have hputs : PutsDgram { s.putDgram s.next ⟨fd, none, callback, arg⟩ with
          next := s.next + 1 } s1 s.next ⟨fd, sfd, callback, arg⟩ := by
        rw [← hs1]
        exact ⟨rfl, rfl, ⟨rfl, rfl⟩, rfl⟩
      have hself : s1.dgrams s.next = some ⟨fd, sfd, callback, arg⟩ := by
        rw [hputs.dgrams, Function.update_self]
      have htrace : s1.trace = s.trace := by rw [← hs1]; rfl
      have ho1 := hnew.turnDgram hx (hsio.symm ▸ hok') hputs (hsio.symm ▸ hturns)
      have hfresh : Elsewhere s { s.putDgram s.next ⟨fd, none, callback, arg⟩ with
          next := s.next + 1 } s.next :=
        ⟨fun _ _ => rfl, fun h hne => Function.update_of_ne hne .., fun _ _ _ _ => rfl⟩
      have helse := hfresh.trans
        (hnew.elsewhere hk (hsio.symm ▸ hturns) hputs.other.1 hputs.other.2)
      have hnext : s.next < s1.next := Nat.lt_of_lt_of_eq (Nat.lt_succ_self _) hputs.next.symm
      have hmake : sioDgramOpen B s sock true ok callback arg =
          if (if added then 0 else -1) = (0 : Int) then
            some (s1.note (.dgramMade s.next callback arg), some s.next)
          else (sioDgramClose B s1 s.next).map fun s => (s, none) := by
        rw [sioDgramOpen, hfd]
        change Option.bind (sioDgramAttach B { s.putDgram s.next ⟨fd, none, callback, arg⟩ with
          next := s.next + 1 } s.next ok) _ = _
        rw [hrun]
        rfl
      rw [sioDgramOpen, hfd] at hmake
      rw [hmake]
      cases added with
      | false =>
        obtain ⟨s2, hclose, ho2, hc2⟩ := ho1.closeDgram hB hself
        refine ⟨s2, none, ?_, ho2, hi.told.never helse hc2 htrace (Nat.le_of_lt hnext)⟩
        rw [hclose]
        rfl
      | true =>
        exact ⟨_, some s.next, rfl, hi.dgramMade ho1 helse htrace hnext hself⟩

end Dgram

/-- A use of a socket that is open goes through, but for a write that needs an sfd. -/
theorem SockInv.act (hB : B.Works asked) (hi : SockInv B asked batch s) {a : SockAct}
    (ha : s.Permits a) : Goes (SockInv B asked batch) (s.Spares a) (sockAct B s a) := by
  have hmap : ∀ {α : Type} {f : Option (Sockets K × α)}, (∃ t y, f = some (t, y) ∧
      SockInv B asked batch t) → ∃ t, f.map Prod.fst = some t ∧ SockInv B asked batch t := by
    rintro α f ⟨t, y, rfl, ht⟩
    exact ⟨t, rfl, ht⟩
  cases a with
  | listen sock bind ok callback arg =>
    exact .of_some trivial (hmap (hi.listen hB sock bind ok callback arg))
  | connect sock connecting ok callback arg =>
    exact .of_some trivial (hmap (hi.connect hB sock connecting ok callback arg))
  | set h callback arg =>
    obtain ⟨x, hx⟩ := Option.isSome_iff_exists.mp ha
    exact .of_some trivial (hi.set hx callback arg)
  | write h data write =>
    obtain ⟨x, hx⟩ := Option.isSome_iff_exists.mp ha
    exact hi.write hB hx data write
  | erase h size =>
    obtain ⟨x, hx, hfit⟩ := ha
    exact .of_some trivial (hi.erase hx hfit)
  | detach h =>
    obtain ⟨x, hx, hfd⟩ := ha
    exact .of_some trivial (hi.detach hB hx hfd)
  | attach h ok =>
    obtain ⟨x, hx, hnone⟩ := ha
    exact .of_some trivial (hmap (hi.attach hB hx hnone ok))
  | close h =>
    obtain ⟨x, hx⟩ := Option.isSome_iff_exists.mp ha
    obtain ⟨t, hclose, ho, hc⟩ := hi.owns.close hB hx
    refine .of_some trivial ⟨_, by rw [sockAct, hclose]; rfl, hi.closed ho hc ?_ ?_⟩
    · exact Option.isSome_iff_exists.mpr ⟨_, ((hi.told.each h).stream x hx).1⟩
    · exact hi.owns.unused_lt (hi.owns.claim_stream hx)
  | dgramOpen sock bind ok callback arg =>
    exact .of_some trivial (hmap (hi.dgramOpen hB sock bind ok callback arg))
  | dgramSet h callback arg =>
    obtain ⟨x, hx⟩ := Option.isSome_iff_exists.mp ha
    exact .of_some trivial (hi.dgramSet hx callback arg)
  | dgramWrite h addr port data sendto =>
    obtain ⟨x, hx⟩ := Option.isSome_iff_exists.mp ha
    exact .of_some trivial (hmap (hi.sendto hx ⟨addr, port⟩ data sendto))
  | dgramResponse h source data sendto =>
    obtain ⟨x, hx⟩ := Option.isSome_iff_exists.mp ha
    exact .of_some trivial (hmap (hi.sendto hx source data sendto))
  | dgramDetach h =>
    obtain ⟨x, hx, hfd⟩ := ha
    exact .of_some trivial (hi.dgramDetach hB hx hfd)
  | dgramAttach h ok =>
    obtain ⟨x, hx, hnone⟩ := ha
    exact .of_some trivial (hmap (hi.dgramAttach hB hx hnone ok))
  | dgramClose h =>
    obtain ⟨x, hx⟩ := Option.isSome_iff_exists.mp ha
    obtain ⟨t, hclose, ho, hc⟩ := hi.owns.closeDgram hB hx
    refine .of_some trivial ⟨_, by rw [sockAct, hclose]; rfl, hi.closed ho hc ?_ ?_⟩
    · exact Option.isSome_iff_exists.mpr ⟨_, (hi.told.each h).dgram x hx⟩
    · exact hi.owns.unused_lt (hi.owns.claim_dgram hx)

theorem SockInv.acts (hB : B.Works asked) (hi : SockInv B asked batch s) {acts : List SockAct}
    (hacts : Along (plain (sockAct B)) Sockets.Permits s acts) : Goes (SockInv B asked batch)
      (Along (plain (sockAct B)) Sockets.Spares s acts) (acts.foldlM (sockAct B) s) :=
  foldlM_goes (SockInv B asked batch) Sockets.Spares (fun _ _ h ha => h.act hB ha) hi hacts

end SimpleKit.Loop
