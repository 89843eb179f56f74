import SimpleKit.Io.SfdSpec
import SimpleKit.Io.SocketsTrace

/-!
Which sfd belongs to which socket, and what the trace tells of a socket. Each live sfd is that of
one open socket, which is its argument; what was done to a stream is a run of the stream alone.
-/
set_option autoImplicit false

namespace SimpleKit.Loop
open Runs

theorem sioHandler_code (handler : SioHandler) : sioHandler handler.code = some handler := by
  cases handler <;> rfl

/-- Who has an sfd is its argument, and no two have one descriptor. -/
structure Holds {K : Type} (claims : SockRef → Option SockClaim) (s : Sio K) : Prop where
  claimed : ∀ h c r, claims h = some c → c.sfd = some r → ∃ sfd, s.live r = some sfd ∧
    sfd.fd = c.sock ∧ sfd.userArg = h ∧ sfd.userCallback = c.handler.code
  owned : ∀ r sfd, s.live r = some sfd → ∃ c, claims sfd.userArg = some c ∧ c.sfd = some r
  apart : ∀ h h' c c', claims h = some c → claims h' = some c' → c.sock = c'.sock → h = h'

/-- The sfds that are live change for socket `k`, which claims `c'` after `c`, and no other. -/
structure Turns {K : Type} (s t : Sio K) (k : SockRef) (c c' : SockClaim) : Prop where
  sock : c'.sock = c.sock
  other : ∀ r, c.sfd ≠ some r → c'.sfd ≠ some r → t.live r = s.live r
  new : ∀ r, c'.sfd = some r → (c.sfd = some r ∨ s.live r = none) ∧ ∃ sfd, t.live r = some sfd ∧
    sfd.fd = c'.sock ∧ sfd.userArg = k ∧ sfd.userCallback = c'.handler.code
  old : ∀ r, c.sfd = some r → c'.sfd ≠ some r → t.live r = none

section Claims
variable {K : Type} {claims : SockRef → Option SockClaim} {s t : Sio K} {k h : SockRef}
  {c c' : SockClaim} {r : SfdRef}

theorem Holds.elsewhere (hh : Holds claims s) (hk : claims k = some c) (ht : Turns s t k c c')
    {d : SockClaim} (hd : claims h = some d) (hne : h ≠ k) (hr : d.sfd = some r) :
    t.live r = s.live r := by
  obtain ⟨sfd, hlive, -, harg, -⟩ := hh.claimed h d r hd hr
  have hnot : c.sfd ≠ some r := fun hc => by
    obtain ⟨sfd', hlive', -, harg', -⟩ := hh.claimed k c r hk hc
    rw [hlive, Option.some.injEq] at hlive'
    exact hne (harg.symm.trans ((congrArg SioFd.userArg hlive').trans harg'))
  refine ht.other r hnot fun hc' => ?_
  rcases (ht.new r hc').1 with hc | hnone
  · exact hnot hc
  · rw [hlive] at hnone
    cases hnone

theorem Holds.turn (hh : Holds claims s) (hk : claims k = some c) (ht : Turns s t k c c') :
    Holds (Function.update claims k (some c')) t := by
  refine ⟨fun h d r hd hr => ?_, fun r sfd hlive => ?_, fun h h' d d' hd hd' he => ?_⟩
  · rw [Function.update_apply] at hd
    split at hd
    · next hhk =>
      obtain rfl := Option.some.inj hd
      obtain ⟨sfd, hlive, hrest⟩ := (ht.new r hr).2
      exact ⟨sfd, hlive, hrest.1, hrest.2.1.trans hhk.symm, hrest.2.2⟩
    · next hne =>
      rw [hh.elsewhere hk ht hd hne hr]
      exact hh.claimed h d r hd hr
  · rw [Function.update_apply]
    by_cases hr' : c'.sfd = some r
    · obtain ⟨sfd', hlive', -, harg, -⟩ := (ht.new r hr').2
      obtain rfl := Option.some.inj (hlive.symm.trans hlive')
      exact ⟨c', if_pos harg, hr'⟩
    · by_cases hr : c.sfd = some r
      · rw [ht.old r hr hr'] at hlive
        cases hlive
      · rw [ht.other r hr hr'] at hlive
        obtain ⟨d, hd, hdr⟩ := hh.owned r sfd hlive
        refine ⟨d, ?_, hdr⟩
        rw [if_neg, hd]
        intro harg
        rw [harg, hk, Option.some.injEq] at hd
        exact hr (hd ▸ hdr)
  · have hold : ∀ i e, Function.update claims k (some c') i = some e →
        ∃ e0, claims i = some e0 ∧ e0.sock = e.sock := by
      intro i e hi
      rw [Function.update_apply] at hi
      split at hi
      · next hik =>
        cases hi
        exact ⟨c, hik ▸ hk, ht.sock.symm⟩
      · exact ⟨e, hi, rfl⟩
    obtain ⟨d0, hd0, he0⟩ := hold h d hd
    obtain ⟨d1, hd1, he1⟩ := hold h' d' hd'
    exact hh.apart h h' d0 d1 hd0 hd1 (he0.trans (he.trans he1.symm))

theorem Holds.new (hh : Holds claims s) (hk : claims k = none) (hc : c.sfd = none)
    (hsock : ∀ h d, claims h = some d → d.sock ≠ c.sock) :
    Holds (Function.update claims k (some c)) s := by
  refine ⟨fun h d r hd hr => ?_, fun r sfd hlive => ?_, fun h h' d d' hd hd' he => ?_⟩
  · rw [Function.update_apply] at hd
    split at hd
    · cases hd
      rw [hc] at hr
      cases hr
    · exact hh.claimed h d r hd hr
  · obtain ⟨d, hd, hr⟩ := hh.owned r sfd hlive
    refine ⟨d, ?_, hr⟩
    rw [Function.update_of_ne, hd]
    intro he
    rw [he, hk] at hd
    cases hd
  · rw [Function.update_apply] at hd hd'
    split at hd <;> split at hd'
    · next h1 h2 => exact h1.trans h2.symm
    · cases hd
      exact absurd he.symm (hsock h' d' hd')
    · cases hd'
      exact absurd he (hsock h d hd)
    · exact hh.apart h h' d d' hd hd' he

theorem Holds.drop (hh : Holds claims s) (hk : claims k = some c) (hc : c.sfd = none) :
    Holds (Function.update claims k none) s := by
  have hold : ∀ h d, Function.update claims k none h = some d → claims h = some d := by
    intro h d hd
    rw [Function.update_apply] at hd
    split at hd
    · cases hd
    · exact hd
  refine ⟨fun h d r hd => hh.claimed h d r (hold h d hd), fun r sfd hlive => ?_,
    fun h h' d d' hd hd' => hh.apart h h' d d' (hold h d hd) (hold h' d' hd')⟩
  obtain ⟨d, hd, hr⟩ := hh.owned r sfd hlive
  refine ⟨d, ?_, hr⟩
  rw [Function.update_of_ne, hd]
  intro he
  rw [he, hk, Option.some.injEq] at hd
  rw [← hd, hc] at hr
  cases hr

theorem Holds.free (hh : Holds claims s) (hk : claims k = some c) (hc : c.sfd = none) :
    ∀ r sfd, s.live r = some sfd → sfd.fd ≠ c.sock := by
  intro r sfd hlive he
  obtain ⟨d, hd, hr⟩ := hh.owned r sfd hlive
  obtain ⟨sfd', hlive', hfd, -⟩ := hh.claimed _ d r hd hr
  obtain rfl := Option.some.inj (hlive.symm.trans hlive')
  have hsame := hh.apart _ k d c hd hk (hfd.symm.trans he)
  rw [hsame, hk, Option.some.injEq] at hd
  rw [← hd, hc] at hr
  cases hr

theorem Holds.free_of (hh : Holds claims s) {fd : Int}
    (hsock : ∀ h d, claims h = some d → d.sock ≠ fd) :
    ∀ r sfd, s.live r = some sfd → sfd.fd ≠ fd := by
  intro r sfd hlive he
  obtain ⟨d, hd, hr⟩ := hh.owned r sfd hlive
  obtain ⟨sfd', hlive', hfd, -⟩ := hh.claimed _ d r hd hr
  obtain rfl := Option.some.inj (hlive.symm.trans hlive')
  exact hsock _ d hd (hfd.symm.trans he)

theorem Turns.stored {sfd : SioFd} (hsock : c'.sock = c.sock) (hr : c.sfd = some r)
    (hr' : c'.sfd = some r) (hlive : ∀ x, t.live x = if x = r then some sfd else s.live x)
    (hfd : sfd.fd = c.sock) (harg : sfd.userArg = k) (hcode : sfd.userCallback = c'.handler.code) :
    Turns s t k c c' := by
  refine ⟨hsock, fun x hx _ => ?_, fun x hx => ?_, fun x hx hx' => ?_⟩
  · rw [hlive, if_neg]
    rintro rfl
    exact hx hr
  · rw [hr', Option.some.injEq] at hx
    subst hx
    exact ⟨Or.inl hr, sfd, by rw [hlive, if_pos rfl], hfd.trans hsock.symm, harg, hcode⟩
  · rw [hr, Option.some.injEq] at hx
    exact absurd (hx ▸ hr') hx'

theorem Turns.same (hh : Holds claims s) (hk : claims k = some c) (hlive : ∀ x, t.live x = s.live x)
    (hc : c' = c) : Turns s t k c c' := by
  subst hc
  refine ⟨rfl, fun x _ _ => hlive x, fun x hx => ⟨Or.inl hx, ?_⟩, fun x hx hx' => absurd hx hx'⟩
  obtain ⟨sfd, h1, h2⟩ := hh.claimed k c' x hk hx
  exact ⟨sfd, (hlive x).trans h1, h2⟩

theorem Turns.added {sfd : SioFd} (hsock : c'.sock = c.sock) (hc : c.sfd = none)
    (hr' : c'.sfd = some r) (hnone : s.live r = none)
    (hlive : ∀ x, t.live x = if x = r then some sfd else s.live x)
    (hfd : sfd.fd = c.sock) (harg : sfd.userArg = k) (hcode : sfd.userCallback = c'.handler.code) :
    Turns s t k c c' := by
  refine ⟨hsock, fun x _ hx' => ?_, fun x hx => ?_, fun x hx => ?_⟩
  · rw [hlive, if_neg]
    rintro rfl
    exact hx' hr'
  · rw [hr', Option.some.injEq] at hx
    subst hx
    exact ⟨Or.inr hnone, sfd, by rw [hlive, if_pos rfl], hfd.trans hsock.symm, harg, hcode⟩
  · rw [hc] at hx
    cases hx

theorem Turns.deleted (hsock : c'.sock = c.sock) (hr : c.sfd = some r) (hc' : c'.sfd = none)
    (hlive : ∀ x, t.live x = if x = r then none else s.live x) : Turns s t k c c' := by
  refine ⟨hsock, fun x hx _ => ?_, fun x hx => ?_, fun x hx _ => ?_⟩
  · rw [hlive, if_neg]
    rintro rfl
    exact hx hr
  · rw [hc'] at hx
    cases hx
  · rw [hr, Option.some.injEq] at hx
    rw [hlive, if_pos hx.symm]

end Claims

def sfdCallback (code : Nat) : SioCallback :=
  match sioHandler code with
  | some .accept => .accept
  | some .connect => .connect
  | _ => .stream

section Sockets
variable {K : Type}

def SioStream.seen (sio : Sio K) (x : SioStream) : SimpleKit.SioStream where
  type := x.type
  sock := x.sent
  sfd := x.sfd.bind fun r => (sio.live r).map fun sfd =>
    ⟨sfdCallback sfd.userCallback, sfd.watchRead, sfd.watchWrite⟩
  inbuf := x.inbuf
  outbuf := x.outbuf

/-- The sockets of a program and their sfds, when it has control. -/
structure SockOwns (B : SioBackend K) (asked : K → Int → Asked)
    (batch : Option (List (SfdRef × SioEvents))) (s : Sockets K) : Prop where
  sio : SioOk B asked batch s.sio
  holds : Holds s.claim s.sio
  unused : ∀ h, s.next ≤ h → s.claim h = none
  stream : ∀ h x, s.streams h = some x → h ≠ 0 ∧ s.dgrams h = none
  dgram : ∀ h x, s.dgrams h = some x → h ≠ 0

structure ToldOf (s : Sockets K) (h : SockRef) : Prop where
  stream : ∀ x, s.streams h = some x → userOf h s.trace = some (x.userCallback, x.userArg) ∧
    ∃ type, madeOf h s.trace = some type ∧ Lived h s.trace type (x.seen s.sio)
  dgram : ∀ x, s.dgrams h = some x → userOf h s.trace = some (x.userCallback, x.userArg)
  made : ∀ type, madeOf h s.trace = some type → ∃ y, Lived h s.trace type y

structure Told (s : Sockets K) : Prop where
  each : ∀ h, ToldOf s h
  used : ∀ e ∈ s.trace, e.sock < s.next
  safe : SockSafe s.trace

structure SockInv (B : SioBackend K) (asked : K → Int → Asked)
    (batch : Option (List (SfdRef × SioEvents))) (s : Sockets K) : Prop where
  owns : SockOwns B asked batch s
  told : Told s

structure Elsewhere (s t : Sockets K) (k : SockRef) : Prop where
  streams : ∀ h, h ≠ k → t.streams h = s.streams h
  dgrams : ∀ h, h ≠ k → t.dgrams h = s.dgrams h
  seen : ∀ h x, h ≠ k → s.streams h = some x → x.seen t.sio = x.seen s.sio

structure Puts (s t : Sockets K) (k : SockRef) (x : SioStream) : Prop where
  streams : t.streams = Function.update s.streams k (some x)
  dgrams : t.dgrams = s.dgrams
  wake : t.wake = s.wake ∧ t.wakeSfd = s.wakeSfd
  next : t.next = s.next

structure PutsDgram (s t : Sockets K) (k : SockRef) (x : SioDgram) : Prop where
  streams : t.streams = s.streams
  dgrams : t.dgrams = Function.update s.dgrams k (some x)
  wake : t.wake = s.wake ∧ t.wakeSfd = s.wakeSfd
  next : t.next = s.next

variable {B : SioBackend K} {asked : K → Int → Asked}
  {batch : Option (List (SfdRef × SioEvents))} {s t : Sockets K} {k h : SockRef}
  {x z : SioStream} {d d' : SioDgram} {e : SockTrace}

theorem SockOwns.claim_stream (ho : SockOwns B asked batch s) (hx : s.streams h = some x) :
    s.claim h = some x.claim := by
  rw [Sockets.claim, if_neg (ho.stream h x hx).1, hx]

theorem SockOwns.no_stream (ho : SockOwns B asked batch s) (hd : s.dgrams h = some d) :
    s.streams h = none := by
  refine Option.eq_none_iff_forall_not_mem.mpr fun x hx => ?_
  rw [(ho.stream h x hx).2] at hd
  cases hd

theorem SockOwns.claim_dgram (ho : SockOwns B asked batch s) (hd : s.dgrams h = some d) :
    s.claim h = some d.claim := by
  rw [Sockets.claim, if_neg (ho.dgram h d hd), ho.no_stream hd]
  dsimp only
  rw [hd]
  rfl

theorem Puts.claim (hp : Puts s t k x) (hk : k ≠ 0) :
    t.claim = Function.update s.claim k (some x.claim) := by
  funext h
  rw [Function.update_apply, Sockets.claim, Sockets.claim, hp.wake.1, hp.wake.2, hp.streams,
    hp.dgrams]
  by_cases hh : h = k
  · rw [if_pos hh, hh, if_neg hk, Function.update_self]
  · rw [if_neg hh, Function.update_of_ne hh]

theorem PutsDgram.claim (hp : PutsDgram s t k d) (hk : k ≠ 0) (hno : s.streams k = none) :
    t.claim = Function.update s.claim k (some d.claim) := by
  funext h
  rw [Function.update_apply, Sockets.claim, Sockets.claim, hp.wake.1, hp.wake.2, hp.streams,
    hp.dgrams]
  by_cases hh : h = k
  · rw [if_pos hh, hh, if_neg hk, hno, Function.update_self]
    rfl
  · rw [if_neg hh, Function.update_of_ne hh]

theorem SockOwns.elsewhere (ho : SockOwns B asked batch s) {c c' : SockClaim}
    (hk : s.claim k = some c) (ht : Turns s.sio t.sio k c c')
    (hstreams : ∀ h, h ≠ k → t.streams h = s.streams h)
    (hdgrams : ∀ h, h ≠ k → t.dgrams h = s.dgrams h) : Elsewhere s t k := by
  refine ⟨hstreams, hdgrams, fun h x hne hx => ?_⟩
  rw [SioStream.seen, SioStream.seen]
  cases hr : x.sfd with
  | none => rfl
  | some r => rw [Option.bind_some, Option.bind_some,
      ho.holds.elsewhere hk ht (ho.claim_stream hx) hne hr]

theorem Puts.other (hp : Puts s t k x) : (∀ h, h ≠ k → t.streams h = s.streams h) ∧
    ∀ h, h ≠ k → t.dgrams h = s.dgrams h :=
  ⟨fun h hne => by rw [hp.streams, Function.update_of_ne hne], fun h _ => by rw [hp.dgrams]⟩

theorem PutsDgram.other (hp : PutsDgram s t k d) : (∀ h, h ≠ k → t.streams h = s.streams h) ∧
    ∀ h, h ≠ k → t.dgrams h = s.dgrams h :=
  ⟨fun h _ => by rw [hp.streams], fun h hne => by rw [hp.dgrams, Function.update_of_ne hne]⟩

theorem SockOwns.unused_lt (ho : SockOwns B asked batch s) {c : SockClaim}
    (hc : s.claim h = some c) : h < s.next := by
  by_contra hge
  rw [ho.unused h (Nat.le_of_not_lt hge)] at hc
  cases hc

theorem SockOwns.turn (ho : SockOwns B asked batch s) (hx : s.streams k = some x)
    (hsio : SioOk B asked batch t.sio) (hp : Puts s t k z)
    (ht : Turns s.sio t.sio k x.claim z.claim) : SockOwns B asked batch t := by
  have hk := ho.claim_stream hx
  have hk0 := (ho.stream k x hx).1
  have hclaim := hp.claim hk0
  refine ⟨hsio, hclaim.symm ▸ ho.holds.turn hk ht, fun h hh => ?_, fun h y hy => ?_,
    fun h y hy => ?_⟩
  · rw [hp.next] at hh
    rw [hclaim, Function.update_of_ne (Nat.ne_of_gt (Nat.lt_of_lt_of_le (ho.unused_lt hk) hh))]
    exact ho.unused h hh
  · rw [hp.dgrams]
    rw [hp.streams, Function.update_apply] at hy
    split at hy
    · next hh =>
      rw [hh]
      exact ho.stream k x hx
    · exact ho.stream h y hy
  · rw [hp.dgrams] at hy
    exact ho.dgram h y hy

theorem SockOwns.turnDgram (ho : SockOwns B asked batch s) (hx : s.dgrams k = some d)
    (hsio : SioOk B asked batch t.sio) (hp : PutsDgram s t k d')
    (ht : Turns s.sio t.sio k d.claim d'.claim) : SockOwns B asked batch t := by
  have hk := ho.claim_dgram hx
  have hno := ho.no_stream hx
  have hk0 := ho.dgram k d hx
  have hclaim := hp.claim hk0 hno
  refine ⟨hsio, hclaim.symm ▸ ho.holds.turn hk ht, fun h hh => ?_, fun h y hy => ?_,
    fun h y hy => ?_⟩
  · rw [hp.next] at hh
    rw [hclaim, Function.update_of_ne (Nat.ne_of_gt (Nat.lt_of_lt_of_le (ho.unused_lt hk) hh))]
    exact ho.unused h hh
  · rw [hp.streams] at hy
    have hne : h ≠ k := by
      rintro rfl
      rw [hno] at hy
      cases hy
    rw [hp.dgrams, Function.update_of_ne hne]
    exact ho.stream h y hy
  · rw [hp.dgrams, Function.update_apply] at hy
    split at hy
    · next hh => exact hh ▸ hk0
    · exact ho.dgram h y hy

section Told

theorem ToldOf.elsewhere (ht : ToldOf s h) (helse : Elsewhere s t k) (hne : h ≠ k)
    (huser : userOf h t.trace = userOf h s.trace) (hmade : madeOf h t.trace = madeOf h s.trace)
    (hlived : ∀ type y, Lived h s.trace type y → Lived h t.trace type y) : ToldOf t h := by
  refine ⟨fun x hx => ?_, fun x hx => ?_, fun type hty => ?_⟩
  · rw [helse.streams h hne] at hx
    obtain ⟨h1, type, h2, h3⟩ := ht.stream x hx
    rw [huser, hmade, helse.seen h x hne hx]
    exact ⟨h1, type, h2, hlived type _ h3⟩
  · rw [helse.dgrams h hne] at hx
    rw [huser]
    exact ht.dgram x hx
  · rw [hmade] at hty
    exact (ht.made type hty).imp fun y hy => hlived type y hy

theorem Told.step (ht : Told s) (helse : Elsewhere s t k) (htrace : t.trace = s.trace ++ [e])
    (he : e.sock = k) (hk : k < t.next) (hnext : s.next ≤ t.next) (hsafe : SafeSock s.trace e)
    (hself : ToldOf t k) : Told t := by
  refine ⟨fun h => ?_, fun e' he' => ?_, ?_⟩
  · by_cases hh : h = k
    · exact hh ▸ hself
    · have hne : e.sock ≠ h := fun hsame => hh (hsame.symm.trans he)
      obtain ⟨-, -, huser, hmade⟩ := told_other (l := s.trace) hne
      refine (ht.each h).elsewhere helse hh ?_ ?_ fun type y hl => ?_
      · rw [htrace, huser]
      · rw [htrace, hmade]
      · rw [htrace]
        exact hl.other hne
  · rw [htrace] at he'
    rcases List.mem_append.mp he' with he' | he'
    · exact Nat.lt_of_lt_of_le (ht.used e' he') hnext
    · rw [List.mem_singleton.mp he', he]
      exact hk
  · rw [htrace]
    exact sockSafe_append ht.safe hsafe

theorem Told.quiet (ht : Told s) (helse : Elsewhere s t k) (htrace : t.trace = s.trace)
    (hnext : s.next ≤ t.next) (hself : ToldOf t k) : Told t := by
  refine ⟨fun h => ?_, fun e he => ?_, htrace ▸ ht.safe⟩
  · by_cases hh : h = k
    · exact hh ▸ hself
    · exact (ht.each h).elsewhere helse hh (by rw [htrace]) (by rw [htrace])
        fun type y hl => htrace.symm ▸ hl
  · rw [htrace] at he
    exact Nat.lt_of_lt_of_le (ht.used e he) hnext

end Told

end Sockets

end SimpleKit.Loop
