import SimpleKit.Io.Registration

set_option autoImplicit false

namespace SimpleKit.Loop
open Runs

variable {K : Type} {B : SioBackend K} {asked : K → Int → Asked}
  {batch : Option (List (SfdRef × SioEvents))} {s s' : Sio K} {r : SfdRef} {sfd : SioFd}

structure SioBackend.Works (B : SioBackend K) (asked : K → Int → Asked) : Prop where
  lawful : B.Lawful
  asks : B.Asks asked
  adds : ∀ k fd ok r k', asked k fd = .nothing → B.add k fd ok r = some k' →
    asked k' = Function.update (asked k) fd ⟨some r, false, false⟩
  closes : ∀ k fd, asked k fd = .nothing → asked (B.close k fd) = asked k

theorem epoll_works : epoll.Works epollAsked where
  lawful := epoll_lawful
  asks := epoll_asks
  adds k fd ok r k' _ hadd := by
    obtain ⟨-, he⟩ := Option.ite_none_right_eq_some.mp hadd
    obtain rfl := Option.some.inj he
    exact epollAsked_update k fd _
  closes k fd hnone := by
    change epollAsked ⟨Function.update k.interest fd none⟩ = _
    rw [epollAsked_update, Option.elim_none, ← hnone, Function.update_eq_self]

theorem select_works : select.Works selectAsked where
  lawful := select_lawful
  asks := select_asks
  adds k fd ok r k' hnone hadd := by
    obtain ⟨-, he⟩ := Option.ite_none_left_eq_some.mp hadd
    obtain rfl := Option.some.inj he
    have hread : k.rset fd = false := congrArg Asked.read hnone
    have hwrite : k.wset fd = false := congrArg Asked.write hnone
    refine selectAsked_update k fd ⟨some r, false, false⟩ rfl ?_ ?_
    · exact (Function.update_eq_self_iff.mpr hread.symm).symm
    · exact (Function.update_eq_self_iff.mpr hwrite.symm).symm
  closes _ _ _ := rfl

structure SioOk (B : SioBackend K) (asked : K → Int → Asked)
    (batch : Option (List (SfdRef × SioEvents))) (s : Sio K) : Prop where
  inv : SioInv B batch s
  registers : Registers asked s

theorem SioOk.watch (hB : B.Works asked) (h : SioOk B asked batch s) (hr : s.live r = some sfd)
    (event : SioEvent) (on : Bool) : ∃ s', sioWatch B s r event on = some s' ∧
      SioOk B asked batch s' ∧
      ∀ x, s'.live x = if x = r then some (sfd.watch event on) else s.live x := by
  obtain ⟨hsfd, hdel⟩ := live_iff.mp hr
  obtain ⟨s', hrun, hinv⟩ := h.inv.watch hB.lawful hsfd hdel event on
  have hfd : (sfd.watch event on).fd = sfd.fd := by cases event <;> rfl
  have hflags : (asked s.kernel sfd.fd).watch event on =
      ⟨some r, (sfd.watch event on).watchRead, (sfd.watch event on).watchWrite⟩ := by
    rw [h.registers.asked_eq hr]
    cases event <;> rfl
  have hasked := hB.asks.watch s.kernel r sfd event on (h.registers.asked_eq hr)
  have hs' : s' = { s.store r (sfd.watch event on) with
      kernel := B.watch s.kernel r (sfd.watch event on) event on }.note (.watch r event on) := by
    rw [sioWatch, hsfd] at hrun
    exact (Option.some.inj hrun).symm
  have hlive : ∀ x, s'.live x = if x = r then some (sfd.watch event on) else s.live x := by
    rw [hs']
    refine live_store rfl ?_
    cases event <;> exact hdel
  refine ⟨s', hrun, ⟨hinv, h.registers.store (r := r) (sfd.watch event on) (fun fd' hfd' => ?_)
    (fun r' hr' => ?_) hlive ?_⟩, hlive⟩
  · obtain ⟨sfd', hsfd', rfl⟩ := (h.registers.live fd' r).mp hfd'
    rw [hr, Option.some.injEq] at hsfd'
    rw [hfd, hsfd']
  · rw [hfd, h.registers.asked_eq hr] at hr'
    exact (Option.some.inj hr').symm
  · rw [hfd, ← hflags, hs']
    exact hasked

theorem SioOk.set (hB : B.Works asked) (h : SioOk B asked batch s) (hr : s.live r = some sfd)
    (callback arg : Nat) : ∃ s', sioSet s r callback arg = some s' ∧ SioOk B asked batch s' ∧
      ∀ x, s'.live x = if x = r then some { sfd with userCallback := callback, userArg := arg }
        else s.live x := by
  obtain ⟨hsfd, hdel⟩ := live_iff.mp hr
  obtain ⟨s', hrun, hinv⟩ := h.inv.set hB.lawful hsfd hdel callback arg
  have hs' : s' = (s.store r { sfd with userCallback := callback, userArg := arg }).note
      (.set r callback arg) := by
    rw [sioSet, hsfd] at hrun
    exact (Option.some.inj hrun).symm
  have hlive : ∀ x, s'.live x = if x = r then
      some { sfd with userCallback := callback, userArg := arg } else s.live x := by
    rw [hs']
    exact live_store rfl hdel
  refine ⟨s', hrun, ⟨hinv, h.registers.store (r := r)
    { sfd with userCallback := callback, userArg := arg } (fun fd' hfd' => ?_) (fun r' hr' => ?_)
    hlive ?_⟩, hlive⟩
  · obtain ⟨sfd', hsfd', rfl⟩ := (h.registers.live fd' r).mp hfd'
    rw [hr, Option.some.injEq] at hsfd'
    rw [hsfd']
  · rw [h.registers.asked_eq hr] at hr'
    exact (Option.some.inj hr').symm
  · rw [hs']
    exact (Function.update_eq_self_iff.mpr (h.registers.asked_eq hr).symm).symm

theorem SioOk.del (hB : B.Works asked) (h : SioOk B asked batch s) (hr : s.live r = some sfd) :
    ∃ s', sioDel B s r = some s' ∧ SioOk B asked batch s' ∧
      (∀ x, s'.live x = if x = r then none else s.live x) ∧
      asked s'.kernel = Function.update (asked s.kernel) sfd.fd .nothing := by
  obtain ⟨hsfd, hdel⟩ := live_iff.mp hr
  obtain ⟨s', hrun, hinv⟩ := h.inv.del hB.lawful hsfd hdel
  have hkeeps : s'.kernel = B.del s.kernel sfd.fd ∧
      ∀ x, s'.live x = if x = r then none else s.live x := by
    have hsio := hrun
    obtain ⟨sfd1, hsfd1, hsio⟩ := Option.bind_eq_some_iff.mp hsio
    obtain rfl := Option.some.inj (hsfd.symm.trans hsfd1)
    dsimp only at hsio
    split at hsio
    · obtain ⟨hk, -, -, hsfds⟩ := sioDefer_eq hsio
      refine ⟨hk, live_drop hsfds fun sfd' hsfd' => ?_⟩
      obtain rfl := Option.mem_some_iff.mp hsfd'
      rfl
    · obtain ⟨-, rfl⟩ := sioFree_eq hsio
      exact ⟨rfl, live_drop rfl fun _ hx => by cases hx⟩
  have hasked : asked s'.kernel = Function.update (asked s.kernel) sfd.fd .nothing := by
    rw [hkeeps.1, hB.asks.del]
  exact ⟨s', hrun, ⟨hinv, h.registers.drop hr hkeeps.2 hasked⟩, hkeeps.2, hasked⟩

theorem SioOk.add (hB : B.Works asked) (h : SioOk B asked batch s) {fd : Int}
    (hfree : ∀ r sfd, s.live r = some sfd → sfd.fd ≠ fd) (ok : Bool) (callback arg : Nat) :
    SioOk B asked batch (sioAdd B s fd ok callback arg) ∧ s.live s.next = none ∧
      (B.add s.kernel fd ok s.next = none ∧ sioAdd B s fd ok callback arg = s ∨
        (∃ k', B.add s.kernel fd ok s.next = some k') ∧
          ∀ x, (sioAdd B s fd ok callback arg).live x = if x = s.next then
            some ⟨fd, false, false, SioEvents.none, callback, arg, false⟩ else s.live x) := by
  have hnone : s.live s.next = none := by
    obtain ⟨t, hrel, -⟩ := h.inv
    rw [Sio.live, hrel.used s.next (Nat.le_refl _)]
    rfl
  obtain ⟨s1, hs1, hinv⟩ := h.inv.act hB.lawful (.add fd ok callback arg)
  obtain rfl := Option.some.inj hs1
  cases hadd : B.add s.kernel fd ok s.next with
  | none =>
    have hsame : sioAdd B s fd ok callback arg = s := by rw [sioAdd, hadd]
    exact ⟨hsame.symm ▸ h, hnone, Or.inl ⟨rfl, hsame⟩⟩
  | some k' =>
    have hrun : sioAdd B s fd ok callback arg = { s with
        kernel := k'
        sfds := Function.update s.sfds s.next
          (some ⟨fd, false, false, SioEvents.none, callback, arg, false⟩)
        next := s.next + 1 }.note (.add s.next fd callback arg) := by
      rw [sioAdd, hadd]
    have hidle : asked s.kernel fd = .nothing := by
      refine h.registers.idle fd (Option.eq_none_iff_forall_not_mem.mpr fun r hr => ?_)
      obtain ⟨sfd, hlive, hfd⟩ := (h.registers.live fd r).mp hr
      exact hfree r sfd hlive hfd
    have hlive : ∀ x, (sioAdd B s fd ok callback arg).live x = if x = s.next then
        some ⟨fd, false, false, SioEvents.none, callback, arg, false⟩ else s.live x := by
      rw [hrun]
      exact live_store rfl rfl
    refine ⟨⟨hinv, h.registers.store (r := s.next)
      ⟨fd, false, false, SioEvents.none, callback, arg, false⟩ (fun fd' hfd' => ?_)
      (fun r' hr' => ?_) hlive ?_⟩, hnone, Or.inr ⟨⟨k', rfl⟩, hlive⟩⟩
    · obtain ⟨sfd, hsfd, -⟩ := (h.registers.live fd' s.next).mp hfd'
      rw [hnone] at hsfd
      cases hsfd
    · rw [hidle] at hr'
      cases hr'
    · rw [hrun]
      exact hB.adds _ _ _ _ _ hidle hadd

theorem SioOk.close (hB : B.Works asked) (h : SioOk B asked batch s) {fd : Int}
    (hfree : ∀ r sfd, s.live r = some sfd → sfd.fd ≠ fd) :
    SioOk B asked batch { s with kernel := B.close s.kernel fd } := by
  have hidle : asked s.kernel fd = .nothing := by
    refine h.registers.idle fd (Option.eq_none_iff_forall_not_mem.mpr fun r hr => ?_)
    obtain ⟨sfd, hlive, hfd⟩ := (h.registers.live fd r).mp hr
    exact hfree r sfd hlive hfd
  obtain ⟨s1, hs1, hinv⟩ := h.inv.act hB.lawful (.close fd)
  obtain rfl := Option.some.inj hs1
  have hsame : asked (B.close s.kernel fd) = asked s.kernel := hB.closes _ _ hidle
  refine ⟨hinv, fun fd' r => ?_, fun r sfd hr => ?_, fun fd' hnone => ?_⟩
  · rw [hsame]
    exact h.registers.live fd' r
  · rw [hsame]
    exact h.registers.flags r sfd hr
  · rw [hsame] at hnone ⊢
    exact h.registers.idle fd' hnone

theorem Registers.same (h : Registers asked s) (hk : s'.kernel = s.kernel)
    (hlive : ∀ x, s'.live x = s.live x) : Registers asked s' := by
  refine ⟨fun fd r => ?_, fun r sfd hr => ?_, fun fd hnone => ?_⟩
  · rw [hk, hlive]
    exact h.live fd r
  · rw [hk]
    exact h.flags r sfd (hlive r ▸ hr)
  · rw [hk] at hnone ⊢
    exact h.idle fd hnone

theorem SioOk.called {batch : List (SfdRef × SioEvents)} (h : SioOk B asked (some batch) s)
    {x : SfdRef × SioEvents} (hx : x ∈ batch) (hr : s.live x.1 = some sfd) {event : SioEvent}
    (hhas : x.2.has event = true) (hwatch : ∀ reg ∈ sfd.reg, reg.watches event = true) :
    SioOk B asked (some batch)
      (s.note (.call x.1 event sfd.fd sfd.userCallback sfd.userArg)) := by
  obtain ⟨hsfd, hdel⟩ := live_iff.mp hr
  obtain ⟨t, hrel, hbatch, hquiet⟩ := h.inv
  have hmay : t.MayCall x.1 event sfd.fd sfd.userCallback sfd.userArg :=
    ⟨_, hrel.live_reg hsfd hdel, rfl, rfl, rfl, hwatch _ (reg_of_live hdel), batch, hbatch, x, hx,
      rfl, hhas⟩
  exact ⟨⟨t, { hrel with passes := hrel.passes.snoc (if_pos hmay) }, hbatch, hquiet⟩,
    h.registers.same rfl fun _ => rfl⟩

theorem SioOk.leave {batch : List (SfdRef × SioEvents)} (h : SioOk B asked (some batch) s) :
    ∃ s', sioLeave s = some s' ∧ SioOk B asked none s' ∧ ∀ x, s'.live x = s.live x := by
  obtain ⟨s', hs', h'⟩ := h.inv.leave
  obtain ⟨t, hrel, -⟩ := h.inv
  have hdel : ∀ r ∈ s.deferredToClose, s.live r = none := fun r hr => by
    obtain ⟨sfd, hsfd, hdel⟩ := hrel.isDel r hr
    refine Option.eq_none_iff_forall_not_mem.mpr fun sfd' hlive => ?_
    obtain ⟨hsfd', hdel'⟩ := live_iff.mp hlive
    rw [hsfd, Option.some.injEq] at hsfd'
    rw [hsfd', hdel'] at hdel
    cases hdel
  obtain ⟨hk, -, -, hlive⟩ := sioLeave_keeps hs' hdel
  exact ⟨s', hs', ⟨h', h.registers.same hk hlive⟩, hlive⟩

/-- poll records events in the sfds that are live, and the loop is entered if there are any. -/
theorem SioOk.poll (hB : B.Works asked) (h : SioOk B asked none s)
    (ready : List (Int × SioEvents)) : ∃ res, B.poll s.kernel ready s.sfds = some res ∧
      ∀ x ∈ res, SioOk B asked (some x.2) (sioEnter { s with sfds := x.1 } x.2) ∧
        ∀ r, ∃ events, (sioEnter { s with sfds := x.1 } x.2).live r =
          (s.live r).map fun sfd => { sfd with revents := events } := by
  obtain ⟨t, hrel, hnone, hquiet⟩ := h.inv
  obtain ⟨res, hpoll, hres⟩ := hB.lawful.poll s.kernel ready s.sfds hrel.refs
  refine ⟨res, hpoll, fun x hx => ?_⟩
  obtain ⟨hsame, hbatch⟩ := hres x hx
  have hinv : SioInv B none { s with sfds := x.1 } :=
    ⟨t, hrel.same hnone hsame, hnone, hquiet⟩
  have hlive : ∀ r, ∃ events, (sioEnter { s with sfds := x.1 } x.2).live r =
      (s.live r).map fun sfd => { sfd with revents := events } := by
    intro r
    obtain ⟨f, hf⟩ := hsame r
    refine ⟨((s.sfds r).map f).getD SioEvents.none, ?_⟩
    change (x.1 r).filter _ = _
    rw [hf, Sio.live]
    cases s.sfds r with
    | none => rfl
    | some sfd => cases hdel : sfd.isDel <;> simp [Option.filter, hdel]
  refine ⟨⟨hinv.enter hbatch, fun fd r => ?_, fun r sfd hr => ?_, h.registers.idle⟩, hlive⟩
  · obtain ⟨events, he⟩ := hlive r
    rw [he]
    refine (h.registers.live fd r).trans ?_
    cases s.live r <;> simp
  · obtain ⟨events, he⟩ := hlive r
    rw [he] at hr
    obtain ⟨sfd', hsfd', rfl⟩ := Option.map_eq_some_iff.mp hr
    exact h.registers.flags r sfd' hsfd'

end SimpleKit.Loop
