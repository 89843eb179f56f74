import SimpleKit.Io.LoopSpec
import SimpleKit.Lib.Run

set_option autoImplicit false

namespace SimpleKit.Loop
open Runs

def SioFd.reg (sfd : SioFd) : Option SioReg :=
  if sfd.isDel then none
  else some ⟨sfd.fd, sfd.watchRead, sfd.watchWrite, sfd.userCallback, sfd.userArg⟩

def RefsLive (refs : Int → Option SfdRef) (sfds : SfdRef → Option SioFd) : Prop :=
  ∀ fd r, refs fd = some r → ∃ sfd, sfds r = some sfd ∧ sfd.fd = fd ∧ sfd.isDel = false

def SameFds (sfds sfds' : SfdRef → Option SioFd) : Prop :=
  ∀ r, ∃ f : SioFd → SioEvents, sfds' r = (sfds r).map fun sfd => { sfd with revents := f sfd }

/-- What the loop takes from a backend: which references a step leaves in the kernel, and that
poll tells of sfds that the kernel refers to. -/
structure SioBackend.Lawful {K : Type} (B : SioBackend K) : Prop where
  new : ∀ fd, B.refs B.new fd = none
  add : ∀ k fd ok r k', B.add k fd ok r = some k' → ∀ fd' r', B.refs k' fd' = some r' →
    B.refs k fd' = some r' ∨ fd' = fd ∧ r' = r
  del : ∀ k fd fd' r', B.refs (B.del k fd) fd' = some r' → fd' ≠ fd ∧ B.refs k fd' = some r'
  watch : ∀ k r sfd event on fd' r', B.refs (B.watch k r sfd event on) fd' = some r' →
    B.refs k fd' = some r' ∨ fd' = sfd.fd ∧ r' = r
  close : ∀ k fd fd' r', B.refs (B.close k fd) fd' = some r' → B.refs k fd' = some r'
  events : ∀ events sfd sfd', sfd.revents = sfd'.revents →
    B.events events sfd = B.events events sfd'
  poll : ∀ k ready sfds, RefsLive (B.refs k) sfds → ∃ res, B.poll k ready sfds = some res ∧
    ∀ x ∈ res, SameFds sfds x.1 ∧ ∀ y ∈ x.2,
      ∃ fd sfd, B.refs k fd = some y.1 ∧ x.1 y.1 = some sfd ∧ B.events y.2 sfd = y.2

section Backends

theorem SameFds.refl (sfds : SfdRef → Option SioFd) : SameFds sfds sfds :=
  fun r => ⟨SioFd.revents, by cases sfds r <;> rfl⟩

theorem SameFds.trans {sfds1 sfds2 sfds3 : SfdRef → Option SioFd} (h : SameFds sfds1 sfds2)
    (h' : SameFds sfds2 sfds3) : SameFds sfds1 sfds3 := by
  intro r
  obtain ⟨f, hf⟩ := h r
  obtain ⟨g, hg⟩ := h' r
  refine ⟨fun sfd => g { sfd with revents := f sfd }, ?_⟩
  rw [hg, hf]
  cases sfds1 r <;> rfl

theorem SameFds.update {sfds : SfdRef → Option SioFd} {r : SfdRef} {sfd : SioFd}
    (h : sfds r = some sfd) (revents : SioEvents) :
    SameFds sfds (Function.update sfds r (some { sfd with revents := revents })) := by
  intro r'
  rw [Function.update_apply]
  split
  · next hr => exact ⟨fun _ => revents, by rw [hr, h]; rfl⟩
  · exact SameFds.refl sfds r'

theorem RefsLive.same {refs : Int → Option SfdRef} {sfds sfds' : SfdRef → Option SioFd}
    (h : RefsLive refs sfds) (hsame : SameFds sfds sfds') : RefsLive refs sfds' := by
  intro fd r hr
  obtain ⟨sfd, hsfd, hfd, hdel⟩ := h fd r hr
  obtain ⟨f, hf⟩ := hsame r
  exact ⟨{ sfd with revents := f sfd }, by rw [hf, hsfd]; rfl, hfd, hdel⟩

theorem epollRemove_refs {k : Epoll} {fd fd' : Int} {r : SfdRef}
    (h : epoll.refs (epollRemove k fd) fd' = some r) : fd' ≠ fd ∧ epoll.refs k fd' = some r := by
  change (Function.update k.interest fd none fd').map _ = _ at h
  rw [Function.update_apply] at h
  split at h
  · cases h
  · next hfd => exact ⟨hfd, h⟩

theorem epoll_lawful : epoll.Lawful where
  new _ := rfl
  add k fd ok r k' h fd' r' hr' := by
    obtain ⟨-, he⟩ := Option.ite_none_right_eq_some.mp h
    obtain rfl := Option.some.inj he
    change (Function.update k.interest fd _ fd').map _ = _ at hr'
    rw [Function.update_apply] at hr'
    split at hr'
    · next hfd => exact Or.inr ⟨hfd, (Option.some.inj hr').symm⟩
    · exact Or.inl hr'
  del _ _ _ _ h := epollRemove_refs h
  watch k r sfd event on fd' r' h := by
    change (Function.update k.interest sfd.fd _ fd').map _ = _ at h
    rw [Function.update_apply] at h
    split at h
    · next hfd =>
      refine Or.inr ⟨hfd, ?_⟩
      cases hint : k.interest sfd.fd with
      | none => rw [hint] at h; cases h
      | some event => rw [hint] at h; exact (Option.some.inj h).symm
    · exact Or.inl h
  close _ _ _ _ h := (epollRemove_refs h).2
  events _ _ _ _ := rfl
  poll k ready sfds h := by
    refine ⟨_, rfl, fun x hx => ?_⟩
    split at hx
    · cases hx
    · obtain rfl := Option.mem_some_iff.mp hx
      refine ⟨SameFds.refl sfds, fun y hy => ?_⟩
      obtain ⟨z, -, hz⟩ := List.mem_filterMap.mp (List.mem_of_mem_take hy)
      obtain ⟨event, hevent, rfl⟩ := Option.map_eq_some_iff.mp hz
      have href : epoll.refs k z.1 = some event.ptr := congrArg (Option.map EpollEvent.ptr) hevent
      obtain ⟨sfd, hsfd, -, -⟩ := h z.1 event.ptr href
      exact ⟨z.1, sfd, href, hsfd, rfl⟩

/-- A descriptor is one sfd's, so none is recorded twice. -/
theorem selectRecord_spec {k : Select} (ready : List (Int × SioEvents)) {fds : List Int}
    (hnodup : fds.Nodup) {sfds : SfdRef → Option SioFd} (h : RefsLive k.fds sfds) :
    ∃ x, selectRecord k ready fds sfds = some x ∧ SameFds sfds x.1 ∧
      (∀ r, (∀ fd ∈ fds, k.fds fd ≠ some r) → x.1 r = sfds r) ∧
      ∀ y ∈ x.2, ∃ fd sfd, k.fds fd = some y.1 ∧ x.1 y.1 = some sfd ∧ sfd.revents = y.2 := by
  induction fds generalizing sfds with
  | nil => exact ⟨_, rfl, SameFds.refl sfds, fun _ _ => rfl, fun _ hy => absurd hy List.not_mem_nil⟩
  | cons fd fds ih =>
    rw [List.nodup_cons] at hnodup
    cases hfd : k.fds fd with
    | none =>
      obtain ⟨x, hx, hsame, hother, hrecord⟩ := ih hnodup.2 h
      refine ⟨x, ?_, hsame, fun r hr => hother r (List.forall_mem_cons.mp hr).2, hrecord⟩
      rw [selectRecord, hfd]
      exact hx
    | some r =>
      obtain ⟨sfd, hsfd, hfd', -⟩ := h fd r hfd
      have hupdate := SameFds.update hsfd (selectReady k ready fd)
      obtain ⟨x, hx, hsame, hother, hrecord⟩ := ih hnodup.2 (h.same hupdate)
      have hlater : ∀ fd' ∈ fds, k.fds fd' ≠ some r := by
        intro fd' hmem hr
        obtain ⟨sfd', hsfd', hfd'', -⟩ := h fd' r hr
        rw [hsfd, Option.some.injEq] at hsfd'
        subst hsfd'
        exact hnodup.1 (hfd'.symm.trans hfd'' ▸ hmem)
      have hself : x.1 r = some { sfd with revents := selectReady k ready fd } := by
        rw [hother r hlater, Function.update_self]
      refine ⟨(x.1, if selectReady k ready fd = SioEvents.none then x.2
        else (r, selectReady k ready fd) :: x.2), ?_, hupdate.trans hsame, fun r' hr' => ?_,
        fun y hy => ?_⟩
      · rw [selectRecord, hfd]
        dsimp only
        rw [hsfd, Option.bind_eq_bind, Option.bind_some, Option.bind_eq_bind, hx]
        rfl
      · rw [List.forall_mem_cons, hfd] at hr'
        exact (hother r' hr'.2).trans
          (Function.update_of_ne (fun he : r' = r => hr'.1 (he ▸ rfl)) ..)
      · dsimp only at hy
        split at hy
        · exact hrecord y hy
        · rcases List.mem_cons.mp hy with rfl | hy
          · exact ⟨fd, _, hfd, hself, rfl⟩
          · exact hrecord y hy

theorem select_lawful : select.Lawful where
  new _ := rfl
  add k fd ok r k' h fd' r' hr' := by
    obtain ⟨-, he⟩ := Option.ite_none_left_eq_some.mp h
    obtain rfl := Option.some.inj he
    change Function.update k.fds fd (some r) fd' = _ at hr'
    rw [Function.update_apply] at hr'
    split at hr'
    · next hfd => exact Or.inr ⟨hfd, (Option.some.inj hr').symm⟩
    · exact Or.inl hr'
  del k fd fd' r' h := by
    change Function.update k.fds fd none fd' = _ at h
    rw [Function.update_apply] at h
    split at h
    · cases h
    · next hfd => exact ⟨hfd, h⟩
  watch k r sfd event on fd' r' h := by
    cases event <;> exact Or.inl h
  close _ _ _ _ h := h
  events _ _ _ h := h
  poll k ready sfds h := by
    have hnodup : selectFds.Nodup :=
      (List.nodup_map_iff fun _ _ => Int.ofNat.inj).mpr List.nodup_range
    obtain ⟨x, hx, hsame, -, hrecord⟩ := selectRecord_spec ready hnodup h
    have hpoll : select.poll = selectPoll := by rw [select]
    rw [hpoll, selectPoll, hx]
    split
    · exact ⟨none, rfl, fun _ hx => by cases hx⟩
    · refine ⟨some x, rfl, fun y hy => ?_⟩
      obtain rfl := Option.mem_some_iff.mp hy
      exact ⟨hsame, hrecord⟩

end Backends

section Relation
variable {K : Type} {B : SioBackend K}

/-- The manager and what the monitor knows; `gone` is what is deleted and not freed. -/
structure SioRel (B : SioBackend K) (s : Sio K) (t : SioSpec) (gone : List SfdRef) : Prop where
  passes : t.Passes s.trace
  live : ∀ r, t.live r = (s.sfds r).bind SioFd.reg
  dead : t.dead = gone
  isDel : ∀ r ∈ gone, ∃ sfd, s.sfds r = some sfd ∧ sfd.isDel = true
  nodup : gone.Nodup
  next : t.next = s.next
  used : ∀ r, s.next ≤ r → s.sfds r = none
  refs : RefsLive (B.refs s.kernel) s.sfds
  batch : ∀ batch ∈ t.batch, ∀ x ∈ batch, ∃ sfd, s.sfds x.1 = some sfd ∧ B.events x.2 sfd = x.2
  loop : s.isInLoop = t.batch.isSome
  capacity : s.deferredToClose.length ≤ s.deferredCapacity

/-- The manager when a program has control, in a loop over `batch` or in none. -/
def SioInv (B : SioBackend K) (batch : Option (List (SfdRef × SioEvents))) (s : Sio K) : Prop :=
  ∃ t, SioRel B s t s.deferredToClose ∧ t.batch = batch ∧ (batch = none → s.deferredToClose = [])

variable {s : Sio K} {t : SioSpec} {gone : List SfdRef} {r : SfdRef} {sfd : SioFd}

theorem reg_of_live (h : sfd.isDel = false) :
    sfd.reg = some ⟨sfd.fd, sfd.watchRead, sfd.watchWrite, sfd.userCallback, sfd.userArg⟩ := by
  rw [SioFd.reg, h]
  rfl

theorem RefsLive.store {refs refs' : Int → Option SfdRef} {sfds : SfdRef → Option SioFd}
    (h : RefsLive refs sfds) {sfd' : SioFd} (hdel : sfd'.isDel = false)
    (hsfd : sfds r = some sfd) (hfd : sfd'.fd = sfd.fd)
    (hrefs : ∀ fd r', refs' fd = some r' → refs fd = some r' ∨ fd = sfd.fd ∧ r' = r) :
    RefsLive refs' (Function.update sfds r (some sfd')) := by
  intro fd r' hr'
  rw [Function.update_apply]
  rcases hrefs fd r' hr' with hold | ⟨rfl, rfl⟩
  · obtain ⟨sfd1, hsfd1, hfd1, hdel1⟩ := h fd r' hold
    split
    · next hr =>
      rw [hr, hsfd, Option.some.injEq] at hsfd1
      exact ⟨sfd', rfl, by rw [hfd, hsfd1, hfd1], hdel⟩
    · exact ⟨sfd1, hsfd1, hfd1, hdel1⟩
  · exact ⟨sfd', if_pos rfl, hfd, hdel⟩

theorem SioRel.store (h : SioRel B s t gone) (hsfd : s.sfds r = some sfd)
    (hdel : sfd.isDel = false) (sfd' : SioFd) (hdel' : sfd'.isDel = false)
    (hfd : sfd'.fd = sfd.fd) (hevents : ∀ events, B.events events sfd' = B.events events sfd)
    {f : SioReg → SioReg} (hreg : sfd.reg.map f = sfd'.reg) {e : SioTrace}
    (he : t.step e = t.update r f) {kernel : K}
    (hrefs : ∀ fd r', B.refs kernel fd = some r' →
      B.refs s.kernel fd = some r' ∨ fd = sfd.fd ∧ r' = r) :
    ∃ t', SioRel B ({ s.store r sfd' with kernel := kernel }.note e) t' gone ∧
      t'.batch = t.batch := by
  obtain ⟨reg, hregs⟩ : ∃ reg, sfd.reg = some reg := ⟨_, reg_of_live hdel⟩
  have hlive : t.live r = some reg := by rw [h.live, hsfd]; exact hregs
  rw [hregs, Option.map_some] at hreg
  have hstep : t.step e = some { t with live := Function.update t.live r (some (f reg)) } := by
    rw [he, SioSpec.update, hlive]
    rfl
  refine ⟨_, ⟨h.passes.snoc hstep, fun r' => ?_, h.dead, fun r' hr' => ?_, h.nodup, h.next,
    fun r' hr' => ?_, h.refs.store hdel' hsfd hfd hrefs, fun b hb x hx => ?_, h.loop,
    h.capacity⟩, rfl⟩
  · change Function.update t.live r _ r' = (Function.update s.sfds r _ r').bind _
    rw [Function.update_apply, Function.update_apply]
    split
    · exact hreg
    · exact h.live r'
  · obtain ⟨sfd1, hsfd1, hdel1⟩ := h.isDel r' hr'
    have hne : r' ≠ r := by
      rintro rfl
      rw [hsfd, Option.some.injEq] at hsfd1
      rw [hsfd1, hdel1] at hdel
      cases hdel
    exact ⟨sfd1, (Function.update_of_ne hne ..).trans hsfd1, hdel1⟩
  · have hne : r' ≠ r := by
      rintro rfl
      rw [h.used r' hr'] at hsfd
      cases hsfd
    exact (Function.update_of_ne hne ..).trans (h.used r' hr')
  · obtain ⟨sfd1, hsfd1, hev⟩ := h.batch b hb x hx
    change ∃ sfd2, Function.update s.sfds r _ x.1 = _ ∧ _
    rw [Function.update_apply]
    split
    · next hxr =>
      rw [hxr, hsfd, Option.some.injEq] at hsfd1
      exact ⟨sfd', rfl, by rw [hevents, hsfd1, hev]⟩
    · exact ⟨sfd1, hsfd1, hev⟩

theorem SioRel.lt_next (h : SioRel B s t gone) (hsfd : s.sfds r = some sfd) : r < s.next := by
  by_contra hr
  rw [h.used r (Nat.le_of_not_lt hr)] at hsfd
  cases hsfd

theorem SioRel.not_mem (h : SioRel B s t gone) (hsfd : s.sfds r = some sfd)
    (hdel : sfd.isDel = false) : r ∉ gone := by
  intro hr
  obtain ⟨sfd', hsfd', hdel'⟩ := h.isDel r hr
  rw [hsfd, Option.some.injEq] at hsfd'
  rw [hsfd', hdel'] at hdel
  cases hdel

theorem SioRel.live_reg (h : SioRel B s t gone) (hsfd : s.sfds r = some sfd)
    (hdel : sfd.isDel = false) : t.live r =
      some ⟨sfd.fd, sfd.watchRead, sfd.watchWrite, sfd.userCallback, sfd.userArg⟩ := by
  rw [h.live, hsfd]
  exact reg_of_live hdel

theorem SioRel.unregister (hB : B.Lawful) (h : SioRel B s t gone) (hsfd : s.sfds r = some sfd)
    (hdel : sfd.isDel = false) (sfd' : Option SioFd) (hreg : sfd'.bind SioFd.reg = none)
    (hdead : ∀ x ∈ sfd', x.isDel = true ∧ x.revents = sfd.revents) :
    let sfds := Function.update s.sfds r sfd'
    (∀ r', Function.update t.live r none r' = (sfds r').bind SioFd.reg) ∧
      (∀ r', s.next ≤ r' → sfds r' = none) ∧
      RefsLive (B.refs (B.del s.kernel sfd.fd)) sfds ∧
      (∀ r' ∈ gone, ∃ x, sfds r' = some x ∧ x.isDel = true) ∧
      (sfd'.isSome → ∀ batch ∈ t.batch, ∀ x ∈ batch,
        ∃ y, sfds x.1 = some y ∧ B.events x.2 y = x.2) := by
  refine ⟨fun r' => ?_, fun r' hr' => ?_, fun fd r' href => ?_, fun r' hr' => ?_,
    fun hsome batch hbatch x hx => ?_⟩
  · rw [Function.update_apply, Function.update_apply]
    split
    · exact hreg.symm
    · exact h.live r'
  · rw [Function.update_of_ne (Nat.ne_of_gt (Nat.lt_of_lt_of_le (h.lt_next hsfd) hr'))]
    exact h.used r' hr'
  · obtain ⟨hne, hold⟩ := hB.del _ _ _ _ href
    obtain ⟨sfd1, hsfd1, hfd1, hdel1⟩ := h.refs fd r' hold
    have hr : r' ≠ r := by
      rintro rfl
      rw [hsfd, Option.some.injEq] at hsfd1
      exact hne (hfd1.symm.trans (congrArg SioFd.fd hsfd1.symm))
    exact ⟨sfd1, (Function.update_of_ne hr ..).trans hsfd1, hfd1, hdel1⟩
  · have hr : r' ≠ r := fun he => h.not_mem hsfd hdel (he ▸ hr')
    rw [Function.update_of_ne hr]
    exact h.isDel r' hr'
  · obtain ⟨y, hy, hev⟩ := h.batch batch hbatch x hx
    obtain ⟨z, rfl⟩ := Option.isSome_iff_exists.mp hsome
    rw [Function.update_apply]
    split
    · next hxr =>
      rw [hxr, hsfd, Option.some.injEq] at hy
      exact ⟨z, rfl, by rw [hB.events x.2 z sfd (hdead z rfl).2, hy, hev]⟩
    · exact ⟨y, hy, hev⟩

theorem SioRel.delInLoop (hB : B.Lawful) (h : SioRel B s t s.deferredToClose)
    (hsfd : s.sfds r = some sfd) (hdel : sfd.isDel = false) (hloop : s.isInLoop = true) :
    ∃ s' t', sioDel B s r = some s' ∧ SioRel B s' t' s'.deferredToClose ∧ t'.batch = t.batch := by
  obtain ⟨hlive, hused, hrefs, hisDel, hbatch⟩ := h.unregister hB hsfd hdel
    (some { sfd with isDel := true }) rfl
    (fun x hx => by obtain rfl := Option.mem_some_iff.mp hx; exact ⟨rfl, rfl⟩)
  have hstep : t.step (.del r) = some { t with
      live := Function.update t.live r none, dead := t.dead ++ [r] } := by
    rw [SioSpec.step, h.live_reg hsfd hdel]
    rfl
  have hcap : s.deferredToClose.length <
      if s.deferredToClose.length = s.deferredCapacity then s.deferredCapacity + 1
      else s.deferredCapacity := by
    have hle := h.capacity
    split <;> omega
  have hresult : sioDel B s r = some
      { ({ s with kernel := B.del s.kernel sfd.fd }.note (.del r)).store r
          { sfd with isDel := true } with
        deferredToClose := s.deferredToClose ++ [r]
        deferredCapacity := if s.deferredToClose.length = s.deferredCapacity
          then s.deferredCapacity + 1 else s.deferredCapacity } := by
    rw [sioDel, hsfd]
    exact (if_pos hloop).trans (if_pos hcap)
  refine ⟨_, _, hresult, ⟨h.passes.snoc hstep, hlive, ?_, fun r' hr' => ?_, ?_, h.next, hused,
    hrefs, hbatch rfl, h.loop, ?_⟩, rfl⟩
  · exact congrArg (fun l => l ++ [r]) h.dead
  · rcases List.mem_append.mp hr' with hr' | hr'
    · exact hisDel r' hr'
    · obtain rfl := List.mem_singleton.mp hr'
      exact ⟨_, Function.update_self .., rfl⟩
  · refine List.nodup_append.mpr ⟨h.nodup, List.nodup_cons.mpr ⟨List.not_mem_nil, List.nodup_nil⟩,
      fun a ha b hb => ?_⟩
    rw [List.mem_singleton.mp hb]
    exact ne_of_mem_of_not_mem ha (h.not_mem hsfd hdel)
  · change (s.deferredToClose ++ [r]).length ≤ _
    rw [List.length_append, List.length_singleton]
    exact hcap

theorem SioRel.delOutside (hB : B.Lawful) (h : SioRel B s t [])
    (hsfd : s.sfds r = some sfd) (hdel : sfd.isDel = false) (hbatch : t.batch = none) :
    ∃ s' t', sioDel B s r = some s' ∧ SioRel B s' t' [] ∧ t'.batch = none ∧
      s'.deferredToClose = s.deferredToClose := by
  obtain ⟨hlive, hused, hrefs, -, -⟩ := h.unregister hB hsfd hdel none rfl
    (fun x hx => by cases hx)
  have hstep : t.step (.del r) = some { t with
      live := Function.update t.live r none, dead := t.dead ++ [r] } := by
    rw [SioSpec.step, h.live_reg hsfd hdel]
    rfl
  have hfree : SioSpec.step { t with
      live := Function.update t.live r none, dead := t.dead ++ [r] } (.free r) =
      some { t with live := Function.update t.live r none, dead := [] } := by
    rw [SioSpec.step, h.dead]
    exact if_pos ⟨hbatch, rfl⟩
  have hloop : s.isInLoop = false := by rw [h.loop, hbatch]; rfl
  have hresult : sioDel B s r = some
      ({ ({ s with kernel := B.del s.kernel sfd.fd }.note (.del r)) with
        sfds := Function.update s.sfds r none }.note (.free r)) := by
    rw [sioDel, hsfd]
    refine (if_neg (by simp [Sio.note, hloop])).trans ?_
    rw [sioFree]
    change (s.sfds r).bind _ = _
    rw [hsfd]
    rfl
  refine ⟨_, _, hresult, ⟨(h.passes.snoc hstep).snoc hfree, hlive, rfl,
    fun _ hr' => absurd hr' List.not_mem_nil, List.nodup_nil, h.next, hused, hrefs,
    fun b hb => ?_, h.loop, h.capacity⟩, hbatch, rfl⟩
  rw [Option.mem_def] at hb
  dsimp only at hb
  rw [hbatch] at hb
  cases hb

theorem SioRel.add (hB : B.Lawful) (h : SioRel B s t gone) (fd : Int) (ok : Bool)
    (callback arg : Nat) :
    ∃ t', SioRel B (sioAdd B s fd ok callback arg) t' gone ∧ t'.batch = t.batch := by
  rw [sioAdd]
  cases hadd : B.add s.kernel fd ok s.next with
  | none => exact ⟨t, h, rfl⟩
  | some kernel =>
    have hnew : s.sfds s.next = none := h.used s.next (Nat.le_refl _)
    have hstep : t.step (.add s.next fd callback arg) = some { t with
        live := Function.update t.live s.next (some ⟨fd, false, false, callback, arg⟩)
        next := t.next + 1 } := by
      rw [SioSpec.step, h.next]
      exact if_pos rfl
    have hold : ∀ {r' sfd}, s.sfds r' = some sfd → ∀ v,
        Function.update s.sfds s.next v r' = some sfd := by
      intro r' sfd hr' v
      rw [Function.update_of_ne (Nat.ne_of_lt (h.lt_next hr'))]
      exact hr'
    refine ⟨_, ⟨h.passes.snoc hstep, fun r' => ?_, h.dead, fun r' hr' => ?_, h.nodup,
      congrArg (· + 1) h.next, fun r' hr' => ?_, fun fd' r' href => ?_, fun b hb x hx => ?_,
      h.loop, h.capacity⟩, rfl⟩
    · change Function.update t.live s.next _ r' = (Function.update s.sfds s.next _ r').bind _
      rw [Function.update_apply, Function.update_apply]
      split
      · rfl
      · exact h.live r'
    · obtain ⟨sfd, hsfd, hdel⟩ := h.isDel r' hr'
      exact ⟨sfd, hold hsfd _, hdel⟩
    · have hne : r' ≠ s.next := Nat.ne_of_gt hr'
      exact (Function.update_of_ne hne ..).trans (h.used r' (Nat.le_of_succ_le hr'))
    · rcases hB.add _ _ _ _ _ hadd fd' r' href with href | ⟨rfl, rfl⟩
      · obtain ⟨sfd, hsfd, hfd, hdel⟩ := h.refs fd' r' href
        exact ⟨sfd, hold hsfd _, hfd, hdel⟩
      · exact ⟨_, Function.update_self .., rfl, rfl⟩
    · obtain ⟨sfd, hsfd, hev⟩ := h.batch b hb x hx
      exact ⟨sfd, hold hsfd _, hev⟩

theorem SioRel.set (hB : B.Lawful) (h : SioRel B s t gone) (hsfd : s.sfds r = some sfd)
    (hdel : sfd.isDel = false) (callback arg : Nat) :
    ∃ s' t', sioSet s r callback arg = some s' ∧ SioRel B s' t' gone ∧ t'.batch = t.batch ∧
      s'.deferredToClose = s.deferredToClose := by
  obtain ⟨t', hrel, hbatch⟩ := h.store hsfd hdel
    { sfd with userCallback := callback, userArg := arg } hdel rfl
    (fun events => hB.events events _ _ rfl)
    (f := fun reg => { reg with userCallback := callback, userArg := arg })
    (by rw [reg_of_live hdel, SioFd.reg, hdel]; rfl) (e := .set r callback arg) rfl
    (fun _ _ href => Or.inl href)
  refine ⟨_, t', ?_, hrel, hbatch, rfl⟩
  rw [sioSet, hsfd]
  rfl

theorem SioRel.watch (hB : B.Lawful) (h : SioRel B s t gone) (hsfd : s.sfds r = some sfd)
    (hdel : sfd.isDel = false) (event : SioEvent) (on : Bool) :
    ∃ s' t', sioWatch B s r event on = some s' ∧ SioRel B s' t' gone ∧ t'.batch = t.batch ∧
      s'.deferredToClose = s.deferredToClose := by
  have hsame : (sfd.watch event on).isDel = false ∧ (sfd.watch event on).fd = sfd.fd ∧
      (sfd.watch event on).revents = sfd.revents := by cases event <;> exact ⟨hdel, rfl, rfl⟩
  obtain ⟨t', hrel, hbatch⟩ := h.store hsfd hdel (sfd.watch event on) hsame.1 hsame.2.1
    (fun events => hB.events events _ _ hsame.2.2) (f := fun reg => reg.watch event on)
    (by rw [reg_of_live hdel, reg_of_live hsame.1]; cases event <;> rfl)
    (e := .watch r event on) rfl
    (fun fd r' href => hsame.2.1 ▸ hB.watch s.kernel r (sfd.watch event on) event on fd r' href)
  refine ⟨_, t', ?_, hrel, hbatch, rfl⟩
  rw [sioWatch, hsfd]
  rfl

theorem SioRel.close (hB : B.Lawful) (h : SioRel B s t gone) (fd : Int) :
    SioRel B { s with kernel := B.close s.kernel fd } t gone :=
  { h with refs := fun fd' r' href => h.refs fd' r' (hB.close _ _ _ _ href) }

variable {batch : Option (List (SfdRef × SioEvents))}

theorem SioInv.of_rel {s' : Sio K} (h : ∃ t', SioRel B s' t' s.deferredToClose ∧ t'.batch = batch ∧
    s'.deferredToClose = s.deferredToClose) (hquiet : batch = none → s.deferredToClose = []) :
    SioInv B batch s' := by
  obtain ⟨t', hrel, hbatch, hsame⟩ := h
  exact ⟨t', hsame ▸ hrel, hbatch, fun hnone => hsame.trans (hquiet hnone)⟩

theorem SioInv.del (hB : B.Lawful) (h : SioInv B batch s) (hsfd : s.sfds r = some sfd)
    (hdel : sfd.isDel = false) : ∃ s', sioDel B s r = some s' ∧ SioInv B batch s' := by
  obtain ⟨t, hrel, hbatch, hquiet⟩ := h
  cases batch with
  | none =>
    have hempty := hquiet rfl
    rw [hempty] at hrel
    obtain ⟨s', t', hs', hrel', hbatch', hsame⟩ := hrel.delOutside hB hsfd hdel hbatch
    rw [hempty] at hsame
    exact ⟨s', hs', t', hsame ▸ hrel', hbatch', fun _ => hsame⟩
  | some b =>
    have hloop : s.isInLoop = true := by rw [hrel.loop, hbatch]; rfl
    obtain ⟨s', t', hs', hrel', hbatch'⟩ := hrel.delInLoop hB hsfd hdel hloop
    exact ⟨s', hs', t', hrel', hbatch'.trans hbatch, fun hnone => by cases hnone⟩

theorem registered_iff : s.registered r = true ↔
    ∃ sfd, s.sfds r = some sfd ∧ sfd.isDel = false := by
  rw [Sio.registered]
  cases s.sfds r <;> simp

theorem SioInv.set (hB : B.Lawful) (h : SioInv B batch s) (hsfd : s.sfds r = some sfd)
    (hdel : sfd.isDel = false) (callback arg : Nat) :
    ∃ s', sioSet s r callback arg = some s' ∧ SioInv B batch s' := by
  obtain ⟨t, hrel, hbatch, hquiet⟩ := h
  obtain ⟨s', t', hs', hrel', hbatch', hsame⟩ := hrel.set hB hsfd hdel callback arg
  exact ⟨s', hs', SioInv.of_rel ⟨t', hrel', hbatch'.trans hbatch, hsame⟩ hquiet⟩

theorem SioInv.watch (hB : B.Lawful) (h : SioInv B batch s) (hsfd : s.sfds r = some sfd)
    (hdel : sfd.isDel = false) (event : SioEvent) (on : Bool) :
    ∃ s', sioWatch B s r event on = some s' ∧ SioInv B batch s' := by
  obtain ⟨t, hrel, hbatch, hquiet⟩ := h
  obtain ⟨s', t', hs', hrel', hbatch', hsame⟩ := hrel.watch hB hsfd hdel event on
  exact ⟨s', hs', SioInv.of_rel ⟨t', hrel', hbatch'.trans hbatch, hsame⟩ hquiet⟩

theorem SioInv.ifRegistered (h : SioInv B batch s) (r : SfdRef) {f : Option (Sio K)}
    (hf : ∀ sfd, s.sfds r = some sfd → sfd.isDel = false →
      ∃ s', f = some s' ∧ SioInv B batch s') :
    ∃ s', (if s.registered r then f else some s) = some s' ∧ SioInv B batch s' := by
  by_cases hr : s.registered r = true
  · rw [if_pos hr]
    obtain ⟨sfd, hsfd, hdel⟩ := registered_iff.mp hr
    exact hf sfd hsfd hdel
  · rw [if_neg hr]
    exact ⟨s, rfl, h⟩

theorem SioInv.act (hB : B.Lawful) (h : SioInv B batch s) (a : SioAct) :
    ∃ s', sioAct B s a = some s' ∧ SioInv B batch s' := by
  cases a with
  | add fd ok callback arg =>
    obtain ⟨t, hrel, hbatch, hquiet⟩ := h
    obtain ⟨t', hrel', hbatch'⟩ := hrel.add hB fd ok callback arg
    have hsame : (sioAdd B s fd ok callback arg).deferredToClose = s.deferredToClose := by
      rw [sioAdd]
      split <;> rfl
    exact ⟨_, rfl, SioInv.of_rel ⟨t', hrel', hbatch'.trans hbatch, hsame⟩ hquiet⟩
  | set r callback arg =>
    exact h.ifRegistered r fun _ hsfd hdel => h.set hB hsfd hdel callback arg
  | del r => exact h.ifRegistered r fun _ hsfd hdel => h.del hB hsfd hdel
  | watchRead r => exact h.ifRegistered r fun _ hsfd hdel => h.watch hB hsfd hdel .read true
  | unwatchRead r => exact h.ifRegistered r fun _ hsfd hdel => h.watch hB hsfd hdel .read false
  | watchWrite r => exact h.ifRegistered r fun _ hsfd hdel => h.watch hB hsfd hdel .write true
  | unwatchWrite r => exact h.ifRegistered r fun _ hsfd hdel => h.watch hB hsfd hdel .write false
  | close fd =>
    obtain ⟨t, hrel, hbatch, hquiet⟩ := h
    exact ⟨_, rfl, t, hrel.close hB fd, hbatch, hquiet⟩

theorem SioInv.acts (hB : B.Lawful) (h : SioInv B batch s) (acts : List SioAct) :
    ∃ s', acts.foldlM (sioAct B) s = some s' ∧ SioInv B batch s' :=
  foldlM_invariant (SioInv B batch) (fun _ a hs (_ : True) => hs.act hB a) h
    (fun _ _ => trivial)

end Relation

section Rounds
variable {K : Type} {B : SioBackend K} {s : Sio K} {batch : List (SfdRef × SioEvents)}

theorem SioInv.callback (hB : B.Lawful) (h : SioInv B (some batch) s)
    {x : SfdRef × SioEvents} (hx : x ∈ batch) {sfd : SioFd} (hsfd : s.sfds x.1 = some sfd)
    (hdel : sfd.isDel = false) {event : SioEvent} (hhas : x.2.has event = true)
    (hwatch : ∀ reg ∈ sfd.reg, reg.watches event = true) :
    ∃ s', sioCallback B s x.1 event = some s' ∧ SioInv B (some batch) s' := by
  obtain ⟨t, hrel, hbatch, hquiet⟩ := h
  have hmay : t.MayCall x.1 event sfd.fd sfd.userCallback sfd.userArg :=
    ⟨_, hrel.live_reg hsfd hdel, rfl, rfl, rfl, hwatch _ (reg_of_live hdel), batch, hbatch, x, hx,
      rfl, hhas⟩
  have hcalled : SioInv B (some batch) ({ s with script := s.script.tail }.note
      (.call x.1 event sfd.fd sfd.userCallback sfd.userArg)) :=
    ⟨t, { hrel with passes := hrel.passes.snoc (if_pos hmay) }, hbatch, hquiet⟩
  obtain ⟨s', hs', hinv⟩ := hcalled.acts hB (s.script.headD [])
  refine ⟨s', ?_, hinv⟩
  rw [sioCallback, hsfd]
  exact hs'

theorem SioInv.allocated (h : SioInv B (some batch) s) {x : SfdRef × SioEvents} (hx : x ∈ batch) :
    ∃ sfd, s.sfds x.1 = some sfd ∧ B.events x.2 sfd = x.2 := by
  obtain ⟨t, hrel, hbatch, -⟩ := h
  exact hrel.batch batch hbatch x hx

theorem SioInv.callbackIf (hB : B.Lawful) (h : SioInv B (some batch) s)
    {x : SfdRef × SioEvents} (hx : x ∈ batch) {sfd : SioFd} (hsfd : s.sfds x.1 = some sfd)
    (event : SioEvent) {c : Bool} (hc : c = true → sfd.isDel = false ∧ x.2.has event = true ∧
      ∀ reg ∈ sfd.reg, reg.watches event = true) :
    ∃ s', sioCallbackIf B c s x.1 event = some s' ∧ SioInv B (some batch) s' := by
  cases c with
  | false => exact ⟨s, rfl, h⟩
  | true =>
    obtain ⟨hdel, hhas, hwatch⟩ := hc rfl
    exact h.callback hB hx hsfd hdel hhas hwatch

theorem SioInv.dispatch (hB : B.Lawful) (h : SioInv B (some batch) s)
    {x : SfdRef × SioEvents} (hx : x ∈ batch) :
    ∃ s', sioDispatch B s x = some s' ∧ SioInv B (some batch) s' := by
  obtain ⟨sfd, hsfd, hevents⟩ := h.allocated hx
  rw [sioDispatch, hsfd, Option.bind_eq_bind, Option.bind_some]
  by_cases hdel : sfd.isDel = true
  · rw [if_pos hdel]
    exact ⟨s, rfl, h⟩
  · rw [Bool.not_eq_true] at hdel
    rw [hdel, if_neg Bool.false_ne_true, hevents]
    obtain ⟨s1, hs1, h1⟩ := h.callbackIf hB hx hsfd .read
      (c := x.2.read && sfd.watchRead) fun hc => by
        rw [Bool.and_eq_true] at hc
        refine ⟨hdel, hc.1, fun reg hreg => ?_⟩
        rw [reg_of_live hdel] at hreg
        obtain rfl := Option.mem_some_iff.mp hreg
        exact hc.2
    obtain ⟨sfd1, hsfd1, -⟩ := h1.allocated hx
    obtain ⟨s2, hs2, h2⟩ := h1.callbackIf hB hx hsfd1 .write
      (c := !sfd1.isDel && x.2.write && sfd1.watchWrite) fun hc => by
        rw [Bool.and_eq_true, Bool.and_eq_true, Bool.not_eq_true'] at hc
        refine ⟨hc.1.1, hc.1.2, fun reg hreg => ?_⟩
        rw [reg_of_live hc.1.1] at hreg
        obtain rfl := Option.mem_some_iff.mp hreg
        exact hc.2
    obtain ⟨sfd2, hsfd2, -⟩ := h2.allocated hx
    obtain ⟨s3, hs3, h3⟩ := h2.callbackIf hB hx hsfd2 .error
      (c := !sfd2.isDel && x.2.error) fun hc => by
        rw [Bool.and_eq_true, Bool.not_eq_true'] at hc
        exact ⟨hc.1, hc.2, fun _ _ => rfl⟩
    refine ⟨s3, ?_, h3⟩
    exact Option.bind_eq_some_iff.mpr ⟨s1, hs1, Option.bind_eq_some_iff.mpr ⟨sfd1, hsfd1,
      Option.bind_eq_some_iff.mpr ⟨s2, hs2, Option.bind_eq_some_iff.mpr ⟨sfd2, hsfd2, hs3⟩⟩⟩⟩

theorem SioRel.frees {t : SioSpec} {gone : List SfdRef} (h : SioRel B s t gone)
    (hbatch : t.batch = none) : ∃ s' t', gone.foldlM sioFree s = some s' ∧ SioRel B s' t' [] ∧
      t'.batch = none := by
  induction gone generalizing s t with
  | nil => exact ⟨s, t, rfl, h, hbatch⟩
  | cons r gone ih =>
    obtain ⟨sfd, hsfd, hdel⟩ := h.isDel r List.mem_cons_self
    have hnodup := List.nodup_cons.mp h.nodup
    have hstep : t.step (.free r) = some { t with dead := gone } := by
      rw [SioSpec.step, h.dead]
      exact if_pos ⟨hbatch, rfl⟩
    have hfree : sioFree s r = some
        ({ s with sfds := Function.update s.sfds r none }.note (.free r)) := by
      rw [sioFree, hsfd]
      rfl
    have hrel : SioRel B ({ s with sfds := Function.update s.sfds r none }.note (.free r))
        { t with dead := gone } gone := by
      refine ⟨h.passes.snoc hstep, fun r' => ?_, rfl, fun r' hr' => ?_, hnodup.2, h.next,
        fun r' hr' => ?_, fun fd r' href => ?_, fun b hb => ?_, h.loop, h.capacity⟩
      · change t.live r' = (Function.update s.sfds r none r').bind _
        rw [Function.update_apply]
        split
        · next hr =>
          rw [hr, h.live, hsfd, Option.bind_some, SioFd.reg, if_pos hdel]
          rfl
        · exact h.live r'
      · obtain ⟨sfd', hsfd', hdel'⟩ := h.isDel r' (List.mem_cons_of_mem r hr')
        have hne : r' ≠ r := fun he => hnodup.1 (he ▸ hr')
        exact ⟨sfd', (Function.update_of_ne hne ..).trans hsfd', hdel'⟩
      · change Function.update s.sfds r none r' = none
        rw [Function.update_apply, h.used r' hr', ite_self]
      · obtain ⟨sfd', hsfd', hfd', hdel'⟩ := h.refs fd r' href
        have hne : r' ≠ r := by
          rintro rfl
          rw [hsfd, Option.some.injEq] at hsfd'
          rw [hsfd', hdel'] at hdel
          cases hdel
        exact ⟨sfd', (Function.update_of_ne hne ..).trans hsfd', hfd', hdel'⟩
      · rw [Option.mem_def] at hb
        dsimp only at hb
        rw [hbatch] at hb
        cases hb
    obtain ⟨s', t', hs', hrel', hbatch'⟩ := ih hrel hbatch
    refine ⟨s', t', ?_, hrel', hbatch'⟩
    rw [List.foldlM_cons, hfree]
    exact hs'

theorem SioInv.enter (h : SioInv B none s)
    (hbatch : ∀ x ∈ batch, ∃ fd sfd, B.refs s.kernel fd = some x.1 ∧ s.sfds x.1 = some sfd ∧
      B.events x.2 sfd = x.2) : SioInv B (some batch) (sioEnter s batch) := by
  obtain ⟨t, hrel, hnone, hquiet⟩ := h
  have hlive : ∀ x ∈ batch, (t.live x.1).isSome := by
    intro x hx
    obtain ⟨fd, sfd, href, hsfd, -⟩ := hbatch x hx
    obtain ⟨sfd', hsfd', -, hdel⟩ := hrel.refs fd x.1 href
    rw [hrel.live_reg hsfd' hdel]
    rfl
  have hwait : t.step (.wait batch) = some { t with batch := some batch } :=
    if_pos ⟨hnone, hrel.dead.trans (hquiet rfl), hlive⟩
  refine ⟨_, { hrel with passes := hrel.passes.snoc hwait, loop := rfl, batch := ?_ }, rfl,
    fun he => by cases he⟩
  intro b hb x hx
  obtain rfl := Option.mem_some_iff.mp hb
  obtain ⟨fd, sfd, -, hsfd, hev⟩ := hbatch x hx
  exact ⟨sfd, hsfd, hev⟩

theorem SioInv.leave (h : SioInv B (some batch) s) :
    ∃ s', sioLeave s = some s' ∧ SioInv B none s' := by
  obtain ⟨t, hrel, hbatch, -⟩ := h
  have hdone : t.step .done = some { t with batch := none } := by
    rw [SioSpec.step, hbatch]
    rfl
  have hrel2 : SioRel B ({ s with isInLoop := false }.note .done) { t with batch := none }
      s.deferredToClose :=
    { hrel with
      passes := hrel.passes.snoc hdone
      loop := rfl
      batch := fun _ hb => by cases hb }
  obtain ⟨s3, t3, hs3, hrel3, hbatch3⟩ := hrel2.frees rfl
  exact ⟨{ s3 with deferredToClose := [] }, Option.bind_eq_some_iff.mpr ⟨s3, hs3, rfl⟩, t3,
    { hrel3 with capacity := Nat.zero_le _ }, hbatch3, fun _ => rfl⟩

theorem SioInv.loop (hB : B.Lawful) (h : SioInv B none s)
    (hbatch : ∀ x ∈ batch, ∃ fd sfd, B.refs s.kernel fd = some x.1 ∧ s.sfds x.1 = some sfd ∧
      B.events x.2 sfd = x.2) :
    ∃ s', sioLoop B s batch = some s' ∧ SioInv B none s' := by
  obtain ⟨s1, hs1, h1⟩ := foldlM_invariant (SioInv B (some batch))
    (fun _ x hs (hx : x ∈ batch) => hs.dispatch hB hx) (h.enter hbatch) (fun _ hx => hx)
  obtain ⟨s', hs', h'⟩ := h1.leave
  exact ⟨s', by rw [sioLoop_eq, hs1]; exact hs', h'⟩

theorem SioRel.same {t : SioSpec} {gone : List SfdRef} (h : SioRel B s t gone)
    (hnone : t.batch = none) {sfds : SfdRef → Option SioFd} (hsame : SameFds s.sfds sfds) :
    SioRel B { s with sfds := sfds } t gone where
  passes := h.passes
  live r := by
    obtain ⟨f, hf⟩ := hsame r
    change _ = (sfds r).bind SioFd.reg
    rw [h.live, hf]
    cases s.sfds r <;> rfl
  dead := h.dead
  isDel r hr := by
    obtain ⟨sfd, hsfd, hdel⟩ := h.isDel r hr
    obtain ⟨f, hf⟩ := hsame r
    exact ⟨{ sfd with revents := f sfd }, hf.trans (by rw [hsfd]; rfl), hdel⟩
  nodup := h.nodup
  next := h.next
  used r hr := by
    obtain ⟨f, hf⟩ := hsame r
    exact hf.trans (by rw [h.used r hr]; rfl)
  refs := h.refs.same hsame
  batch b hb := by
    rw [hnone] at hb
    cases hb
  loop := h.loop
  capacity := h.capacity

theorem SioInv.run (hB : B.Lawful) (h : SioInv B none s) (timers : List SioAct)
    (ready : List (Int × SioEvents)) :
    ∃ s', sioRun B s timers ready = some s' ∧ SioInv B none s' := by
  obtain ⟨s1, hs1, h1⟩ := h.acts hB timers
  obtain ⟨t1, hrel1, hnone, hquiet⟩ := h1
  obtain ⟨res, hpoll, hres⟩ := hB.poll s1.kernel ready s1.sfds hrel1.refs
  cases res with
  | none =>
    refine ⟨s1, ?_, t1, hrel1, hnone, hquiet⟩
    exact Option.bind_eq_some_iff.mpr ⟨s1, hs1, Option.bind_eq_some_iff.mpr ⟨none, hpoll, rfl⟩⟩
  | some x =>
    obtain ⟨hsame, hbatch⟩ := hres x rfl
    have h2 : SioInv B none { s1 with sfds := x.1 } :=
      ⟨t1, hrel1.same hnone hsame, hnone, hquiet⟩
    obtain ⟨s', hs', h'⟩ := h2.loop hB hbatch
    refine ⟨s', ?_, h'⟩
    exact Option.bind_eq_some_iff.mpr ⟨s1, hs1, Option.bind_eq_some_iff.mpr ⟨some x, hpoll, hs'⟩⟩

theorem SioInv.step (hB : B.Lawful) (h : SioInv B none s) (op : SioOp) :
    ∃ s', sioStep B s op = some s' ∧ SioInv B none s' := by
  cases op with
  | act a => exact h.act hB a
  | run timers ready script =>
    obtain ⟨t, hrel, hnone, hquiet⟩ := h
    have hscript : SioInv B none { s with script := script } :=
      ⟨t, { hrel with passes := hrel.passes }, hnone, hquiet⟩
    exact hscript.run hB timers ready

theorem sioStart_inv (hB : B.Lawful) : SioInv B none (sioStart B) := by
  refine ⟨SioSpec.start, ⟨rfl, fun _ => rfl, rfl, fun _ hr => absurd hr List.not_mem_nil,
    List.nodup_nil, rfl, fun _ _ => rfl, fun fd r href => ?_, fun _ hb => (by cases hb), rfl,
    Nat.le_refl _⟩, rfl, fun _ => rfl⟩
  rw [sioStart, hB.new] at href
  cases href

end Rounds

end SimpleKit.Loop
