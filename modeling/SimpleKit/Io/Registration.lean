import SimpleKit.Io.LoopRefine

/-!
What the two backends ask the kernel for. Both are compared with a registry that has one sfd for a
descriptor at most, as the interest list of epoll does.
-/
set_option autoImplicit false

namespace SimpleKit.Loop
open Runs

structure Asked where
  ref : Option SfdRef
  read : Bool
  write : Bool
  deriving DecidableEq, Repr

def Asked.nothing : Asked := ⟨none, false, false⟩

def Asked.watch (a : Asked) : SioEvent → Bool → Asked
  | .read, on => { a with read := on }
  | .write, on => { a with write := on }
  | .error, _ => a

def epollAsked (k : Epoll) (fd : Int) : Asked :=
  match k.interest fd with
  | some event => ⟨some event.ptr, event.read, event.write⟩
  | none => .nothing

def selectAsked (k : Select) (fd : Int) : Asked := ⟨k.fds fd, k.rset fd, k.wset fd⟩

inductive RegCall where
  | act : SioAct → RegCall
  | enter : RegCall
  | leave : RegCall
  deriving DecidableEq, Repr

/-- Each descriptor has one sfd, or none. -/
structure Registry where
  asked : Int → Asked
  next : SfdRef
  inLoop : Bool

def Registry.start : Registry := ⟨fun _ => .nothing, 0, false⟩

def Registry.change (g : Registry) (r : SfdRef) (f : Asked → Asked) : Registry :=
  { g with asked := fun fd => if (g.asked fd).ref = some r then f (g.asked fd) else g.asked fd }

def Registry.step (g : Registry) : RegCall → Registry × Option SfdRef
  | .act (.add fd _ _ _) =>
    if (g.asked fd).ref = none then
      ({ g with
        asked := Function.update g.asked fd ⟨some g.next, false, false⟩
        next := g.next + 1 }, some g.next)
    else (g, none)
  | .act (.del r) => (g.change r fun _ => .nothing, none)
  | .act (.watchRead r) => (g.change r fun a => a.watch .read true, none)
  | .act (.unwatchRead r) => (g.change r fun a => a.watch .read false, none)
  | .act (.watchWrite r) => (g.change r fun a => a.watch .write true, none)
  | .act (.unwatchWrite r) => (g.change r fun a => a.watch .write false, none)
  | .act (.set _ _ _) | .act (.close _) => (g, none)
  | .enter => ({ g with inLoop := true }, none)
  | .leave => ({ g with inLoop := false }, none)

section Manager
variable {K : Type} (B : SioBackend K)

def sioAdded (s : Sio K) : SioAct → Option SfdRef
  | .add fd ok _ _ => (B.add s.kernel fd ok s.next).map fun _ => s.next
  | _ => none

def regStep (s : Sio K) : RegCall → Option (Sio K × Option SfdRef)
  | .act a => (sioAct B s a).map fun s' => (s', sioAdded B s a)
  | .enter => some (sioEnter s [], none)
  | .leave => (sioLeave s).map fun s' => (s', none)

end Manager

def Sio.live {K : Type} (s : Sio K) (r : SfdRef) : Option SioFd :=
  (s.sfds r).filter fun sfd => !sfd.isDel

/-- The registered descriptors have one live sfd each, and the kernel is asked for what these are
watched for. -/
structure Registers {K : Type} (asked : K → Int → Asked) (s : Sio K) : Prop where
  live : ∀ fd r, (asked s.kernel fd).ref = some r ↔ ∃ sfd, s.live r = some sfd ∧ sfd.fd = fd
  flags : ∀ r sfd, s.live r = some sfd → (asked s.kernel sfd.fd).read = sfd.watchRead ∧
    (asked s.kernel sfd.fd).write = sfd.watchWrite
  idle : ∀ fd, (asked s.kernel fd).ref = none → asked s.kernel fd = .nothing

structure SioBackend.Asks {K : Type} (B : SioBackend K) (asked : K → Int → Asked) : Prop where
  new : ∀ fd, asked B.new fd = .nothing
  add : ∀ k (fd : Int) r, 0 ≤ fd → fd < fdSetsize → asked k fd = .nothing →
    ∃ k', B.add k fd true r = some k' ∧
      asked k' = Function.update (asked k) fd ⟨some r, false, false⟩
  del : ∀ k fd, asked (B.del k fd) = Function.update (asked k) fd .nothing
  watch : ∀ k r (sfd : SioFd) event on, asked k sfd.fd = ⟨some r, sfd.watchRead, sfd.watchWrite⟩ →
    asked (B.watch k r (sfd.watch event on) event on) =
      Function.update (asked k) sfd.fd ((asked k sfd.fd).watch event on)

section Backends

theorem epollAsked_update (k : Epoll) (fd : Int) (event : Option EpollEvent) :
    epollAsked ⟨Function.update k.interest fd event⟩ = Function.update (epollAsked k) fd
      (event.elim .nothing fun event => ⟨some event.ptr, event.read, event.write⟩) := by
  funext fd'
  simp only [epollAsked, Function.update_apply]
  split_ifs
  · cases event <;> rfl
  · rfl

theorem epollAsked_nothing {k : Epoll} {fd : Int} :
    (epollAsked k fd).ref = none ↔ k.interest fd = none := by
  rw [epollAsked]
  cases k.interest fd with
  | none => exact iff_of_true rfl rfl
  | some event => exact iff_of_false nofun nofun

theorem epoll_asks : epoll.Asks epollAsked where
  new _ := rfl
  add k fd r _ _ hnone := by
    have hint : k.interest fd = none := epollAsked_nothing.mp (by rw [hnone]; rfl)
    exact ⟨_, if_pos ⟨rfl, hint⟩, epollAsked_update k fd _⟩
  del k fd := epollAsked_update k fd none
  watch k r sfd event on h := by
    obtain ⟨old, hold⟩ : ∃ old, k.interest sfd.fd = some old := by
      refine Option.ne_none_iff_exists'.mp fun hnone => ?_
      rw [← epollAsked_nothing, h] at hnone
      cases hnone
    have hfd : (sfd.watch event on).fd = sfd.fd := by cases event <;> rfl
    have hrun := epollAsked_update k sfd.fd
      (some ⟨r, (sfd.watch event on).watchRead, (sfd.watch event on).watchWrite⟩)
    change epollAsked (epollWatchEvents k r (sfd.watch event on)) = _
    rw [epollWatchEvents, hfd, hold, h]
    refine hrun.trans (congrArg _ ?_)
    cases event <;> rfl

theorem selectAsked_update (k : Select) (fd : Int) (a : Asked) {k' : Select}
    (hfds : k'.fds = Function.update k.fds fd a.ref)
    (hread : k'.rset = Function.update k.rset fd a.read)
    (hwrite : k'.wset = Function.update k.wset fd a.write) :
    selectAsked k' = Function.update (selectAsked k) fd a := by
  funext fd'
  rw [selectAsked, hfds, hread, hwrite, Function.update_apply, Function.update_apply,
    Function.update_apply, Function.update_apply]
  split <;> rfl

theorem select_asks : select.Asks selectAsked where
  new _ := rfl
  add k fd r hlo hhi hnone := by
    have hread : k.rset fd = false := congrArg Asked.read hnone
    have hwrite : k.wset fd = false := congrArg Asked.write hnone
    refine ⟨_, if_neg (by omega), selectAsked_update k fd ⟨some r, false, false⟩ rfl ?_ ?_⟩
    · exact (Function.update_eq_self_iff.mpr hread.symm).symm
    · exact (Function.update_eq_self_iff.mpr hwrite.symm).symm
  del k fd := selectAsked_update k fd .nothing rfl rfl rfl
  watch k r sfd event on h := by
    have hfd : (sfd.watch event on).fd = sfd.fd := by cases event <;> rfl
    change selectAsked (selectWatch k (sfd.watch event on).fd event on) = _
    rw [hfd]
    cases event with
    | read =>
      refine selectAsked_update k sfd.fd _ ?_ rfl ?_
      · exact (Function.update_eq_self ..).symm
      · exact (Function.update_eq_self ..).symm
    | write =>
      refine selectAsked_update k sfd.fd _ ?_ ?_ rfl
      · exact (Function.update_eq_self ..).symm
      · exact (Function.update_eq_self ..).symm
    | error => exact (Function.update_eq_self ..).symm

end Backends

section Steps
variable {K : Type} {B : SioBackend K} {asked : K → Int → Asked} {s s' : Sio K} {g : Registry}
  {r : SfdRef} {sfd : SioFd}

structure Keeps (B : SioBackend K) (asked : K → Int → Asked) (s : Sio K) (g : Registry) : Prop where
  registers : Registers asked s
  asked : asked s.kernel = g.asked
  next : s.next = g.next
  loop : s.isInLoop = g.inLoop
  inv : ∃ batch, SioInv B batch s

theorem live_iff : s.live r = some sfd ↔ s.sfds r = some sfd ∧ sfd.isDel = false := by
  rw [Sio.live, Option.filter_eq_some_iff, Bool.not_eq_true']

theorem live_store (hs : s'.sfds = Function.update s.sfds r (some sfd)) (hdel : sfd.isDel = false)
    (x : SfdRef) : s'.live x = if x = r then some sfd else s.live x := by
  rw [Sio.live, hs, Function.update_apply]
  split
  · exact Option.filter_eq_some_iff.mpr ⟨rfl, by rw [hdel]; rfl⟩
  · rfl

theorem live_drop {v : Option SioFd} (hs : s'.sfds = Function.update s.sfds r v)
    (hdel : ∀ sfd ∈ v, sfd.isDel = true) (x : SfdRef) :
    s'.live x = if x = r then none else s.live x := by
  rw [Sio.live, hs, Function.update_apply]
  split
  · refine Option.filter_eq_none_iff.mpr fun sfd hsfd => ?_
    rw [hdel sfd hsfd]
    decide
  · rfl

theorem registered_live : s.registered r = true ↔ ∃ sfd, s.live r = some sfd := by
  rw [registered_iff]
  exact exists_congr fun sfd => live_iff.symm

theorem Registers.asked_eq (h : Registers asked s) (hlive : s.live r = some sfd) :
    asked s.kernel sfd.fd = ⟨some r, sfd.watchRead, sfd.watchWrite⟩ := by
  obtain ⟨hread, hwrite⟩ := h.flags r sfd hlive
  rw [← hread, ← hwrite, ← (h.live sfd.fd r).mpr ⟨sfd, hlive, rfl⟩]

theorem Registers.change_eq (h : Registers asked s) (hlive : s.live r = some sfd)
    (hasked : asked s.kernel = g.asked) (f : Asked → Asked) :
    (g.change r f).asked = Function.update g.asked sfd.fd (f (g.asked sfd.fd)) := by
  funext fd
  rw [Function.update_apply]
  by_cases hfd : fd = sfd.fd
  · rw [if_pos hfd, hfd]
    exact if_pos (by rw [← hasked, h.asked_eq hlive])
  · rw [if_neg hfd]
    refine if_neg fun hr => ?_
    obtain ⟨sfd', hlive', hfd'⟩ := (h.live fd r).mp (by rw [hasked, hr])
    rw [hlive, Option.some.injEq] at hlive'
    exact hfd (by rw [← hfd', hlive'])

theorem Registers.store (h : Registers asked s) (sfd' : SioFd)
    (hold : ∀ fd, (asked s.kernel fd).ref = some r → fd = sfd'.fd)
    (hfree : ∀ r', (asked s.kernel sfd'.fd).ref = some r' → r' = r)
    (hlive : ∀ x, s'.live x = if x = r then some sfd' else s.live x)
    (hasked : asked s'.kernel =
      Function.update (asked s.kernel) sfd'.fd ⟨some r, sfd'.watchRead, sfd'.watchWrite⟩) :
    Registers asked s' := by
  refine ⟨fun fd x => ?_, fun x sfd hx => ?_, fun fd hnone => ?_⟩
  · rw [hasked, hlive, Function.update_apply]
    by_cases hfd : fd = sfd'.fd
    · rw [if_pos hfd]
      by_cases hx : x = r
      · rw [if_pos hx]
        exact iff_of_true (congrArg some hx.symm) ⟨sfd', rfl, hfd.symm⟩
      · rw [if_neg hx]
        refine iff_of_false (fun he => hx (Option.some.inj he).symm) fun hsfd => hx (hfree x ?_)
        exact hfd ▸ (h.live fd x).mpr hsfd
    · rw [if_neg hfd]
      by_cases hx : x = r
      · rw [if_pos hx]
        refine iff_of_false (fun he => hfd (hold fd (hx ▸ he))) ?_
        rintro ⟨sfd, hsfd, rfl⟩
        exact hfd (congrArg SioFd.fd (Option.some.inj hsfd).symm)
      · rw [if_neg hx]
        exact h.live fd x
  · rw [hlive] at hx
    rw [hasked, Function.update_apply]
    split at hx
    · obtain rfl := Option.some.inj hx
      rw [if_pos rfl]
      exact ⟨rfl, rfl⟩
    · next hne =>
      have hfd : sfd.fd ≠ sfd'.fd := fun he =>
        hne (hfree x (he ▸ (h.live sfd.fd x).mpr ⟨sfd, hx, rfl⟩))
      rw [if_neg hfd]
      exact h.flags x sfd hx
  · rw [hasked, Function.update_apply] at hnone ⊢
    split at hnone
    · cases hnone
    · next hfd =>
      rw [if_neg hfd]
      exact h.idle fd hnone

theorem Registers.drop (h : Registers asked s) (hr : s.live r = some sfd)
    (hlive : ∀ x, s'.live x = if x = r then none else s.live x)
    (hasked : asked s'.kernel = Function.update (asked s.kernel) sfd.fd .nothing) :
    Registers asked s' := by
  have hself : (asked s.kernel sfd.fd).ref = some r := (h.live sfd.fd r).mpr ⟨sfd, hr, rfl⟩
  refine ⟨fun fd x => ?_, fun x sfd' hx => ?_, fun fd hnone => ?_⟩
  · rw [hasked, hlive, Function.update_apply]
    by_cases hfd : fd = sfd.fd
    · rw [if_pos hfd]
      refine iff_of_false nofun ?_
      rintro ⟨sfd', hsfd', rfl⟩
      split at hsfd'
      · cases hsfd'
      · next hne =>
        have hx := (h.live sfd'.fd x).mpr ⟨sfd', hsfd', rfl⟩
        rw [hfd, hself] at hx
        exact hne (Option.some.inj hx).symm
    · rw [if_neg hfd]
      by_cases hx : x = r
      · rw [if_pos hx]
        refine iff_of_false (fun he => ?_) nofun
        obtain ⟨sfd', hsfd', hfd'⟩ := (h.live fd x).mp he
        rw [hx, hr, Option.some.injEq] at hsfd'
        exact hfd (by rw [← hfd', hsfd'])
      · rw [if_neg hx]
        exact h.live fd x
  · rw [hlive] at hx
    rw [hasked, Function.update_apply]
    split at hx
    · cases hx
    · next hne =>
      have hfd : sfd'.fd ≠ sfd.fd := by
        intro he
        have hx' := (h.live sfd'.fd x).mpr ⟨sfd', hx, rfl⟩
        rw [he, hself] at hx'
        exact hne (Option.some.inj hx').symm
      rw [if_neg hfd]
      exact h.flags x sfd' hx
  · rw [hasked, Function.update_apply] at hnone ⊢
    split
    · rfl
    · next hfd =>
      rw [if_neg hfd] at hnone
      exact h.idle fd hnone

theorem Keeps.inv_next (h : Keeps B asked s g) : s.live s.next = none := by
  obtain ⟨batch, t, hrel, -⟩ := h.inv
  rw [Sio.live, hrel.used s.next (Nat.le_refl _)]
  rfl

theorem Keeps.of_act (hB : B.Lawful) (h : Keeps B asked s g) {a : SioAct} {g' : Registry}
    (hact : sioAct B s a = some s') (hregisters : Registers asked s')
    (hasked : asked s'.kernel = g'.asked) (hnext : s'.next = g'.next)
    (hloop : s'.isInLoop = g'.inLoop) : Keeps B asked s' g' := by
  obtain ⟨batch, hinv⟩ := h.inv
  obtain ⟨s1, hs1, h1⟩ := hinv.act hB a
  rw [hact, Option.some.injEq] at hs1
  exact ⟨hregisters, hasked, hnext, hloop, batch, hs1 ▸ h1⟩

theorem Keeps.add (hB : B.Lawful) (hA : B.Asks asked) (h : Keeps B asked s g) {fd : Int}
    (hlo : 0 ≤ fd) (hhi : fd < fdSetsize) (hfree : (g.asked fd).ref = none) (callback arg : Nat) :
    Keeps B asked (sioAdd B s fd true callback arg)
        (g.step (.act (.add fd true callback arg))).1 ∧
      sioAdded B s (.add fd true callback arg) = some s.next := by
  have hidle : asked s.kernel fd = .nothing := h.registers.idle fd (by rw [h.asked, hfree])
  obtain ⟨k', hk', hasked⟩ := hA.add s.kernel fd s.next hlo hhi hidle
  have hrun : sioAdd B s fd true callback arg = { s with
      kernel := k'
      sfds := Function.update s.sfds s.next
        (some ⟨fd, false, false, SioEvents.none, callback, arg, false⟩)
      next := s.next + 1 }.note (.add s.next fd callback arg) := by
    rw [sioAdd, hk']
  have hstep : g.step (.act (.add fd true callback arg)) = ({ g with
      asked := Function.update g.asked fd ⟨some g.next, false, false⟩
      next := g.next + 1 }, some g.next) := if_pos hfree
  refine ⟨h.of_act hB (a := .add fd true callback arg) rfl ?_ ?_ ?_ ?_, ?_⟩
  · refine h.registers.store (r := s.next) ⟨fd, false, false, SioEvents.none, callback, arg, false⟩
      (fun fd' hfd' => ?_) (fun r' hr' => ?_) (fun x => ?_) ?_
    · obtain ⟨sfd, hsfd, -⟩ := (h.registers.live fd' s.next).mp hfd'
      rw [h.inv_next] at hsfd
      cases hsfd
    · rw [hidle] at hr'
      cases hr'
    · rw [hrun]
      exact live_store rfl rfl x
    · rw [hrun]
      exact hasked
  · rw [hrun, hstep, ← h.asked, ← h.next]
    exact hasked
  · rw [hrun, hstep, ← h.next]
    rfl
  · rw [hrun, hstep, ← h.loop]
    rfl
  · rw [sioAdded, hk']
    rfl

theorem Keeps.watch (hB : B.Lawful) (hA : B.Asks asked) (h : Keeps B asked s g)
    (hreg : s.registered r = true) (event : SioEvent) (on : Bool) {a : SioAct}
    (ha : sioAct B s a = sioWatch B s r event on) :
    ∃ s', sioAct B s a = some s' ∧ Keeps B asked s' (g.change r fun a => a.watch event on) := by
  obtain ⟨sfd, hlive⟩ := registered_live.mp hreg
  obtain ⟨hsfd, hdel⟩ := live_iff.mp hlive
  have hfd : (sfd.watch event on).fd = sfd.fd := by cases event <;> rfl
  have hflags : (asked s.kernel sfd.fd).watch event on =
      ⟨some r, (sfd.watch event on).watchRead, (sfd.watch event on).watchWrite⟩ := by
    rw [h.registers.asked_eq hlive]
    cases event <;> rfl
  have hasked := hA.watch s.kernel r sfd event on (h.registers.asked_eq hlive)
  have hrun : sioAct B s a = some ({ s.store r (sfd.watch event on) with
      kernel := B.watch s.kernel r (sfd.watch event on) event on }.note (.watch r event on)) := by
    rw [ha, sioWatch, hsfd]
    rfl
  refine ⟨_, hrun, h.of_act hB hrun ?_ ?_ h.next h.loop⟩
  · refine h.registers.store (r := r) (sfd.watch event on) (fun fd' hfd' => ?_) (fun r' hr' => ?_)
      (fun x => ?_) ?_
    · obtain ⟨sfd', hsfd', rfl⟩ := (h.registers.live fd' r).mp hfd'
      rw [hlive, Option.some.injEq] at hsfd'
      rw [hfd, hsfd']
    · rw [hfd, h.registers.asked_eq hlive] at hr'
      exact (Option.some.inj hr').symm
    · refine live_store rfl ?_ x
      cases event <;> exact hdel
    · rw [hfd, ← hflags]
      exact hasked
  · rw [h.registers.change_eq hlive h.asked, ← h.asked]
    exact hasked

theorem sioFree_eq (h : sioFree s r = some s') : (s.sfds r).isSome ∧
    s' = { s with sfds := Function.update s.sfds r none }.note (.free r) := by
  obtain ⟨sfd, hsfd, h⟩ := Option.bind_eq_some_iff.mp h
  exact ⟨by rw [hsfd]; rfl, (Option.some.inj h).symm⟩

theorem sioDefer_eq (h : sioDefer s r = some s') : s'.kernel = s.kernel ∧ s'.next = s.next ∧
    s'.isInLoop = s.isInLoop ∧ s'.sfds = s.sfds := by
  obtain ⟨-, h⟩ := Option.ite_none_right_eq_some.mp h
  obtain rfl := Option.some.inj h
  exact ⟨rfl, rfl, rfl, rfl⟩

theorem Keeps.del (hB : B.Lawful) (hA : B.Asks asked) (h : Keeps B asked s g)
    (hreg : s.registered r = true) :
    ∃ s', sioAct B s (.del r) = some s' ∧ Keeps B asked s' (g.change r fun _ => .nothing) := by
  obtain ⟨sfd, hlive⟩ := registered_live.mp hreg
  obtain ⟨hsfd, hdel⟩ := live_iff.mp hlive
  obtain ⟨batch, hinv⟩ := h.inv
  obtain ⟨s', hrun, -⟩ := hinv.act hB (.del r)
  have hkeeps : s'.kernel = B.del s.kernel sfd.fd ∧ s'.next = s.next ∧
      s'.isInLoop = s.isInLoop ∧ ∀ x, s'.live x = if x = r then none else s.live x := by
    have hsio := hrun
    rw [sioAct, if_pos hreg] at hsio
    obtain ⟨sfd1, hsfd1, hsio⟩ := Option.bind_eq_some_iff.mp hsio
    obtain rfl := Option.some.inj (hsfd.symm.trans hsfd1)
    dsimp only at hsio
    split at hsio
    · obtain ⟨hk, hn, hl, hsfds⟩ := sioDefer_eq hsio
      refine ⟨hk, hn, hl, live_drop hsfds fun sfd' hsfd' => ?_⟩
      obtain rfl := Option.mem_some_iff.mp hsfd'
      rfl
    · obtain ⟨-, rfl⟩ := sioFree_eq hsio
      exact ⟨rfl, rfl, rfl, live_drop rfl fun _ hx => by cases hx⟩
  refine ⟨s', hrun, h.of_act hB hrun ?_ ?_ ?_ ?_⟩
  · refine h.registers.drop hlive hkeeps.2.2.2 ?_
    rw [hkeeps.1, hA.del]
  · rw [h.registers.change_eq hlive h.asked, ← h.asked, hkeeps.1, hA.del]
  · rw [hkeeps.2.1, h.next]
    rfl
  · rw [hkeeps.2.2.1, h.loop]
    rfl

theorem Keeps.enter (h : Keeps B asked s g) (hloop : s.isInLoop = false) :
    Keeps B asked (sioEnter s []) (g.step .enter).1 := by
  obtain ⟨batch, t, hrel, hbatch, hquiet⟩ := h.inv
  have hnone : batch = none := by
    rw [← hbatch, ← Option.not_isSome_iff_eq_none, ← hrel.loop, hloop]
    decide
  subst hnone
  have hinv : SioInv B none s := ⟨t, hrel, hbatch, hquiet⟩
  exact ⟨⟨h.registers.live, h.registers.flags, h.registers.idle⟩, h.asked, h.next, rfl, _,
    hinv.enter fun x (hx : x ∈ []) => absurd hx List.not_mem_nil⟩

theorem sioLeave_keeps (h : sioLeave s = some s')
    (hdel : ∀ r ∈ s.deferredToClose, s.live r = none) :
    s'.kernel = s.kernel ∧ s'.next = s.next ∧ s'.isInLoop = false ∧ ∀ x, s'.live x = s.live x := by
  obtain ⟨s1, hfree, h⟩ := Option.bind_eq_some_iff.mp h
  obtain rfl := Option.some.inj h
  refine foldlM_keeps (fun s1 => s1.kernel = s.kernel ∧ s1.next = s.next ∧ s1.isInLoop = false ∧
    ∀ x, s1.live x = s.live x) (fun s1 r s2 ⟨hk, hn, hl, hlive⟩ hr hrun => ?_)
    ⟨rfl, rfl, rfl, fun _ => rfl⟩ (fun r hr => hr) hfree
  obtain ⟨-, rfl⟩ := sioFree_eq hrun
  refine ⟨hk, hn, hl, fun x => (live_drop rfl (fun _ hx => by cases hx) x).trans ?_⟩
  split
  · next hx => rw [hx, hdel r hr]
  · exact hlive x

theorem Keeps.leave (h : Keeps B asked s g) (hloop : s.isInLoop = true) :
    ∃ s', sioLeave s = some s' ∧ Keeps B asked s' (g.step .leave).1 := by
  obtain ⟨batch, t, hrel, hbatch, hquiet⟩ := h.inv
  obtain ⟨events, rfl⟩ : ∃ events, batch = some events := by
    rw [← Option.isSome_iff_exists, ← hbatch, ← hrel.loop, hloop]
  have hinv : SioInv B (some events) s := ⟨t, hrel, hbatch, hquiet⟩
  obtain ⟨s', hs', h'⟩ := hinv.leave
  have hdel : ∀ r ∈ s.deferredToClose, s.live r = none := fun r hr => by
    obtain ⟨sfd, hsfd, hdel⟩ := hrel.isDel r hr
    refine Option.eq_none_iff_forall_not_mem.mpr fun sfd' hlive => ?_
    obtain ⟨hsfd', hdel'⟩ := live_iff.mp hlive
    rw [hsfd, Option.some.injEq] at hsfd'
    rw [hsfd', hdel'] at hdel
    cases hdel
  obtain ⟨hk, hn, hl, hlive⟩ := sioLeave_keeps hs' hdel
  refine ⟨s', hs', ⟨fun fd r => ?_, fun r sfd hr => ?_, fun fd hnone => ?_⟩, hk ▸ h.asked,
    hn.trans h.next, hl, none, h'⟩
  · rw [hk, hlive]
    exact h.registers.live fd r
  · rw [hk]
    exact h.registers.flags r sfd (hlive r ▸ hr)
  · rw [hk] at hnone ⊢
    exact h.registers.idle fd hnone

end Steps

section Refines
variable {K : Type} {B : SioBackend K} {asked : K → Int → Asked} {s : Sio K} {g : Registry}
  {c : RegCall}

/-- Descriptors that are added are pollable and below FD_SETSIZE, and what is watched or deleted
was added and not deleted. -/
def RegOk (s : Sio K) : RegCall → Prop
  | .act (.add fd ok _ _) => ok = true ∧ 0 ≤ fd ∧ fd < fdSetsize
  | .act (.del r) => s.registered r = true
  | .act (.watchRead r) => s.registered r = true
  | .act (.unwatchRead r) => s.registered r = true
  | .act (.watchWrite r) => s.registered r = true
  | .act (.unwatchWrite r) => s.registered r = true
  | .act (.set _ _ _) => False
  | .act (.close _) => False
  | .enter => s.isInLoop = false
  | .leave => s.isInLoop = true

instance (s : Sio K) : (c : RegCall) → Decidable (RegOk s c)
  | .act (.add _ _ _ _) => inferInstanceAs (Decidable (_ ∧ _))
  | .act (.del _) => inferInstanceAs (Decidable (_ = _))
  | .act (.watchRead _) => inferInstanceAs (Decidable (_ = _))
  | .act (.unwatchRead _) => inferInstanceAs (Decidable (_ = _))
  | .act (.watchWrite _) => inferInstanceAs (Decidable (_ = _))
  | .act (.unwatchWrite _) => inferInstanceAs (Decidable (_ = _))
  | .act (.set _ _ _) => .isFalse id
  | .act (.close _) => .isFalse id
  | .enter => inferInstanceAs (Decidable (_ = _))
  | .leave => inferInstanceAs (Decidable (_ = _))

def AddsNew (s : Sio K) : RegCall → Prop
  | .act (.add fd _ _ _) => ∀ r sfd, s.live r = some sfd → sfd.fd ≠ fd
  | _ => True

theorem Keeps.free_iff (h : Keeps B asked s g) {fd : Int} :
    (g.asked fd).ref = none ↔ ∀ r sfd, s.live r = some sfd → sfd.fd ≠ fd := by
  rw [← h.asked, Option.eq_none_iff_forall_not_mem]
  refine forall_congr' fun r => ?_
  rw [Option.mem_def, h.registers.live, not_exists]
  exact forall_congr' fun sfd => not_and

theorem regStep_act {a : SioAct} {s' : Sio K} (h : sioAct B s a = some s') :
    regStep B s (.act a) = some (s', sioAdded B s a) := by
  rw [regStep, h]
  rfl

/-- Where no descriptor is added twice. -/
theorem regStep_refines (hB : B.Lawful) (hA : B.Asks asked) (h : Keeps B asked s g)
    (hok : RegOk s c) (hnew : AddsNew s c) :
    ∃ s', regStep B s c = some (s', (g.step c).2) ∧ Keeps B asked s' (g.step c).1 := by
  have hwatch : ∀ r event on a, s.registered r = true → sioAct B s a = sioWatch B s r event on →
      sioAdded B s a = none → ∃ s', regStep B s (.act a) = some (s', none) ∧
        Keeps B asked s' (g.change r fun a => a.watch event on) := by
    intro r event on a hr ha hadded
    obtain ⟨s', hact, h'⟩ := h.watch hB hA hr event on ha
    exact ⟨s', by rw [regStep_act hact, hadded], h'⟩
  cases c with
  | enter => exact ⟨_, rfl, h.enter hok⟩
  | leave =>
    obtain ⟨s', hleave, h'⟩ := h.leave hok
    exact ⟨s', by rw [regStep, hleave]; rfl, h'⟩
  | act a =>
    cases a with
    | add fd ok callback arg =>
      obtain ⟨rfl, hlo, hhi⟩ := hok
      have hfree := h.free_iff.mpr hnew
      obtain ⟨h', hadded⟩ := h.add hB hA hlo hhi hfree callback arg
      refine ⟨_, ?_, h'⟩
      rw [regStep_act rfl, hadded, Registry.step, if_pos hfree, h.next]
    | del r =>
      obtain ⟨s', hact, h'⟩ := h.del hB hA hok
      exact ⟨s', regStep_act hact, h'⟩
    | watchRead r => exact hwatch r .read true _ hok (if_pos hok) rfl
    | unwatchRead r => exact hwatch r .read false _ hok (if_pos hok) rfl
    | watchWrite r => exact hwatch r .write true _ hok (if_pos hok) rfl
    | unwatchWrite r => exact hwatch r .write false _ hok (if_pos hok) rfl
    | set r callback arg => exact hok.elim
    | close fd => exact hok.elim

theorem sioStart_keeps (hB : B.Lawful) (hA : B.Asks asked) :
    Keeps B asked (sioStart B) Registry.start := by
  have hasked : ∀ fd, asked (sioStart B).kernel fd = .nothing := hA.new
  refine ⟨⟨fun fd r => ?_, nofun, fun fd _ => hasked fd⟩, funext hasked, rfl, rfl, none,
    sioStart_inv hB⟩
  rw [hasked]
  exact iff_of_false nofun (fun ⟨_, hsfd, _⟩ => by cases hsfd)

end Refines

section Both

/-- Two managers, one over each backend, for which the same calls are made. -/
def bothStep (s : Sio Epoll × Sio Select) (c : RegCall) :
    Option ((Sio Epoll × Sio Select) × (Option SfdRef × Option SfdRef)) := do
  let (s1, r1) ← regStep epoll s.1 c
  let (s2, r2) ← regStep select s.2 c
  some ((s1, s2), (r1, r2))

def bothStart : Sio Epoll × Sio Select := (sioStart epoll, sioStart select)

def BothOk (s : Sio Epoll × Sio Select) (c : RegCall) : Prop := RegOk s.1 c ∧ RegOk s.2 c

instance (s : Sio Epoll × Sio Select) (c : RegCall) : Decidable (BothOk s c) :=
  inferInstanceAs (Decidable (_ ∧ _))

/-- The kernels are asked for the same, and each registered descriptor has one live sfd that is
watched for that. -/
structure SameRegistration (s : Sio Epoll × Sio Select) : Prop where
  epoll : Registers epollAsked s.1
  select : Registers selectAsked s.2
  same : ∀ fd, epollAsked s.1.kernel fd = selectAsked s.2.kernel fd

/-- After every call, also for what `sio_add` has returned. -/
def BackendsAgree (calls : List RegCall) : Prop :=
  ∀ pre, pre <+: calls → ∃ s rets, run bothStep bothStart pre = some (s, rets) ∧
    (∀ ret ∈ rets, ret.1 = none ↔ ret.2 = none) ∧ SameRegistration s

def BothKeep (s : Sio Epoll × Sio Select) (g : Registry) : Prop :=
  Keeps epoll epollAsked s.1 g ∧ Keeps select selectAsked s.2 g

variable {s : Sio Epoll × Sio Select} {g : Registry} {c : RegCall}

theorem BothKeep.same (h : BothKeep s g) : SameRegistration s :=
  ⟨h.1.registers, h.2.registers, fun fd => by rw [h.1.asked, h.2.asked]⟩

theorem bothStep_keeps (h : BothKeep s g) (hok : BothOk s c) (hnew : AddsNew s.1 c) :
    ∃ s' ret, bothStep s c = some (s', ret) ∧ BothKeep s' (g.step c).1 ∧
      ret = ((g.step c).2, (g.step c).2) := by
  have hnew2 : AddsNew s.2 c := by
    cases c with
    | act a =>
      cases a with
      | add fd ok callback arg => exact h.2.free_iff.mp (h.1.free_iff.mpr hnew)
      | _ => trivial
    | _ => trivial
  obtain ⟨s1, hs1, h1⟩ := regStep_refines epoll_lawful epoll_asks h.1 hok.1 hnew
  obtain ⟨s2, hs2, h2⟩ := regStep_refines select_lawful select_asks h.2 hok.2 hnew2
  refine ⟨(s1, s2), _, ?_, ⟨h1, h2⟩, rfl⟩
  rw [bothStep, hs1, hs2]
  rfl

/-- epoll_ctl refuses a descriptor that is registered, and the select backend does not. -/
theorem bothStep_again (h : Registers epollAsked s.1) (hok : BothOk s c)
    (hagain : ¬ AddsNew s.1 c) :
    ∃ s', bothStep s c = some (s', (none, some s.2.next)) := by
  cases c with
  | enter => exact absurd trivial hagain
  | leave => exact absurd trivial hagain
  | act a =>
    cases a with
    | add fd ok callback arg =>
      obtain ⟨⟨rfl, hlo, hhi⟩, -⟩ := hok
      simp only [AddsNew, not_forall, not_not] at hagain
      obtain ⟨r, sfd, hlive, hfd⟩ := hagain
      have hint : s.1.kernel.interest fd ≠ none := fun hnone => by
        have href := (h.live fd r).mpr ⟨sfd, hlive, hfd⟩
        rw [epollAsked_nothing.mpr hnone] at href
        cases href
      have hrefused : epoll.add s.1.kernel fd true s.1.next = none := if_neg fun hc => hint hc.2
      have htaken : ∃ k', select.add s.2.kernel fd true s.2.next = some k' := ⟨_, if_neg (by omega)⟩
      obtain ⟨k', hk'⟩ := htaken
      refine ⟨(sioAdd epoll s.1 fd true callback arg, sioAdd select s.2 fd true callback arg), ?_⟩
      rw [bothStep, regStep_act rfl, regStep_act rfl, sioAdded, sioAdded, hrefused, hk']
      rfl
    | _ => exact absurd trivial hagain

theorem bothStart_keeps : BothKeep bothStart Registry.start :=
  ⟨sioStart_keeps epoll_lawful epoll_asks, sioStart_keeps select_lawful select_asks⟩

/-- The backends agree on what is registered and asked for, and on the calls of `sio_add` that
fail, after every call exactly if no descriptor is added that is registered. -/
theorem backends_agree {calls : List RegCall} (hcalls : Along bothStep BothOk bothStart calls) :
    BackendsAgree calls ↔ Along bothStep (fun s c => AddsNew s.1 c) bothStart calls := by
  constructor
  · intro h
    refine Along.of_run fun pre c s rets hpre hrun => ?_
    by_contra hagain
    -- at the first descriptor that is added again, the results differ
    obtain ⟨s1, rets1, hrun1, -, hsame⟩ := h pre ((List.prefix_append pre [c]).trans hpre)
    obtain ⟨rfl, -⟩ := Prod.mk.inj (Option.some.inj (hrun.symm.trans hrun1))
    obtain ⟨rest, hrest⟩ := hpre
    have hok : BothOk s c := by
      rw [← hrest, List.append_assoc] at hcalls
      exact (hcalls.of_append hrun).1
    obtain ⟨s', hstep⟩ := bothStep_again hsame.epoll hok hagain
    obtain ⟨s2, rets2, hrun2, hrets2, -⟩ := h (pre ++ [c]) ⟨rest, hrest⟩
    rw [run_append hrun, run_cons hstep] at hrun2
    obtain ⟨-, rfl⟩ := Prod.mk.inj (Option.some.inj hrun2)
    have hdiffer := (hrets2 (none, some s.2.next) (by simp)).mp rfl
    cases hdiffer
  · rintro hnew pre ⟨rest, rfl⟩
    have hboth : Along bothStep (fun s c => BothOk s c ∧ AddsNew s.1 c) bothStart pre :=
      hcalls.left.inter hnew.left
    have hstep : ∀ s g c, BothKeep s g → BothOk s c ∧ AddsNew s.1 c → ∃ s' ret,
        bothStep s c = some (s', ret) ∧ BothKeep s' (Registry.step g c).1 ∧
          ret = ((Registry.step g c).2, (Registry.step g c).2) :=
      fun s g c h hc => bothStep_keeps h hc.1 hc.2
    obtain ⟨s, rets, hrun, h, hrets⟩ :=
      run_simulates BothKeep (fun ret ω => ret = (ω, ω)) hstep bothStart_keeps hboth
    refine ⟨s, rets, hrun, fun ret hret => ?_, h.same⟩
    obtain ⟨i, hi, rfl⟩ := List.getElem_of_mem hret
    have hret : rets[i] = _ := hrets.get hi (hrets.length_eq ▸ hi)
    rw [hret]

/-- Descriptor 7 is watched, deleted in the loop and added again. -/
def newSampleCalls : List RegCall := [.act (.add 7 true 0 0), .act (.watchRead 0), .enter,
  .act (.add 8 true 0 0), .act (.watchWrite 1), .act (.del 0), .act (.add 7 true 0 0), .leave]

/-- No descriptor is added that has an sfd, which the registry alone decides. -/
def Registry.AddsNew (g : Registry) : RegCall → Prop
  | .act (.add fd _ _ _) => (g.asked fd).ref = none
  | _ => True

instance (g : Registry) : (c : RegCall) → Decidable (g.AddsNew c)
  | .act (.add fd _ _ _) => inferInstanceAs (Decidable ((g.asked fd).ref = none))
  | .act (.del _) | .act (.watchRead _) | .act (.unwatchRead _) | .act (.watchWrite _)
  | .act (.unwatchWrite _) | .act (.set _ _ _) | .act (.close _) | .enter | .leave =>
    .isTrue trivial

theorem BothKeep.addsNew (h : BothKeep s g) (hnew : g.AddsNew c) : AddsNew s.1 c := by
  cases c with
  | act a =>
    cases a with
    | add fd ok callback arg => exact h.1.free_iff.mp hnew
    | _ => trivial
  | _ => trivial

theorem BothKeep.addsNew_along {calls : List RegCall} (h : BothKeep s g)
    (hcalls : Along bothStep BothOk s calls)
    (hnew : Along (fun g c => some (Registry.step g c)) Registry.AddsNew g calls) :
    Along bothStep (fun s c => AddsNew s.1 c) s calls := by
  induction calls generalizing s g with
  | nil => trivial
  | cons c calls ih =>
    have hadds := h.addsNew hnew.1
    obtain ⟨s1, r1, hs1, h1, -⟩ := bothStep_keeps h hcalls.1 hadds
    rw [Along.cons_some hs1]
    exact ⟨hadds, ih h1 (hcalls.2 s1 r1 hs1) (hnew.2 _ _ rfl)⟩

theorem backends_agree_sample : BackendsAgree newSampleCalls :=
  (backends_agree (by decide)).mpr (bothStart_keeps.addsNew_along (by decide) (by decide))

/-- Descriptor 7 is added twice. -/
def againSampleCalls : List RegCall := [.act (.add 7 true 0 0), .act (.add 7 true 0 0)]

/-- epoll returns NULL for the second call, and select returns another sfd. -/
theorem backends_differ :
    Along bothStep BothOk bothStart againSampleCalls ∧ ¬ BackendsAgree againSampleCalls := by
  refine ⟨by decide, fun h => ?_⟩
  obtain ⟨s, rets, hrun, hsame, -⟩ := h againSampleCalls List.prefix_rfl
  have hrets : (run bothStep bothStart againSampleCalls).map Prod.snd =
      some [(some 0, some 0), (none, some 1)] := rfl
  rw [hrun] at hrets
  obtain rfl : rets = [(some 0, some 0), (none, some 1)] := Option.some.inj hrets
  have hdiffer := (hsame (none, some 1) (by simp)).mp rfl
  cases hdiffer

end Both

end SimpleKit.Loop
