import SimpleKit.Rpc.ClientKeeps

set_option autoImplicit false

namespace SimpleKit
open Runs

def sendRefs (log : List ClientEvent) : List RpcRef :=
  log.filterMap fun
    | .send r _ _ => some r
    | _ => none

theorem sendRefs_append (log more : List ClientEvent) :
    sendRefs (log ++ more) = sendRefs log ++ sendRefs more := List.filterMap_append

structure RpcClient.Still (s s' : RpcClient) : Prop where
  sends : sendRefs s'.log = sendRefs s.log
  request : ∀ r q', s'.request r = some q' → ∃ q, s.request r = some q ∧ q.Same q'
  fresh : s.fresh ≤ s'.fresh

namespace RpcClient.Still
variable {s0 s s1 s' : RpcClient} {u r st : RpcRef} {env : RpcEnv} {e : ByteOrder}

theorem refl (s : RpcClient) : s.Still s :=
  ⟨rfl, fun _ q' hq' => ⟨q', hq', rfl, rfl, rfl⟩, Nat.le_refl _⟩

theorem same (h : s0.Still s) (hlog : s'.log = s.log) (hrequest : s'.request = s.request)
    (hfresh : s.fresh ≤ s'.fresh) : s0.Still s' := by
  refine ⟨by rw [hlog, h.sends], fun r q' hq' => ?_, Nat.le_trans h.fresh hfresh⟩
  rw [hrequest] at hq'
  exact h.request r q' hq'

theorem setRequest (h : s0.Still s) {q q' : RpcRequest} (hq : s.request r = some q)
    (hsame : q.Same q') : s0.Still (s.setRequest r q') := by
  refine ⟨h.sends, fun x y hy => ?_, h.fresh⟩
  rw [RpcClient.request_setRequest] at hy
  split at hy
  · next hx =>
    cases hy
    obtain ⟨q0, hq0, hsame0⟩ := h.request r q hq
    exact ⟨q0, hx ▸ hq0, hsame.timeout.trans hsame0.timeout,
      hsame.retryTimes.trans hsame0.retryTimes, hsame.retryCount.trans hsame0.retryCount⟩
  · exact h.request x y hy

theorem note (h : s0.Still s) (ev : ClientEvent) (hev : sendRefs [ev] = []) :
    s0.Still (s.note ev) := by
  refine ⟨?_, h.request, h.fresh⟩
  rw [RpcClient.note, sendRefs_append, hev, List.append_nil, h.sends]

theorem stopTimer {t : RpcTimer} (h : s.stopTimer t = some s') (hs : s0.Still s) :
    s0.Still s' := by
  unfold RpcClient.stopTimer at h
  split at h
  · cases h
    exact hs.same rfl rfl (Nat.le_refl _)
  · cases h

theorem writeStream {data : List UInt8} {write : Except Errno Nat} {ret : Int}
    (h : s.writeStream st data write = some (s', ret)) (hs : s0.Still s) : s0.Still s' := by
  obtain ⟨x, -, h⟩ := Option.bind_eq_some_iff.mp h
  obtain ⟨y, -, h⟩ := Option.bind_eq_some_iff.mp h
  cases h
  exact hs.same rfl rfl (Nat.le_refl _)

theorem connect {done : Bool} (h : sioRpcUpstreamConnect s u env = some (s', done))
    (hs : s0.Still s) : s0.Still s' := by
  obtain ⟨up, -, h⟩ := Option.bind_eq_some_iff.mp h
  split at h
  · cases h
    exact hs.same rfl rfl (Nat.le_refl _)
  · cases h
    exact hs.same rfl rfl (Nat.le_succ _)

theorem choose {found : Option RpcRef} (h : sioRpcChooseUpstream s env = some (s', found))
    (hs : s0.Still s) : s0.Still s' := by
  obtain ⟨⟨pending, found'⟩, -, h⟩ := Option.bind_eq_some_iff.mp h
  have hturned : s0.Still { s with rrStream := s.rrStream + 1 } := hs.same rfl rfl (Nat.le_refl _)
  dsimp only at h
  split at h
  · cases h
    exact hturned
  · split at h
    · cases h
      exact hturned
    · obtain ⟨u, -, h⟩ := Option.bind_eq_some_iff.mp h
      obtain ⟨⟨s1, done⟩, hconnect, h⟩ := Option.bind_eq_some_iff.mp h
      cases h
      exact connect hconnect hturned

theorem resetLoop {entries : List (Sigma fun _ : Nat => RpcRef)}
    (h : sioRpcResetLoop u entries s = some s') (hs : s0.Still s) : s0.Still s' := by
  induction entries generalizing s with
  | nil =>
    cases h
    exact hs
  | cons entry entries ih =>
    obtain ⟨k, r⟩ := entry
    obtain ⟨q, hq, h⟩ := Option.bind_eq_some_iff.mp h
    obtain ⟨up, -, h⟩ := Option.bind_eq_some_iff.mp h
    split at h
    · have hcleared : s0.Still (s.setRequest r { q with upstream := none }) :=
        hs.setRequest hq ⟨rfl, rfl, rfl⟩
      exact ih h (hcleared.same rfl rfl (Nat.le_refl _))
    · cases h

theorem reset (h : sioRpcResetUpstream s u env = some s') (hs : s0.Still s) : s0.Still s' := by
  obtain ⟨up, -, h⟩ := Option.bind_eq_some_iff.mp h
  obtain ⟨st, -, h⟩ := Option.bind_eq_some_iff.mp h
  obtain ⟨s1, hclose, h⟩ := Option.bind_eq_some_iff.mp h
  obtain ⟨x, -, rfl⟩ := Option.map_eq_some_iff.mp hclose
  exact resetLoop h (hs.same rfl rfl (Nat.le_refl _))

theorem freeCall (h : sioRpcFreeCall s r = some s') (hs : s0.Still s) : s0.Still s' := by
  unfold sioRpcFreeCall at h
  split at h
  · cases h
    refine ⟨hs.sends, fun x q' hq' => ?_, hs.fresh⟩
    change Function.update s.request r none x = some q' at hq'
    rw [Function.update_apply] at hq'
    split at hq'
    · cases hq'
    · exact hs.request x q' hq'
  · cases h

theorem addUpstream {ip : String} {port : UInt16}
    (h : sioRpcAddUpstream s ip port env = some s') (hs : s0.Still s) : s0.Still s' := by
  obtain ⟨found, -, h⟩ := Option.bind_eq_some_iff.mp h
  split at h
  · cases h
    exact hs
  · obtain ⟨⟨s1, done⟩, hconnect, h⟩ := Option.bind_eq_some_iff.mp h
    cases h
    have hmade := connect hconnect (hs.same rfl rfl (Nat.le_succ _))
    exact hmade.same rfl rfl (Nat.le_refl _)

theorem upstreamTimer (h : sioRpcUpstreamTimer s u env = some s') (hs : s0.Still s) :
    s0.Still s' := by
  obtain ⟨s1, hcheck, h⟩ := Option.bind_eq_some_iff.mp h
  obtain ⟨s2, hreconnect, h⟩ := Option.bind_eq_some_iff.mp h
  have h1 : s0.Still s1 := by
    obtain ⟨up, -, hcheck⟩ := Option.bind_eq_some_iff.mp hcheck
    split at hcheck
    · cases hcheck
      exact hs
    · obtain ⟨full, -, hcheck⟩ := Option.bind_eq_some_iff.mp hcheck
      split at hcheck
      · exact reset hcheck hs
      · cases hcheck
        exact hs
  have h2 : s0.Still s2 := by
    obtain ⟨up, -, hreconnect⟩ := Option.bind_eq_some_iff.mp hreconnect
    dsimp only at hreconnect
    generalize (if up.lastConnTime < env.now then env.now - up.lastConnTime else 0) = period
      at hreconnect
    split at hreconnect
    · obtain ⟨⟨s3, done⟩, hconnect, rfl⟩ := Option.map_eq_some_iff.mp hreconnect
      exact connect hconnect h1
    · cases hreconnect
      exact h1
  cases h
  exact h2.same rfl rfl (Nat.le_refl _)

theorem dropUpstream (h : sioRpcDropUpstream s u env = some s') (hs : s0.Still s) :
    s0.Still s' := by
  obtain ⟨up, -, h⟩ := Option.bind_eq_some_iff.mp h
  dsimp only at h
  split at h
  · obtain ⟨s1, hreset, h⟩ := Option.bind_eq_some_iff.mp h
    obtain ⟨s2, hstop, h⟩ := Option.bind_eq_some_iff.mp h
    cases h
    exact (stopTimer hstop (reset hreset hs)).same rfl rfl (Nat.le_refl _)
  · change (s.stopTimer (.upstream u)).bind _ = some s' at h
    obtain ⟨s2, hstop, h⟩ := Option.bind_eq_some_iff.mp h
    cases h
    exact (stopTimer hstop hs).same rfl rfl (Nat.le_refl _)

theorem removeUpstream {ip : String} {port : UInt16}
    (h : sioRpcRemoveUpstream s ip port env = some s') (hs : s0.Still s) : s0.Still s' := by
  obtain ⟨found, -, h⟩ := Option.bind_eq_some_iff.mp h
  split at h
  · cases h
    exact hs
  · exact dropUpstream h (hs.same rfl rfl (Nat.le_refl _))

theorem cancel (h : sioRpcCancel s r = some s') (hs : s0.Still s) : s0.Still s' := by
  obtain ⟨q, hq, h⟩ := Option.bind_eq_some_iff.mp h
  split at h
  · cases h
    exact hs
  · obtain ⟨up, -, h⟩ := Option.bind_eq_some_iff.mp h
    split at h
    · cases h
      have hcleared : s0.Still (s.setRequest r { q with upstream := none }) :=
        hs.setRequest hq ⟨rfl, rfl, rfl⟩
      exact hcleared.same rfl rfl (Nat.le_refl _)
    · cases h

end RpcClient.Still

/-- `due` more sends of a call may follow, and then it was not sent more than `retryTimes + 1`
times. -/
structure SentWithin (r : RpcRef) (retryTimes due : Nat) (s : RpcClient) : Prop where
  live : ∀ q, s.request r = some q → (sendRefs s.log).count r + due ≤ q.retryCount + 1
  within : (sendRefs s.log).count r + due ≤ retryTimes + 1
  unborn : s.fresh ≤ r → (sendRefs s.log).count r = 0 ∧ s.request r = none

namespace SentWithin
variable {r x u st : RpcRef} {retryTimes due : Nat} {s s' : RpcClient} {env : RpcEnv}
  {e : ByteOrder}

theorem still (h : SentWithin r retryTimes due s) (hs : s.Still s') :
    SentWithin r retryTimes due s' := by
  refine ⟨fun q' hq' => ?_, ?_, fun hle => ?_⟩
  · obtain ⟨q, hq, hsame⟩ := hs.request r q' hq'
    rw [hs.sends, hsame.retryCount]
    exact h.live q hq
  · rw [hs.sends]
    exact h.within
  · obtain ⟨hzero, hnone⟩ := h.unborn (Nat.le_trans hs.fresh hle)
    refine ⟨by rw [hs.sends, hzero], ?_⟩
    cases hq' : s'.request r with
    | none => rfl
    | some q' =>
      obtain ⟨q, hq, -⟩ := hs.request r q' hq'
      simp [hnone] at hq

theorem less (h : SentWithin r retryTimes due s) : SentWithin r retryTimes 0 s :=
  ⟨fun q hq => Nat.le_trans (Nat.le_add_right _ _) (h.live q hq),
    Nat.le_trans (Nat.le_add_right _ _) h.within, h.unborn⟩

theorem sent (h : SentWithin r retryTimes (if x = r then 1 else 0) s) {q : RpcRequest}
    (hq : s.request x = some q) (f : Frame) :
    SentWithin r retryTimes 0 (s.note (.send x st f)) := by
  have hcount : (sendRefs (s.note (.send x st f)).log).count r =
      (sendRefs s.log).count r + if x = r then 1 else 0 := by
    rw [RpcClient.note, sendRefs_append, List.count_append]
    by_cases hx : x = r <;> simp [sendRefs, hx]
  refine ⟨fun q' hq' => ?_, ?_, fun hle => ?_⟩
  · rw [hcount]
    exact h.live q' hq'
  · rw [hcount]
    exact h.within
  · obtain ⟨hzero, hnone⟩ := h.unborn hle
    have hx : x ≠ r := by
      rintro rfl
      simp [hnone] at hq
    exact ⟨by rw [hcount, hzero, if_neg hx], hnone⟩

theorem callOn (h : SentWithin r retryTimes (if x = r then 1 else 0) s) {ret : Int}
    (hrun : sioRpcCallOn e s u x env = some (s', ret)) : SentWithin r retryTimes 0 s' := by
  obtain ⟨up, -, hrun⟩ := Option.bind_eq_some_iff.mp hrun
  obtain ⟨st, -, hrun⟩ := Option.bind_eq_some_iff.mp hrun
  obtain ⟨q, hq, hrun⟩ := Option.bind_eq_some_iff.mp hrun
  obtain ⟨⟨s1, ret1⟩, hwrite1, hrun⟩ := Option.bind_eq_some_iff.mp hrun
  obtain ⟨⟨s2, ret2⟩, hwrite2, hrun⟩ := Option.bind_eq_some_iff.mp hrun
  have hnumbered : s.Still (s.setRequest x { q with id := up.reqId }) :=
    (RpcClient.Still.refl s).setRequest hq ⟨rfl, rfl, rfl⟩
  have hcounted : s.Still ((s.setRequest x { q with id := up.reqId }).setUpstream u
      { up with reqId := up.reqId + 1 }) :=
    hnumbered.same rfl rfl (Nat.le_refl _)
  have hnoted : SentWithin r retryTimes 0 (((s.setRequest x { q with id := up.reqId }).setUpstream u
      { up with reqId := up.reqId + 1 }).note (.send x st ⟨sioRpcCallHead up.reqId q, q.body⟩)) :=
    (h.still hcounted).sent (Function.update_self ..) _
  have hwritten := hnoted.still (.writeStream hwrite2 (.writeStream hwrite1 (.refl _)))
  dsimp only at hrun
  split at hrun
  · obtain ⟨up', -, hrun⟩ := Option.bind_eq_some_iff.mp hrun
    split at hrun
    · cases hrun
    · cases hrun
      exact hwritten.still ((RpcClient.Still.refl _).same rfl rfl (Nat.le_refl _))
  · obtain ⟨s3, hreset, hrun⟩ := Option.bind_eq_some_iff.mp hrun
    cases hrun
    exact hwritten.still (.reset hreset (.refl _))

theorem callOrClear (h : SentWithin r retryTimes (if x = r then 1 else 0) s)
    (hrun : sioRpcCallOrClear e s u x env = some s') : SentWithin r retryTimes 0 s' := by
  obtain ⟨⟨s1, ret⟩, hcall, hrun⟩ := Option.bind_eq_some_iff.mp hrun
  dsimp only at hrun
  split at hrun
  · obtain ⟨q, hq, hrun⟩ := Option.bind_eq_some_iff.mp hrun
    cases hrun
    exact (h.callOn hcall).still ((RpcClient.Still.refl s1).setRequest hq ⟨rfl, rfl, rfl⟩)
  · cases hrun
    exact h.callOn hcall

theorem newCall (h : SentWithin r retryTimes 0 s) (q : RpcRequest) :
    SentWithin r retryTimes (if s.fresh = r then 1 else 0) (s.newCall q) := by
  have hsends : sendRefs (s.newCall q).log = sendRefs s.log := by
    rw [RpcClient.newCall_log, sendRefs_append]
    exact List.append_nil _
  by_cases hr : s.fresh = r
  · subst hr
    obtain ⟨hzero, -⟩ := h.unborn (Nat.le_refl _)
    refine ⟨fun q' _ => ?_, ?_, fun hle => absurd hle (Nat.not_succ_le_self _)⟩
    · rw [hsends, hzero, if_pos rfl]
      exact Nat.le_add_left _ _
    · rw [hsends, hzero, if_pos rfl]
      exact Nat.le_add_left _ _
  · rw [if_neg hr]
    refine ⟨fun q' hq' => ?_, by rw [hsends]; exact h.within, fun hle => ?_⟩
    · rw [RpcClient.newCall_get, if_neg (Ne.symm hr)] at hq'
      rw [hsends]
      exact h.live q' hq'
    · obtain ⟨hzero, hnone⟩ := h.unborn (Nat.le_of_succ_le hle)
      refine ⟨by rw [hsends, hzero], ?_⟩
      rw [RpcClient.newCall_get, if_neg (Ne.symm hr), hnone]

theorem call (h : SentWithin r retryTimes 0 s) {args : CallArgs}
    (hrun : sioRpcCall e s args = some s') : SentWithin r retryTimes 0 s' := by
  obtain ⟨⟨s1, found⟩, hchoose, hrun⟩ := Option.bind_eq_some_iff.mp hrun
  have hcalled := (h.still (.choose hchoose (.refl s))).newCall
    ⟨0, args.type, args.body, 0, args.retryTimes, args.timeout, found⟩
  dsimp only at hrun
  split at hrun
  · cases hrun
  · split at hrun
    · cases hrun
      exact hcalled.less
    · exact hcalled.callOrClear hrun

theorem act (h : SentWithin r retryTimes 0 s) {a : ClientAct}
    (hrun : clientAct e s a = some s') : SentWithin r retryTimes 0 s' := by
  cases a with
  | call args => exact h.call hrun
  | addUpstream ip port env => exact h.still (.addUpstream hrun (.refl s))

theorem acts (h : SentWithin r retryTimes 0 s) {l : List ClientAct}
    (hrun : l.foldlM (clientAct e) s = some s') : SentWithin r retryTimes 0 s' :=
  foldlM_keeps (SentWithin r retryTimes 0) (fun _ _ _ h1 (_ : True) hact => h1.act hact) h
    (fun _ _ => trivial) hrun

theorem handleResponse (h : SentWithin r retryTimes 0 s) {l : RpcRef → List ClientAct} {f : Frame}
    (hrun : sioRpcHandleResponse e u st l s f = some s') : SentWithin r retryTimes 0 s' := by
  obtain ⟨up, -, hrun⟩ := Option.bind_eq_some_iff.mp hrun
  split at hrun
  · cases hrun
    exact h
  · next x _ =>
    obtain ⟨q, hq, hrun⟩ := Option.bind_eq_some_iff.mp hrun
    have hfound : s.Still (s.setUpstream u
        { up with reqStatus := up.reqStatus.erase f.head.id.toNat }) :=
      (RpcClient.Still.refl s).same rfl rfl (Nat.le_refl _)
    split at hrun
    · obtain ⟨s1, hacts, hrun⟩ := Option.bind_eq_some_iff.mp hrun
      obtain ⟨s2, hstop, hrun⟩ := Option.bind_eq_some_iff.mp hrun
      obtain ⟨s3, hfree, hrun⟩ := Option.bind_eq_some_iff.mp hrun
      obtain ⟨y, -, hrun⟩ := Option.bind_eq_some_iff.mp hrun
      cases hrun
      have hnoted := hfound.note (.response x st f) rfl
      have h1 := (h.still hnoted).acts hacts
      exact h1.still (.freeCall hfree (.stopTimer hstop (.refl s1)))
    · cases hrun
      exact h.still (hfound.setRequest hq ⟨rfl, rfl, rfl⟩)

theorem callback (h : SentWithin r retryTimes 0 s) {l : RpcRef → List ClientAct} {fuel : Nat}
    {event : SioStreamEvent} (hrun : sioRpcUpstreamCallback e fuel s u l env event = some s') :
    SentWithin r retryTimes 0 s' := by
  cases event with
  | connected =>
    cases hrun
    exact h
  | accept => cases hrun
  | error => exact h.still (.reset hrun (.refl s))
  | close => exact h.still (.reset hrun (.refl s))
  | data =>
    obtain ⟨⟨s1, err⟩, hinput, hrun⟩ := Option.bind_eq_some_iff.mp hrun
    have h1 : SentWithin r retryTimes 0 s1 := by
      obtain ⟨up, -, hinput⟩ := Option.bind_eq_some_iff.mp hinput
      obtain ⟨st, -, hinput⟩ := Option.bind_eq_some_iff.mp hinput
      obtain ⟨x, -, hinput⟩ := Option.bind_eq_some_iff.mp hinput
      obtain ⟨⟨s2, left, outcome⟩, hparse, hinput⟩ := Option.bind_eq_some_iff.mp hinput
      have h2 : SentWithin r retryTimes 0 s2 := sioRpcParse_keeps (SentWithin r retryTimes 0)
        (fun _ _ _ h2 hf => h2.handleResponse hf) h hparse
      cases outcome with
      | wait used =>
        obtain ⟨x', -, hinput⟩ := Option.bind_eq_some_iff.mp hinput
        cases hinput
        exact h2.still ((RpcClient.Still.refl s2).same rfl rfl (Nat.le_refl _))
      | bad =>
        cases hinput
        exact h2
      | more =>
        cases hinput
        exact h2.still ((RpcClient.Still.refl s2).same rfl rfl (Nat.le_refl _))
    dsimp only at hrun
    split at hrun
    · exact h1.still (.reset hrun (.refl s1))
    · cases hrun
      exact h1

theorem retry (h : SentWithin r retryTimes (if x = r then 1 else 0) s)
    (hrun : sioRpcRetry e s x env = some s') : SentWithin r retryTimes 0 s' := by
  obtain ⟨q, -, hrun⟩ := Option.bind_eq_some_iff.mp hrun
  obtain ⟨⟨s1, found⟩, hchoose, hrun⟩ := Option.bind_eq_some_iff.mp hrun
  obtain ⟨q', hq', hrun⟩ := Option.bind_eq_some_iff.mp hrun
  have hticks : s.Still (s.startTimer (.request x)) :=
    (RpcClient.Still.refl s).same rfl rfl (Nat.le_refl _)
  have hstarted : s.Still ((s.startTimer (.request x)).note (.arm x q.timeout)) := hticks.note _ rfl
  have hlinked : s.Still (s1.setRequest x { q' with upstream := found }) :=
    (RpcClient.Still.choose hchoose hstarted).setRequest hq' ⟨rfl, rfl, rfl⟩
  have hdue := h.still hlinked
  dsimp only at hrun
  split at hrun
  · cases hrun
    exact hdue.less
  · exact hdue.callOrClear hrun

theorem callTimer (h : SentWithin r retryTimes 0 s)
    (htimes : ∀ q ∈ s.request r, x = r → q.retryTimes = retryTimes)
    {l : RpcRef → List ClientAct} (hrun : sioRpcCallTimer e s x l env = some s') :
    SentWithin r retryTimes 0 s' := by
  obtain ⟨s1, hcancel, hrun⟩ := Option.bind_eq_some_iff.mp hrun
  obtain ⟨q1, hq1, hrun⟩ := Option.bind_eq_some_iff.mp hrun
  have hcancelled := RpcClient.Still.cancel hcancel (.refl s)
  obtain ⟨q, hq, hsame⟩ := hcancelled.request x q1 hq1
  have h1 := h.still hcancelled
  have hget : ∀ y, (s1.setRequest x { q1 with retryCount := q1.retryCount + 1 }).request y =
      if y = x then some { q1 with retryCount := q1.retryCount + 1 } else s1.request y :=
    fun y => RpcClient.request_setRequest ..
  -- one more period is over
  have hcounted : ∀ due ≤ 1, (x = r → due = 1 → q1.retryCount < retryTimes) →
      SentWithin r retryTimes (if x = r then due else 0)
        (s1.setRequest x { q1 with retryCount := q1.retryCount + 1 }) := by
    intro due hdue hmore
    refine ⟨fun y hy => ?_, ?_, fun hle => ?_⟩
    · rw [hget] at hy
      split at hy
      · next hx =>
        subst hx
        cases hy
        have hlive := h1.live q1 hq1
        rw [if_pos rfl]
        change _ ≤ q1.retryCount + 1 + 1
        change (sendRefs s1.log).count r + due ≤ _
        omega
      · next hx =>
        rw [if_neg (Ne.symm hx)]
        exact h1.live y hy
    · by_cases hx : x = r
      · subst hx
        have hlive := h1.live q1 hq1
        have hwithin := h1.within
        rw [if_pos rfl]
        change (sendRefs s1.log).count x + due ≤ _
        rcases Nat.eq_zero_or_pos due with hd | hd
        · omega
        · have hlt := hmore rfl (by omega)
          omega
      · rw [if_neg hx]
        exact h1.within
    · obtain ⟨hzero, hnone⟩ := h1.unborn hle
      refine ⟨hzero, ?_⟩
      rw [hget, if_neg, hnone]
      rintro rfl
      simp [hnone] at hq1
  dsimp only at hrun
  split at hrun
  · obtain ⟨s2, hacts, hrun⟩ := Option.bind_eq_some_iff.mp hrun
    have h2 := (hcounted 0 (Nat.zero_le _) (fun _ hd => absurd hd Nat.zero_ne_one)).less
    have h3 := (h2.still ((RpcClient.Still.refl _).note (.timeout x) rfl)).acts hacts
    exact h3.still (.freeCall hrun (.refl s2))
  · next hmore =>
    refine (hcounted 1 (Nat.le_refl _) fun hx _ => ?_).retry hrun
    subst hx
    rw [← htimes q hq rfl, ← hsame.retryTimes]
    exact Nat.lt_of_not_le hmore

theorem step (h : SentWithin r retryTimes 0 s)
    (htimes : ∀ q ∈ s.request r, q.retryTimes = retryTimes) {op : ClientOp}
    (hrun : clientStep e s op = some (s', ())) : SentWithin r retryTimes 0 s' := by
  unfold clientStep at hrun
  split at hrun
  · cases hrun
    exact h
  · obtain ⟨s1, hdo, heq⟩ := Option.map_eq_some_iff.mp hrun
    cases heq
    cases op with
    | call args => exact h.call hdo
    | addUpstream ip port env => exact h.still (.addUpstream hdo (.refl s))
    | removeUpstream ip port env => exact h.still (.removeUpstream hdo (.refl s))
    | ready st event l env =>
      rw [clientDo] at hdo
      split at hdo
      · cases hdo
        exact h
      · next x _ =>
        unfold clientReady at hdo
        dsimp only at hdo
        have hset : s.Still (s.setStream st { x with io := (sioRunReady x.io event).1 }) :=
          (RpcClient.Still.refl s).same rfl rfl (Nat.le_refl _)
        split at hdo
        · cases hdo
          exact h.still hset
        · exact (h.still hset).callback hdo
    | timer t l env =>
      rw [clientDo] at hdo
      split at hdo
      · obtain ⟨s2, hstop, hdo⟩ := Option.bind_eq_some_iff.mp hdo
        have hstopped := RpcClient.Still.stopTimer hstop (.refl s)
        have h2 := h.still hstopped
        cases t with
        | request x =>
          refine h2.callTimer (fun q' hq' _ => ?_) hdo
          obtain ⟨q, hq, hsame⟩ := hstopped.request r q' hq'
          rw [hsame.retryTimes]
          exact htimes q hq
        | upstream u => exact h2.still (.upstreamTimer hdo (.refl s2))
      · cases hdo
        exact h

end SentWithin

end SimpleKit
