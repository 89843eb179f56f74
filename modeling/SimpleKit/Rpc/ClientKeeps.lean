import SimpleKit.Rpc.ClientRun

set_option autoImplicit false

namespace SimpleKit
open Runs

structure RpcRequest.Same (q q' : RpcRequest) : Prop where
  timeout : q'.timeout = q.timeout
  retryTimes : q'.retryTimes = q.retryTimes
  retryCount : q'.retryCount = q.retryCount

def RpcRequest.expired (q : RpcRequest) (r : RpcRef) : ClientEvent :=
  if q.retryTimes ≤ q.retryCount then .timeout r else .arm r q.timeout

def RpcClient.counted (s : RpcClient) (r : RpcRef) (q : RpcRequest) : RpcClient :=
  (s.setRequest r { q with retryCount := q.retryCount + 1 }).note (q.expired r)

def ClientAct.Meets (ok : CallArgs → Prop) : ClientAct → Prop
  | .call args => ok args
  | .addUpstream _ _ _ => True

def ClientOp.Meets (ok : CallArgs → Prop) : ClientOp → Prop
  | .call args => ok args
  | .ready _ _ acts _ => ∀ r, ∀ act ∈ acts r, ClientAct.Meets ok act
  | .timer _ acts _ => ∀ r, ∀ act ∈ acts r, ClientAct.Meets ok act
  | .addUpstream _ _ _ => True
  | .removeUpstream _ _ _ => True

theorem ClientAct.meets (a : ClientAct) : a.Meets fun _ => True := by
  cases a with
  | call args => trivial
  | addUpstream ip port env => trivial

theorem ClientOp.meets (op : ClientOp) : op.Meets fun _ => True := by
  cases op with
  | ready st event acts env => exact fun _ act _ => act.meets
  | timer t acts env => exact fun _ act _ => act.meets
  | _ => trivial

def ClientOp.Expires (r : RpcRef) (s : RpcClient) : ClientOp → Prop
  | .timer t _ _ => t = .request r ∧ s.looping = false ∧ t ∈ s.timers
  | _ => False

instance (r : RpcRef) (s : RpcClient) : (op : ClientOp) → Decidable (op.Expires r s)
  | .timer _ _ _ => inferInstanceAs (Decidable (_ ∧ _ ∧ _))
  | .call _ => .isFalse id
  | .addUpstream _ _ _ => .isFalse id
  | .removeUpstream _ _ _ => .isFalse id
  | .ready _ _ _ _ => .isFalse id

/-- `P` is kept by all changes but those that the timer of a call makes. -/
structure ClientKeeps (ok : CallArgs → Prop) (P : RpcClient → Prop) : Prop where
  still : ∀ {s s' : RpcClient}, P s → s'.log = s.log → s'.request = s.request →
    s.fresh ≤ s'.fresh → P s'
  relinked : ∀ {s : RpcClient} {r : RpcRef} {q q' : RpcRequest}, P s → s.request r = some q →
    q.Same q' → P (s.setRequest r q')
  sent : ∀ {s : RpcClient} (r st : RpcRef) (f : Frame), P s → P (s.note (.send r st f))
  called : ∀ {s : RpcClient} (args : CallArgs) (found : Option RpcRef), P s → ok args →
    P (s.newCall ⟨0, args.type, args.body, 0, args.retryTimes, args.timeout, found⟩)
  responded : ∀ {s : RpcClient} {r : RpcRef} {q : RpcRequest} (st : RpcRef) (f : Frame), P s →
    s.request r = some q → P (s.note (.response r st f))
  freed : ∀ {s : RpcClient} {r : RpcRef}, P s → s.log.any (ClientEvent.answers r) →
    P { s with request := Function.update s.request r none }

namespace ClientKeeps
variable {ok : CallArgs → Prop} {P P' : RpcClient → Prop} {s s1 s' : RpcClient} {u r st : RpcRef}
  {env : RpcEnv} {e : ByteOrder}

theorem stopTimer (hP : ClientKeeps ok P) {t : RpcTimer} (h : s.stopTimer t = some s') (hs : P s) :
    P s' := by
  unfold RpcClient.stopTimer at h
  split at h
  · cases h
    exact hP.still hs rfl rfl (Nat.le_refl _)
  · cases h

theorem writeStream (hP : ClientKeeps ok P) {data : List UInt8} {write : Except Errno Nat}
    {ret : Int} (h : s.writeStream st data write = some (s', ret)) (hs : P s) : P s' := by
  obtain ⟨x, -, h⟩ := Option.bind_eq_some_iff.mp h
  obtain ⟨y, -, h⟩ := Option.bind_eq_some_iff.mp h
  cases h
  exact hP.still hs rfl rfl (Nat.le_refl _)

theorem connect (hP : ClientKeeps ok P) {done : Bool}
    (h : sioRpcUpstreamConnect s u env = some (s', done)) (hs : P s) : P s' := by
  obtain ⟨up, -, h⟩ := Option.bind_eq_some_iff.mp h
  split at h
  · cases h
    exact hP.still hs rfl rfl (Nat.le_refl _)
  · cases h
    exact hP.still hs rfl rfl (Nat.le_succ _)

theorem choose (hP : ClientKeeps ok P) {found : Option RpcRef}
    (h : sioRpcChooseUpstream s env = some (s', found)) (hs : P s) : P s' := by
  obtain ⟨⟨pending, found'⟩, -, h⟩ := Option.bind_eq_some_iff.mp h
  have hturned : P { s with rrStream := s.rrStream + 1 } := hP.still hs rfl rfl (Nat.le_refl _)
  dsimp only at h
  split at h
  · cases h
    exact hturned
  · split at h
    · cases h
      exact hturned
    · obtain ⟨u, -, h⟩ := Option.bind_eq_some_iff.mp h
      obtain ⟨⟨s1, done⟩, hconnect, h⟩ := Option.bind_eq_some_iff.mp h
      cases h
      exact hP.connect hconnect hturned

theorem resetLoop (hP : ClientKeeps ok P) {entries : List (Sigma fun _ : Nat => RpcRef)}
    (h : sioRpcResetLoop u entries s = some s') (hs : P s) : P s' := by
  induction entries generalizing s with
  | nil =>
    cases h
    exact hs
  | cons entry entries ih =>
    obtain ⟨k, r⟩ := entry
    obtain ⟨q, hq, h⟩ := Option.bind_eq_some_iff.mp h
    obtain ⟨up, -, h⟩ := Option.bind_eq_some_iff.mp h
    split at h
    · have hcleared : P (s.setRequest r { q with upstream := none }) :=
        hP.relinked hs hq ⟨rfl, rfl, rfl⟩
      exact ih h (hP.still hcleared rfl rfl (Nat.le_refl _))
    · cases h

theorem reset (hP : ClientKeeps ok P) (h : sioRpcResetUpstream s u env = some s') (hs : P s) :
    P s' := by
  obtain ⟨up, -, h⟩ := Option.bind_eq_some_iff.mp h
  obtain ⟨st, -, h⟩ := Option.bind_eq_some_iff.mp h
  obtain ⟨s1, hclose, h⟩ := Option.bind_eq_some_iff.mp h
  obtain ⟨x, -, rfl⟩ := Option.map_eq_some_iff.mp hclose
  exact hP.resetLoop h (hP.still hs rfl rfl (Nat.le_refl _))

theorem callOn (hP : ClientKeeps ok P) {ret : Int}
    (h : sioRpcCallOn e s u r env = some (s', ret)) (hs : P s) : P s' := by
  obtain ⟨up, -, h⟩ := Option.bind_eq_some_iff.mp h
  obtain ⟨st, -, h⟩ := Option.bind_eq_some_iff.mp h
  obtain ⟨q, hq, h⟩ := Option.bind_eq_some_iff.mp h
  obtain ⟨⟨s1, ret1⟩, hwrite1, h⟩ := Option.bind_eq_some_iff.mp h
  obtain ⟨⟨s2, ret2⟩, hwrite2, h⟩ := Option.bind_eq_some_iff.mp h
  have hnumbered : P (s.setRequest r { q with id := up.reqId }) :=
    hP.relinked hs hq ⟨rfl, rfl, rfl⟩
  have hnoted : P ((((s.setRequest r { q with id := up.reqId }).setUpstream u
      { up with reqId := up.reqId + 1 })).note
      (.send r st ⟨sioRpcCallHead up.reqId q, q.body⟩)) :=
    hP.sent r st _ (hP.still hnumbered rfl rfl (Nat.le_refl _))
  have hwritten : P s2 := hP.writeStream hwrite2 (hP.writeStream hwrite1 hnoted)
  dsimp only at h
  split at h
  · obtain ⟨up', -, h⟩ := Option.bind_eq_some_iff.mp h
    split at h
    · cases h
    · cases h
      exact hP.still hwritten rfl rfl (Nat.le_refl _)
  · obtain ⟨s3, hreset, h⟩ := Option.bind_eq_some_iff.mp h
    cases h
    exact hP.reset hreset hwritten

theorem callOrClear (hP : ClientKeeps ok P) (h : sioRpcCallOrClear e s u r env = some s')
    (hs : P s) : P s' := by
  obtain ⟨⟨s1, ret⟩, hcall, h⟩ := Option.bind_eq_some_iff.mp h
  dsimp only at h
  split at h
  · obtain ⟨q, hq, h⟩ := Option.bind_eq_some_iff.mp h
    cases h
    exact hP.relinked (hP.callOn hcall hs) hq ⟨rfl, rfl, rfl⟩
  · cases h
    exact hP.callOn hcall hs

theorem freeCall (hP : ClientKeeps ok P) (h : sioRpcFreeCall s r = some s') (hs : P s)
    (hanswered : s.log.any (ClientEvent.answers r)) : P s' := by
  unfold sioRpcFreeCall at h
  split at h
  · cases h
    exact hP.still (hP.freed hs hanswered) rfl rfl (Nat.le_refl _)
  · cases h

theorem call (hP : ClientKeeps ok P) {args : CallArgs} (hargs : ok args)
    (h : sioRpcCall e s args = some s') (hs : P s) : P s' := by
  obtain ⟨⟨s1, found⟩, hchoose, h⟩ := Option.bind_eq_some_iff.mp h
  have hcalled := hP.called args found (hP.choose hchoose hs) hargs
  dsimp only at h
  split at h
  · cases h
  · split at h
    · cases h
      exact hcalled
    · exact hP.callOrClear h hcalled

theorem addUpstream (hP : ClientKeeps ok P) {ip : String} {port : UInt16}
    (h : sioRpcAddUpstream s ip port env = some s') (hs : P s) : P s' := by
  obtain ⟨found, -, h⟩ := Option.bind_eq_some_iff.mp h
  split at h
  · cases h
    exact hs
  · obtain ⟨⟨s1, done⟩, hconnect, h⟩ := Option.bind_eq_some_iff.mp h
    cases h
    have hmade := hP.connect hconnect (hP.still hs rfl rfl (Nat.le_succ _))
    exact hP.still hmade rfl rfl (Nat.le_refl _)

theorem act (hP : ClientKeeps ok P) {a : ClientAct} (ha : a.Meets ok)
    (h : clientAct e s a = some s') (hs : P s) : P s' := by
  cases a with
  | call args => exact hP.call ha h hs
  | addUpstream ip port env => exact hP.addUpstream h hs

theorem acts (hP : ClientKeeps ok P) {l : List ClientAct} (hl : ∀ a ∈ l, a.Meets ok)
    (h : l.foldlM (clientAct e) s = some s') (hs : P s) : P s' :=
  foldlM_keeps P (fun _ _ _ h1 ha hact => hP.act ha hact h1) hs hl h

theorem answered (ok : CallArgs → Prop) (r : RpcRef) :
    ClientKeeps ok fun s => s.log.any (ClientEvent.answers r) where
  still h hlog _ _ := by rwa [hlog]
  relinked h _ _ := h
  sent _ _ _ h := by rw [RpcClient.note, List.any_append, h, Bool.true_or]
  called _ _ h _ := by rw [RpcClient.newCall_log, List.any_append, h, Bool.true_or]
  responded _ _ h _ := by rw [RpcClient.note, List.any_append, h, Bool.true_or]
  freed h _ := h

theorem actsFreed (hP : ClientKeeps ok P) {l : List ClientAct} (hl : ∀ a ∈ l, a.Meets ok)
    (hacts : l.foldlM (clientAct e) s = some s1) (hs : P s)
    (hanswered : s.log.any (ClientEvent.answers r)) :
    P s1 ∧ s1.log.any (ClientEvent.answers r) :=
  ⟨hP.acts hl hacts hs, (answered ok r).acts hl hacts hanswered⟩

theorem handleResponse (hP : ClientKeeps ok P) {l : RpcRef → List ClientAct}
    (hl : ∀ r, ∀ a ∈ l r, a.Meets ok) {f : Frame}
    (h : sioRpcHandleResponse e u st l s f = some s') (hs : P s) : P s' := by
  obtain ⟨up, -, h⟩ := Option.bind_eq_some_iff.mp h
  split at h
  · cases h
    exact hs
  · next r _ =>
    obtain ⟨q, hq, h⟩ := Option.bind_eq_some_iff.mp h
    have hfound : P (s.setUpstream u
        { up with reqStatus := up.reqStatus.erase f.head.id.toNat }) :=
      hP.still hs rfl rfl (Nat.le_refl _)
    split at h
    · obtain ⟨s1, hacts, h⟩ := Option.bind_eq_some_iff.mp h
      obtain ⟨s2, hstop, h⟩ := Option.bind_eq_some_iff.mp h
      obtain ⟨s3, hfree, h⟩ := Option.bind_eq_some_iff.mp h
      obtain ⟨x, -, h⟩ := Option.bind_eq_some_iff.mp h
      cases h
      obtain ⟨h1, hanswered⟩ := hP.actsFreed (r := r) (hl r) hacts (hP.responded st f hfound hq)
        (by simp [RpcClient.note, ClientEvent.answers])
      exact hP.freeCall hfree (hP.stopTimer hstop h1) ((answered ok r).stopTimer hstop hanswered)
    · cases h
      exact hP.relinked hfound hq ⟨rfl, rfl, rfl⟩

theorem parseResponse (hP : ClientKeeps ok P) {l : RpcRef → List ClientAct}
    (hl : ∀ r, ∀ a ∈ l r, a.Meets ok) {fuel : Nat} {ret : Int}
    (h : sioRpcUpstreamParseResponse e fuel s u l = some (s', ret)) (hs : P s) : P s' := by
  obtain ⟨up, -, h⟩ := Option.bind_eq_some_iff.mp h
  obtain ⟨st, -, h⟩ := Option.bind_eq_some_iff.mp h
  obtain ⟨x, -, h⟩ := Option.bind_eq_some_iff.mp h
  obtain ⟨⟨s1, left, outcome⟩, hparse, h⟩ := Option.bind_eq_some_iff.mp h
  have h1 : P s1 :=
    sioRpcParse_keeps P (fun _ _ _ h1 hf => hP.handleResponse hl hf h1) hs hparse
  cases outcome with
  | wait used =>
    obtain ⟨x', -, h⟩ := Option.bind_eq_some_iff.mp h
    cases h
    exact hP.still h1 rfl rfl (Nat.le_refl _)
  | bad =>
    cases h
    exact h1
  | more =>
    cases h
    exact hP.still h1 rfl rfl (Nat.le_refl _)

theorem callback (hP : ClientKeeps ok P) {l : RpcRef → List ClientAct}
    (hl : ∀ r, ∀ a ∈ l r, a.Meets ok) {fuel : Nat} {event : SioStreamEvent}
    (h : sioRpcUpstreamCallback e fuel s u l env event = some s') (hs : P s) : P s' := by
  cases event with
  | connected =>
    cases h
    exact hs
  | data =>
    obtain ⟨⟨s1, err⟩, hparse, h⟩ := Option.bind_eq_some_iff.mp h
    dsimp only at h
    split at h
    · exact hP.reset h (hP.parseResponse hl hparse hs)
    · cases h
      exact hP.parseResponse hl hparse hs
  | error => exact hP.reset h hs
  | close => exact hP.reset h hs
  | accept => cases h

theorem ready (hP : ClientKeeps ok P) {l : RpcRef → List ClientAct}
    (hl : ∀ r, ∀ a ∈ l r, a.Meets ok) {x : RpcStream} {ready : SioReady}
    (h : clientReady e s st x ready l env = some s') (hs : P s) : P s' := by
  unfold clientReady at h
  dsimp only at h
  have hset : P (s.setStream st { x with io := (sioRunReady x.io ready).1 }) :=
    hP.still hs rfl rfl (Nat.le_refl _)
  split at h
  · cases h
    exact hset
  · exact hP.callback hl h hset

theorem check (hP : ClientKeeps ok P) (h : sioRpcUpstreamCheck s u env = some s') (hs : P s) :
    P s' := by
  obtain ⟨up, -, h⟩ := Option.bind_eq_some_iff.mp h
  split at h
  · cases h
    exact hs
  · obtain ⟨full, -, h⟩ := Option.bind_eq_some_iff.mp h
    split at h
    · exact hP.reset h hs
    · cases h
      exact hs

theorem reconnect (hP : ClientKeeps ok P) (h : sioRpcUpstreamReconnect s u env = some s')
    (hs : P s) : P s' := by
  obtain ⟨up, -, h⟩ := Option.bind_eq_some_iff.mp h
  dsimp only at h
  generalize (if up.lastConnTime < env.now then env.now - up.lastConnTime else 0) = period at h
  split at h
  · obtain ⟨⟨s1, done⟩, hconnect, rfl⟩ := Option.map_eq_some_iff.mp h
    exact hP.connect hconnect hs
  · cases h
    exact hs

theorem upstreamTimer (hP : ClientKeeps ok P) (h : sioRpcUpstreamTimer s u env = some s')
    (hs : P s) : P s' := by
  obtain ⟨s1, hcheck, h⟩ := Option.bind_eq_some_iff.mp h
  obtain ⟨s2, hreconnect, h⟩ := Option.bind_eq_some_iff.mp h
  cases h
  have h2 := hP.reconnect hreconnect (hP.check hcheck hs)
  exact hP.still h2 rfl rfl (Nat.le_refl _)

theorem dropUpstream (hP : ClientKeeps ok P) (h : sioRpcDropUpstream s u env = some s')
    (hs : P s) : P s' := by
  obtain ⟨up, -, h⟩ := Option.bind_eq_some_iff.mp h
  dsimp only at h
  split at h
  · obtain ⟨s1, hreset, h⟩ := Option.bind_eq_some_iff.mp h
    obtain ⟨s2, hstop, h⟩ := Option.bind_eq_some_iff.mp h
    cases h
    have h2 := hP.stopTimer hstop (hP.reset hreset hs)
    exact hP.still h2 rfl rfl (Nat.le_refl _)
  · change (s.stopTimer (.upstream u)).bind _ = some s' at h
    obtain ⟨s2, hstop, h⟩ := Option.bind_eq_some_iff.mp h
    cases h
    have h2 := hP.stopTimer hstop hs
    exact hP.still h2 rfl rfl (Nat.le_refl _)

theorem removeUpstream (hP : ClientKeeps ok P) {ip : String} {port : UInt16}
    (h : sioRpcRemoveUpstream s ip port env = some s') (hs : P s) : P s' := by
  obtain ⟨found, -, h⟩ := Option.bind_eq_some_iff.mp h
  split at h
  · cases h
    exact hs
  · exact hP.dropUpstream h (hP.still hs rfl rfl (Nat.le_refl _))

theorem cancel (hP : ClientKeeps ok P) (h : sioRpcCancel s r = some s') (hs : P s) :
    P s' ∧ s'.log = s.log ∧
      ∃ q q', s.request r = some q ∧ s'.request r = some q' ∧ q.Same q' := by
  obtain ⟨q, hq, h⟩ := Option.bind_eq_some_iff.mp h
  split at h
  · cases h
    exact ⟨hs, rfl, q, q, hq, hq, rfl, rfl, rfl⟩
  · obtain ⟨up, -, h⟩ := Option.bind_eq_some_iff.mp h
    split at h
    · cases h
      refine ⟨?_, rfl, q, _, hq, Function.update_self .., rfl, rfl, rfl⟩
      exact hP.relinked (hP.still hs rfl rfl (Nat.le_refl _)) hq ⟨rfl, rfl, rfl⟩
    · cases h

theorem retry (hP : ClientKeeps ok P) (h : sioRpcRetry e s r env = some s')
    (hs : ∀ q, s.request r = some q → P (s.note (.arm r q.timeout))) : P s' := by
  obtain ⟨q, hq, h⟩ := Option.bind_eq_some_iff.mp h
  obtain ⟨⟨s1, found⟩, hchoose, h⟩ := Option.bind_eq_some_iff.mp h
  obtain ⟨q', hq', h⟩ := Option.bind_eq_some_iff.mp h
  have hstarted : P ((s.startTimer (.request r)).note (.arm r q.timeout)) :=
    hP.still (hs q hq) rfl rfl (Nat.le_refl _)
  have hlinked : P (s1.setRequest r { q' with upstream := found }) :=
    hP.relinked (hP.choose hchoose hstarted) hq' ⟨rfl, rfl, rfl⟩
  dsimp only at h
  split at h
  · cases h
    exact hlinked
  · exact hP.callOrClear h hlinked

theorem callTimer (hP : ClientKeeps ok P) (hP' : ClientKeeps ok P') {l : RpcRef → List ClientAct}
    (hl : ∀ r, ∀ a ∈ l r, a.Meets ok) (h : sioRpcCallTimer e s r l env = some s') (hs : P s)
    (hcount : ∀ s1 q q1, s.request r = some q → q.Same q1 → s1.log = s.log → P s1 →
      s1.request r = some q1 → P' (s1.counted r q1)) : P' s' := by
  obtain ⟨s1, hcancel, h⟩ := Option.bind_eq_some_iff.mp h
  obtain ⟨q1, hq1, h⟩ := Option.bind_eq_some_iff.mp h
  obtain ⟨h1, hlog, q, q1', hq, hq1', hsame⟩ := hP.cancel hcancel hs
  obtain rfl := Option.some.inj (hq1.symm.trans hq1')
  have hcounted := hcount s1 q q1 hq hsame hlog h1 hq1
  rw [RpcClient.counted, RpcRequest.expired] at hcounted
  dsimp only at h
  split at h
  · next hlast =>
    rw [if_pos hlast] at hcounted
    obtain ⟨s2, hacts, h⟩ := Option.bind_eq_some_iff.mp h
    obtain ⟨h2, hanswered⟩ := hP'.actsFreed (r := r) (hl r) hacts hcounted
      (by simp [RpcClient.note, ClientEvent.answers])
    exact hP'.freeCall h h2 hanswered
  · next hmore =>
    rw [if_neg hmore] at hcounted
    refine hP'.retry h fun q2 hq2 => ?_
    rw [RpcClient.request_setRequest, if_pos rfl, Option.some.injEq] at hq2
    subst hq2
    exact hcounted

theorem expires (hP : ClientKeeps ok P) (hP' : ClientKeeps ok P') {op : ClientOp}
    (hop : op.Meets ok) (hexpires : op.Expires r s) (h : clientStep e s op = some (s', ()))
    (hs : P s) (hcount : ∀ s1 q q1, s.request r = some q → q.Same q1 → s1.log = s.log → P s1 →
      s1.request r = some q1 → P' (s1.counted r q1)) : P' s' := by
  cases op with
  | timer t l env =>
    obtain ⟨rfl, hloop, ht⟩ := hexpires
    rw [clientStep, if_neg (by rw [hloop]; decide), clientDo, if_pos ht] at h
    obtain ⟨s1, htimer, heq⟩ := Option.map_eq_some_iff.mp h
    obtain ⟨s2, hstop, htimer⟩ := Option.bind_eq_some_iff.mp htimer
    cases heq
    have hstopped : s2.request = s.request ∧ s2.log = s.log := by
      rw [RpcClient.stopTimer, if_pos ht] at hstop
      cases hstop
      exact ⟨rfl, rfl⟩
    refine hP.callTimer hP' hop htimer (hP.stopTimer hstop hs) fun s3 q q1 hq hsame hlog => ?_
    rw [hstopped.1] at hq
    rw [hstopped.2] at hlog
    exact hcount s3 q q1 hq hsame hlog
  | _ => exact hexpires.elim

theorem step (hP : ClientKeeps ok P) {op : ClientOp} (hop : op.Meets ok)
    (h : clientStep e s op = some (s', ())) (hs : P s)
    (hcount : ∀ r s1 q, op.Expires r s → P s1 → s1.request r = some q → P (s1.counted r q)) :
    P s' := by
  by_cases hexpires : ∃ r, op.Expires r s
  · obtain ⟨r, hr⟩ := hexpires
    exact hP.expires hP hop hr h hs fun s1 _ q1 _ _ _ h1 hq1 => hcount r s1 q1 hr h1 hq1
  · unfold clientStep at h
    split at h
    · cases h
      exact hs
    · next hloop =>
      obtain ⟨s1, hdo, heq⟩ := Option.map_eq_some_iff.mp h
      cases heq
      cases op with
      | call args => exact hP.call hop hdo hs
      | addUpstream ip port env => exact hP.addUpstream hdo hs
      | removeUpstream ip port env => exact hP.removeUpstream hdo hs
      | ready st event l env =>
        rw [clientDo] at hdo
        split at hdo
        · cases hdo
          exact hs
        · exact hP.ready hop hdo hs
      | timer t l env =>
        rw [clientDo] at hdo
        split at hdo
        · next ht =>
          obtain ⟨s2, hstop, hdo⟩ := Option.bind_eq_some_iff.mp hdo
          cases t with
          | request r => exact absurd ⟨r, rfl, Bool.eq_false_of_not_eq_true hloop, ht⟩ hexpires
          | upstream u => exact hP.upstreamTimer hdo (hP.stopTimer hstop hs)
        · cases hdo
          exact hs

end ClientKeeps

end SimpleKit
