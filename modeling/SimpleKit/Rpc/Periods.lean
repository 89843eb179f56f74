import Mathlib.Data.List.TakeWhile
import SimpleKit.Rpc.ClientKeeps

/-!
How long a call waits. A period is armed by sio_rpc_call and by each retry, and the number of
retries is compared with retry_times before it is increased.
-/
set_option autoImplicit false

namespace SimpleKit
open Runs

/-- The timer periods of this length that are armed for a call before its callback is invoked. -/
def armedPeriods (r : RpcRef) (timeout : Nat) (log : List ClientEvent) : Nat :=
  (log.takeWhile fun ev => !ev.answers r).count (.arm r timeout)

def CallOf (r : RpcRef) (timeout retryTimes : Nat) (s : RpcClient) : Prop :=
  ∀ q ∈ s.request r, q.timeout = timeout ∧ q.retryTimes = retryTimes

instance (r : RpcRef) (timeout retryTimes : Nat) (s : RpcClient) :
    Decidable (CallOf r timeout retryTimes s) :=
  inferInstanceAs (Decidable (∀ q ∈ s.request r, _ ∧ _))

/-- `n` times the timer of a call has run out, and `armed` periods were armed. -/
def Counted (timeout retryTimes n armed : Nat) : Option RpcRequest → Prop
  | none => armed = 0 ∧ n = 0
  | some q => q.retryCount = n ∧ armed = (if q.timeout = timeout then n + 1 else 0) ∧
    (n = 0 ∨ q.timeout = timeout ∧ q.retryTimes = retryTimes)

structure Periods (r : RpcRef) (timeout retryTimes n : Nat) (s : RpcClient) : Prop where
  answered : s.log.any (ClientEvent.answers r) = true →
    (armedPeriods r timeout s.log ≤ retryTimes ↔ n < retryTimes)
  waiting : s.log.any (ClientEvent.answers r) = false →
    Counted timeout retryTimes n (armedPeriods r timeout s.log) (s.request r)
  unborn : s.fresh ≤ r → s.log.any (ClientEvent.answers r) = false ∧ s.request r = none

section Keeps
variable {r x : RpcRef} {timeout retryTimes n armed : Nat} {s s' : RpcClient} {q q' : RpcRequest}
  {log more : List ClientEvent}

theorem armedPeriods_answered (h : log.any (ClientEvent.answers r) = true)
    (more : List ClientEvent) :
    armedPeriods r timeout (log ++ more) = armedPeriods r timeout log := by
  obtain ⟨ev, hev, hans⟩ := List.any_eq_true.mp h
  rw [armedPeriods, List.takeWhile_append, if_neg, armedPeriods]
  intro hall
  have hself := (List.takeWhile_prefix fun ev => !ClientEvent.answers r ev).eq_of_length hall
  rw [← hself] at hev
  have hno := List.mem_takeWhile_imp hev
  rw [hans] at hno
  cases hno

theorem armedPeriods_append (h : log.any (ClientEvent.answers r) = false)
    (more : List ClientEvent) : armedPeriods r timeout (log ++ more) =
      armedPeriods r timeout log + armedPeriods r timeout more := by
  have hall : ∀ ev ∈ log, (!ClientEvent.answers r ev) = true := fun ev hev => by
    rw [Bool.not_eq_true', Bool.eq_false_iff]
    exact List.any_eq_false.mp h ev hev
  have hself : log.takeWhile (fun ev => !ClientEvent.answers r ev) = log :=
    List.takeWhile_eq_self_iff.mpr hall
  rw [armedPeriods, List.takeWhile_append_of_pos hall, List.count_append, armedPeriods, hself,
    armedPeriods]

theorem Counted.bound {o : Option RpcRequest} (h : Counted timeout retryTimes n armed o)
    (hpos : 1 ≤ retryTimes) : armed ≤ retryTimes ↔ n < retryTimes := by
  cases o with
  | none =>
    obtain ⟨rfl, rfl⟩ := h
    omega
  | some q =>
    obtain ⟨-, rfl, h⟩ := h
    split <;> omega

theorem Counted.same (h : Counted timeout retryTimes n armed (some q)) (hq : q.Same q') :
    Counted timeout retryTimes n armed (some q') := by
  rw [Counted, hq.retryCount, hq.timeout, hq.retryTimes]
  exact h

theorem Periods.bound (h : Periods r timeout retryTimes n s) (hpos : 1 ≤ retryTimes) :
    armedPeriods r timeout s.log ≤ retryTimes ↔ n < retryTimes := by
  cases ha : s.log.any (ClientEvent.answers r) with
  | true => exact h.answered ha
  | false => exact (h.waiting ha).bound hpos

theorem Periods.quiet (h : Periods r timeout retryTimes n s)
    (hlog : s'.log = s.log ++ more) (hrequest : s'.request r = s.request r)
    (hfresh : s.fresh ≤ s'.fresh) (hans : more.any (ClientEvent.answers r) = false)
    (harm : armedPeriods r timeout more = 0) : Periods r timeout retryTimes n s' := by
  have hany : s'.log.any (ClientEvent.answers r) = s.log.any (ClientEvent.answers r) := by
    rw [hlog, List.any_append, hans, Bool.or_false]
  have harmed : armedPeriods r timeout s'.log = armedPeriods r timeout s.log := by
    rw [hlog]
    cases ha : s.log.any (ClientEvent.answers r) with
    | true => exact armedPeriods_answered ha more
    | false => rw [armedPeriods_append ha, harm, Nat.add_zero]
  refine ⟨?_, ?_, ?_⟩
  · rw [hany, harmed]
    exact h.answered
  · rw [hany, harmed, hrequest]
    exact h.waiting
  · rw [hany, hrequest]
    exact fun hle => h.unborn (Nat.le_trans hfresh hle)

theorem Periods.lt_fresh (h : Periods r timeout retryTimes n s) (hq : s.request r = some q) :
    r < s.fresh := by
  refine Nat.lt_of_not_le fun hle => ?_
  rw [(h.unborn hle).2] at hq
  cases hq

theorem Periods.newCall (h : Periods r timeout retryTimes n s) (hcount : q.retryCount = 0) :
    Periods r timeout retryTimes n (s.newCall q) := by
  by_cases hr : r = s.fresh
  · subst hr
    obtain ⟨hans, hnone⟩ := h.unborn (Nat.le_refl _)
    obtain ⟨harmed, rfl⟩ : armedPeriods s.fresh timeout s.log = 0 ∧ n = 0 := by
      have hcounted := h.waiting hans
      rwa [hnone] at hcounted
    have hany : (s.newCall q).log.any (ClientEvent.answers s.fresh) = false := by
      rw [RpcClient.newCall_log, List.any_append, hans]
      rfl
    refine ⟨fun ha => ?_, fun _ => ?_, fun hle => absurd hle (Nat.not_succ_le_self _)⟩
    · rw [hany] at ha
      cases ha
    · rw [RpcClient.newCall_log, armedPeriods_append hans, harmed, RpcClient.newCall_request]
      refine ⟨hcount, ?_, Or.inl rfl⟩
      simp [armedPeriods, ClientEvent.answers, List.count_cons]
  · refine h.quiet (RpcClient.newCall_log s q) ?_ (Nat.le_succ _) rfl ?_
    · rw [RpcClient.newCall_get, if_neg hr]
    · simp [armedPeriods, ClientEvent.answers, Ne.symm hr]

theorem Periods.answer (h : Periods r timeout retryTimes n s) (hpos : 1 ≤ retryTimes)
    {ev : ClientEvent} (hev : ev.answers r = true) (hq : s.request r = some q) :
    Periods r timeout retryTimes n (s.note ev) := by
  have hany : (s.note ev).log.any (ClientEvent.answers r) = true := by
    rw [RpcClient.note, List.any_append, List.any_cons, hev, Bool.true_or, Bool.or_true]
  refine ⟨fun _ => ?_, fun ha => ?_, fun hle => absurd (h.lt_fresh hq) (Nat.not_lt.mpr hle)⟩
  · rw [← h.bound hpos, RpcClient.note]
    cases ha : s.log.any (ClientEvent.answers r) with
    | true => rw [armedPeriods_answered ha]
    | false =>
      rw [armedPeriods_append ha, armedPeriods, armedPeriods, List.takeWhile_cons, hev]
      rfl
  · rw [hany] at ha
    cases ha

theorem Periods.keeps (hpos : 1 ≤ retryTimes) :
    ClientKeeps (fun _ => True) (Periods r timeout retryTimes n) where
  still {s s'} h hlog hrequest hfresh := by
    have hmore : s'.log = s.log ++ [] := by rw [hlog, List.append_nil]
    exact h.quiet hmore (by rw [hrequest]) hfresh rfl rfl
  relinked {s x q q'} h hq hsame := by
    have hget : (s.setRequest x q').request r = if r = x then some q' else s.request r :=
      RpcClient.request_setRequest ..
    refine ⟨h.answered, fun ha => ?_, fun hle => ?_⟩
    · have hcounted := h.waiting ha
      rw [hget]
      split
      · next hr =>
        subst hr
        rw [hq] at hcounted
        exact hcounted.same hsame
      · exact hcounted
    · obtain ⟨hans, hnone⟩ := h.unborn hle
      refine ⟨hans, hget.trans ?_⟩
      split
      · next hr =>
        rw [hr, hq] at hnone
        cases hnone
      · exact hnone
  sent _ _ _ h := h.quiet rfl rfl (Nat.le_refl _) rfl rfl
  called _ _ h _ := h.newCall rfl
  responded {s x q} st f h hq := by
    by_cases hr : x = r
    · subst hr
      exact h.answer hpos (decide_eq_true rfl) hq
    · refine h.quiet rfl rfl (Nat.le_refl _) ?_ ?_
      · simp [ClientEvent.answers, hr]
      · simp [armedPeriods, ClientEvent.answers, hr]
  freed {s x} h hans := by
    refine ⟨h.answered, fun ha => ?_, fun hle => ?_⟩
    · by_cases hr : r = x
      · subst hr
        rw [hans] at ha
        cases ha
      · have hget : Function.update s.request x none r = s.request r := Function.update_of_ne hr ..
        change Counted _ _ _ _ (Function.update s.request x none r)
        rw [hget]
        exact h.waiting ha
    · obtain ⟨hno, hnone⟩ := h.unborn hle
      refine ⟨hno, (Function.update_apply ..).trans ?_⟩
      split
      · rfl
      · exact hnone

theorem Periods.counted_ne (h : Periods r timeout retryTimes n s) (hx : x ≠ r) (q : RpcRequest) :
    Periods r timeout retryTimes n (s.counted x q) := by
  have hlog : (s.counted x q).log = s.log ++ [q.expired x] := rfl
  refine h.quiet hlog ?_ (Nat.le_refl _) ?_ ?_
  · exact (RpcClient.request_setRequest ..).trans (if_neg hx.symm)
  · rw [RpcRequest.expired]
    split <;> simp [ClientEvent.answers, hx]
  · rw [RpcRequest.expired]
    split <;> simp [armedPeriods, ClientEvent.answers, hx]

/-- The timer of the call itself runs out. If that is the last time, one period more than
retry_times was armed. -/
theorem Periods.counted (h : Periods r timeout retryTimes n s) (hq : s.request r = some q)
    (htimeout : q.timeout = timeout) (htimes : q.retryTimes = retryTimes)
    (hwaits : s.log.any (ClientEvent.answers r) = false) :
    Periods r timeout retryTimes (n + 1) (s.counted r q) := by
  have hcounted := h.waiting hwaits
  rw [hq] at hcounted
  obtain ⟨hcount, harmed, -⟩ := hcounted
  rw [if_pos htimeout] at harmed
  have hget : (s.counted r q).request r = some { q with retryCount := q.retryCount + 1 } :=
    Function.update_self ..
  have hlog : (s.counted r q).log = s.log ++ [q.expired r] := rfl
  have hperiods : armedPeriods r timeout (s.counted r q).log =
      n + 1 + armedPeriods r timeout [q.expired r] := by
    rw [hlog, armedPeriods_append hwaits, harmed]
  have hborn : (s.counted r q).fresh ≤ r → False := Nat.not_le.mpr (h.lt_fresh hq)
  by_cases hlast : q.retryTimes ≤ q.retryCount
  · have hevent : q.expired r = .timeout r := if_pos hlast
    have hnone : armedPeriods r timeout [q.expired r] = 0 := by
      rw [hevent]
      simp [armedPeriods, ClientEvent.answers]
    refine ⟨fun _ => ?_, fun ha => ?_, fun hle => (hborn hle).elim⟩
    · rw [hperiods, hnone]
      omega
    · rw [hlog, hevent, List.any_append] at ha
      simp [ClientEvent.answers] at ha
  · have hevent : q.expired r = .arm r timeout := (if_neg hlast).trans (by rw [htimeout])
    have hone : armedPeriods r timeout [q.expired r] = 1 := by
      rw [hevent]
      simp [armedPeriods, ClientEvent.answers]
    refine ⟨fun ha => ?_, fun _ => ?_, fun hle => (hborn hle).elim⟩
    · rw [hlog, hevent, List.any_append, hwaits] at ha
      cases ha
    · rw [hperiods, hone, hget]
      refine ⟨congrArg (· + 1) hcount, ?_, Or.inr ⟨htimeout, htimes⟩⟩
      exact (if_pos htimeout).symm

end Keeps

section Run
variable {r : RpcRef} {timeout retryTimes n : Nat} {s s' : RpcClient} {op : ClientOp}
  {e : ByteOrder}

theorem expires_waits {w : RpcView} (h : s.Inv w Underway.none) (hexpires : op.Expires r s) :
    s.log.any (ClientEvent.answers r) = false := by
  have ht : .request r ∈ s.timers := by
    cases op with
    | timer t acts env =>
      obtain ⟨rfl, -, ht⟩ := hexpires
      exact ht
    | _ => exact hexpires.elim
  have hr : r ∈ s.reqRecord := by
    have hcount := List.count_pos_iff.mpr ht
    rw [h.records.armed] at hcount
    split at hcount
    · next hc => exact hc.1
    · cases hcount
  have hnone : s.log.countP (ClientEvent.answers r) = 0 := by
    rw [h.records.answers, if_neg]
    rintro ⟨-, hout | hin⟩
    · exact hout hr
    · cases hin
  exact List.any_eq_false.mpr (List.countP_eq_zero.mp hnone)

theorem clientStep_periods {w : RpcView} (hpos : 1 ≤ retryTimes)
    (hinv : s.Inv w Underway.none) (h : Periods r timeout retryTimes n s)
    (hcall : CallOf r timeout retryTimes s) (hstep : clientStep e s op = some (s', ())) :
    Periods r timeout retryTimes (n + if op.Expires r s then 1 else 0) s' := by
  split
  · next hexpires =>
    have hwaits := expires_waits hinv hexpires
    refine (Periods.keeps hpos).expires (Periods.keeps hpos) op.meets hexpires hstep h ?_
    intro s1 q q1 hq hsame hlog h1 hq1
    obtain ⟨htimeout, htimes⟩ := hcall q hq
    exact h1.counted hq1 (hsame.timeout.trans htimeout) (hsame.retryTimes.trans htimes)
      (by rw [hlog, hwaits])
  · next hno =>
    refine (Periods.keeps hpos).step op.meets hstep h fun x s1 q hx h1 _ => h1.counted_ne ?_ q
    rintro rfl
    exact hno hx

theorem CallOf.setRequest {x : RpcRef} {q q' : RpcRequest} (h : CallOf r timeout retryTimes s)
    (hq : s.request x = some q) (htimeout : q'.timeout = q.timeout)
    (htimes : q'.retryTimes = q.retryTimes) : CallOf r timeout retryTimes (s.setRequest x q') := by
  intro y hy
  rw [RpcClient.request_setRequest] at hy
  split at hy
  · next hr =>
    subst hr
    obtain rfl := Option.some.inj hy
    rw [htimeout, htimes]
    exact h q hq
  · exact h y hy

theorem callOf_keeps (r : RpcRef) (timeout retryTimes : Nat) : ClientKeeps (fun _ => True)
    fun s => CallOf r timeout retryTimes s ∧ r < s.fresh where
  still h _ hrequest hfresh := by
    refine ⟨?_, Nat.lt_of_lt_of_le h.2 hfresh⟩
    rw [CallOf, hrequest]
    exact h.1
  relinked h hq hsame := ⟨h.1.setRequest hq hsame.timeout hsame.retryTimes, h.2⟩
  sent _ _ _ h := h
  called {s} args found h _ := by
    refine ⟨fun y hy => h.1 y ?_, Nat.lt_succ_of_lt h.2⟩
    rwa [RpcClient.newCall_get, if_neg (Nat.ne_of_lt h.2)] at hy
  responded _ _ h _ := h
  freed {s x} h _ := by
    refine ⟨fun y hy => h.1 y ?_, h.2⟩
    change y ∈ Function.update s.request x none r at hy
    rw [Function.update_apply] at hy
    split at hy
    · cases hy
    · exact hy

theorem callOf_along {q : RpcRequest} (hq : s.request r = some q) (hr : r < s.fresh)
    (ops : List ClientOp) :
    Along (clientStep e) (fun s _ => CallOf r q.timeout q.retryTimes s) s ops := by
  have hself : CallOf r q.timeout q.retryTimes s := fun y hy => by
    obtain rfl := Option.some.inj (hq.symm.trans hy)
    exact ⟨rfl, rfl⟩
  have hall : Along (clientStep e)
      (fun s _ => CallOf r q.timeout q.retryTimes s ∧ r < s.fresh) s ops := by
    refine Along.of_inv (fun s op s' _ h hstep => ?_) ⟨hself, hr⟩ ops
    exact (callOf_keeps r q.timeout q.retryTimes).step op.meets hstep h fun x s1 y _ h1 hy =>
      ⟨h1.1.setRequest hy rfl rfl, h1.2⟩
  exact hall.mono fun _ _ h => h.1

theorem sioRpcClientNew_periods (r : RpcRef) (timeout retryTimes maxPending : Nat) :
    Periods r timeout retryTimes 0 (sioRpcClientNew maxPending) :=
  ⟨nofun, fun _ => ⟨rfl, rfl⟩, fun _ => ⟨rfl, rfl⟩⟩

/-- At most retry_times periods are armed for a call before its callback exactly if its timer runs
out less often than that: the last retry is made when retry_times periods are over. -/
theorem rpc_periods (e : ByteOrder) (maxPending : Nat) {ops : List ClientOp} {s : RpcClient}
    {rets : List Unit} {r : RpcRef} {timeout retryTimes : Nat}
    (hops : Along (clientStep e) (ClientFits False) (sioRpcClientNew maxPending) ops)
    (hrun : run (clientStep e) (sioRpcClientNew maxPending) ops = some (s, rets))
    (hcall : Along (clientStep e) (fun s _ => CallOf r timeout retryTimes s)
      (sioRpcClientNew maxPending) ops) (hpos : 1 ≤ retryTimes) :
    armedPeriods r timeout s.log ≤ retryTimes ↔
      runCount (clientStep e) (fun s op => op.Expires r s) (sioRpcClientNew maxPending) ops
        < retryTimes := by
  have hkeeps := run_counts
    (fun s n => s.Inv (RpcView.any e) Underway.none ∧ Periods r timeout retryTimes n s)
    (fun s op => op.Expires r s) (fun s n op s' _ h hop hstep => ?_)
    ⟨sioRpcClientNew_inv _ (fun _ => trivial) maxPending,
      sioRpcClientNew_periods r timeout retryTimes maxPending⟩ (hops.inter hcall) hrun
  · rw [Nat.zero_add] at hkeeps
    exact hkeeps.2.bound hpos
  · refine ⟨?_, clientStep_periods hpos h.1 h.2 hop.2 hstep⟩
    rcases clientStep_spec h.1 hop.1 fun _ _ _ _ _ _ _ => trivial with
      ⟨hnone, -⟩ | ⟨-, s1, hs1, h1⟩
    · cases hstep.symm.trans hnone
    · obtain ⟨rfl, -⟩ := Prod.mk.inj (Option.some.inj (hs1.symm.trans hstep))
      exact h1

/-- A call is made with 300 and 3, as the test does; there is no upstream, and its timer runs out
three times. -/
def periodsSampleOps : List ClientOp :=
  [.call ⟨3, 300, 3, [8, 9], clientSampleEnv⟩,
    .timer (.request 0) (fun _ => []) clientSampleEnv,
    .timer (.request 0) (fun _ => []) clientSampleEnv,
    .timer (.request 0) (fun _ => []) clientSampleEnv]

theorem periodsSampleOps_fits (e : ByteOrder) (s : RpcClient) :
    Along (clientStep e) (ClientFits False) s periodsSampleOps := by
  have htimer : ∀ s1, ClientFits False s1 (.timer (.request 0) (fun _ => []) clientSampleEnv) :=
    fun s1 => ⟨fun _ _ ha => absurd ha List.not_mem_nil, fun _ _ _ _ => clientSampleEnv_ok _ _⟩
  refine Along.of_all fun s op hop => ?_
  simp only [periodsSampleOps, List.mem_cons, List.not_mem_nil, or_false] at hop
  rcases hop with rfl | rfl | rfl | rfl
  · exact clientSampleEnv_ok _ _
  · exact htimer s
  · exact htimer s
  · exact htimer s

theorem rpc_periods_sample : ∃ s rets,
    run (clientStep .little) (sioRpcClientNew 4096) periodsSampleOps = some (s, rets) ∧
      (armedPeriods 0 300 s.log ≤ 3 ↔ runCount (clientStep .little) (fun s op => op.Expires 0 s)
        (sioRpcClientNew 4096) periodsSampleOps < 3) :=
  ⟨_, _, rfl, rpc_periods .little 4096 (periodsSampleOps_fits .little _) rfl
    (by decide) (by decide)⟩

/-- Four periods are armed. -/
theorem rpc_periods_one_more :
    Along (clientStep .little) (ClientFits False) (sioRpcClientNew 4096) periodsSampleOps ∧
      Along (clientStep .little) (fun s _ => CallOf 0 300 3 s) (sioRpcClientNew 4096)
        periodsSampleOps ∧
      ∃ s rets, run (clientStep .little) (sioRpcClientNew 4096) periodsSampleOps = some (s, rets) ∧
        armedPeriods 0 300 s.log = 4 ∧ ¬ armedPeriods 0 300 s.log ≤ 3 :=
  ⟨periodsSampleOps_fits .little _, by decide, _, _, rfl, by decide, by decide⟩

end Run

end SimpleKit
