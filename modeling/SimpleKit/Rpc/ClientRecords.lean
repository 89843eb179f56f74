import SimpleKit.Rpc.ClientSend

set_option autoImplicit false

namespace SimpleKit
open Linking
namespace RpcClient

variable {w : RpcView} {p : Underway} {s s' : RpcClient} {u r st : RpcRef} {q : RpcRequest}
  {loose unarmed : List RpcRef}

theorem Wires.quiet (h : s.Wires w p) (hup : s'.upstream = s.upstream)
    (hstream : s'.stream = s.stream) {more : List ClientEvent} (hlog : s'.log = s.log ++ more)
    (hmore : ∀ st, sendsOn st more = []) : s'.Wires w p := by
  have hsends : ∀ st, sendsOn st s'.log = sendsOn st s.log := by
    intro st
    rw [hlog, sendsOn_append, hmore, List.append_nil]
  have hwires : ∀ st, wiresOn w.order st s'.log = wiresOn w.order st s.log := by
    intro st
    rw [wiresOn, hsends, wiresOn]
  have hopen : ∀ st, s'.openStream st = s.openStream st := by
    intro st
    rw [openStream, hstream, openStream]
  have hof : ∀ v st, s'.StreamOf v st ↔ s.StreamOf v st := by
    intro v st
    rw [StreamOf, hup, StreamOf]
  refine ⟨fun v vp st hv hst => ?_, fun v vp st k x hv hst hk => ?_, fun v st hv => ?_,
    fun st x hx => ?_, fun st x hx hp => ?_, fun hl st x hx hc hp => ?_, fun st i x f hf => ?_⟩
  · rw [hup] at hv
    rw [hsends]
    exact h.sent v vp st hv hst
  · rw [hup] at hv
    rw [hsends]
    exact h.waiting v vp st k x hv hst hk
  · rw [hopen]
    exact h.stream v st ((hof v st).mp hv)
  · rw [hopen] at hx
    obtain ⟨h1, h2, h3⟩ := h.owner st x hx
    exact ⟨h1, h2, (hof _ _).mpr h3⟩
  · rw [hopen] at hx
    rw [hwires]
    exact h.written st x hx hp
  · rw [hstream] at hx
    rw [hwires]
    exact h.closed hl st x hx hc hp
  · rw [hsends] at hf
    obtain ⟨h1, h2, h3⟩ := h.frames st i x f hf
    exact ⟨h1, h2, hlog ▸ List.mem_append_left more h3⟩

section Call

def newCall (s : RpcClient) (q : RpcRequest) : RpcClient :=
  { (({ s with fresh := s.fresh + 1 }.setRequest s.fresh q).startTimer (.request s.fresh)).note
      (.arm s.fresh q.timeout) with reqRecord := s.fresh :: s.reqRecord }.note
    (.call s.fresh q.type q.body)

theorem newCall_request (s : RpcClient) (q : RpcRequest) :
    (s.newCall q).request s.fresh = some q := Function.update_self ..

theorem newCall_log (s : RpcClient) (q : RpcRequest) : (s.newCall q).log =
    s.log ++ [.arm s.fresh q.timeout, .call s.fresh q.type q.body] :=
  List.append_assoc ..

theorem called_newCall : Called r (s.newCall q).log ↔ r = s.fresh ∨ Called r s.log := by
  rw [newCall_log, Called, List.any_append, Bool.or_eq_true, or_comm]
  refine or_congr_left ?_
  simp [ClientEvent.calls, eq_comm]

theorem newCall_get (s : RpcClient) (q : RpcRequest) (x : RpcRef) :
    (s.newCall q).request x = if x = s.fresh then some q else s.request x :=
  Function.update_apply ..

theorem newCall_count (s : RpcClient) (q : RpcRequest) (t : RpcTimer) :
    (s.newCall q).timers.count t =
      s.timers.count t + if RpcTimer.request s.fresh = t then 1 else 0 := by
  change (RpcTimer.request s.fresh :: s.timers).count t = _
  rw [List.count_cons]
  simp

theorem sendsOn_newCall (s : RpcClient) (q : RpcRequest) (st : RpcRef) :
    sendsOn st (s.newCall q).log = sendsOn st s.log := by
  rw [newCall_log, sendsOn_append]
  exact List.append_nil _

theorem Records.newCall (h : s.Records p) (hf : s.Fresh p) (q : RpcRequest) :
    (s.newCall q).Records p := by
  have hmem : s.fresh ∉ s.reqRecord := by
    rw [h.record, hf.request _ (Nat.le_refl _)]
    exact Bool.false_ne_true
  have hunder : ∀ {x}, x ∈ p.loose ∨ x ∈ p.unarmed ∨ x ∈ p.answered → x ≠ s.fresh :=
    fun hx => Nat.ne_of_lt (hf.under _ hx)
  refine ⟨List.nodup_cons.mpr ⟨hmem, h.nodup⟩, fun x => ?_, fun x => ?_, fun x y hy => ?_,
    fun x => ?_, fun x => ?_⟩
  · rw [newCall_get]
    refine List.mem_cons.trans ?_
    split
    · next he => simp [he]
    · next he => simp [he, h.record]
  · rw [newCall_count, h.armed]
    by_cases he : x = s.fresh
    · subst he
      rw [if_neg fun hx => hmem hx.1, if_pos rfl,
        if_pos ⟨List.mem_cons_self, fun hx => hunder (Or.inr (Or.inl hx)) rfl⟩]
    · rw [if_neg (fun hx => he (RpcTimer.request.inj hx).symm), Nat.add_zero]
      refine if_congr (and_congr_left' ?_) rfl rfl
      exact ⟨fun hx => List.mem_cons_of_mem _ hx, fun hx => (List.mem_cons.mp hx).resolve_left he⟩
  · rw [newCall_log]
    rw [newCall_get] at hy
    split at hy
    · next he =>
      cases hy
      rw [he]
      simp
    · exact List.mem_append_left _ (h.called x y hy)
  · rw [newCall_log, List.countP_append]
    have hone : [ClientEvent.arm s.fresh q.timeout, .call s.fresh q.type q.body].countP
        (ClientEvent.calls x) = if s.fresh = x then 1 else 0 := by
      simp [List.countP_cons, ClientEvent.calls]
    rw [hone]
    split
    · next he =>
      have hzero : s.log.countP (ClientEvent.calls x) = 0 := by
        rw [List.countP_eq_zero]
        intro e he' hc
        exact absurd (hf.call x (List.any_eq_true.mpr ⟨e, he', hc⟩)) (he ▸ Nat.lt_irrefl _)
      omega
    · exact h.once x
  · have hans : (s.newCall q).log.countP (ClientEvent.answers x) =
        s.log.countP (ClientEvent.answers x) := by
      rw [newCall_log, List.countP_append]
      rfl
    rw [hans, h.answers]
    by_cases he : x = s.fresh
    · subst he
      rw [if_neg fun hx => absurd (hf.call _ hx.1) (Nat.lt_irrefl _),
        if_neg fun hx => hx.2.elim (fun hno => hno List.mem_cons_self)
          fun hx => hunder (Or.inr (Or.inr hx)) rfl]
    · have hrec : x ∈ (s.newCall q).reqRecord ↔ x ∈ s.reqRecord :=
        List.mem_cons.trans (or_iff_right he)
      have hcall : Called x (s.newCall q).log ↔ Called x s.log :=
        called_newCall.trans (or_iff_right he)
      exact if_congr (and_congr hcall.symm (or_congr_left (not_congr hrec.symm))) rfl rfl

theorem Inv.newCall (h : s.Inv w p) (q : RpcRequest) :
    (s.newCall q).Inv w { p with loose := s.fresh :: p.loose } := by
  have hlink : s.link s.fresh = none := by rw [link, h.fresh.request _ (Nat.le_refl _)]; rfl
  have hwires : (s.newCall q).Wires w p :=
    h.wires.quiet rfl rfl (newCall_log s q) fun st => rfl
  refine ⟨⟨h.links.linked.loosen hlink (fun x hx => ?_) (fun x => List.mem_cons), h.links.idle⟩,
    { hwires with }, { h.records.newCall h.fresh q with },
    ⟨h.ups.nodup, h.ups.array, h.ups.disjoint, fun v => ?_⟩,
    ⟨fun a ha => ?_, fun a ha => h.fresh.upstream a (Nat.le_of_succ_le ha),
      fun a ha => h.fresh.stream a (Nat.le_of_succ_le ha), fun x hx => ?_, fun a ha => ?_,
      fun x hx => ?_⟩,
    ⟨h.reads.input, fun a ha => h.reads.unborn a (Nat.le_of_succ_le ha)⟩, fun x st g hg => ?_⟩
  · rw [link, newCall_get, if_neg hx, link]
  · rw [newCall_count, if_neg (fun hx => by cases hx), Nat.add_zero]
    exact h.ups.ticks v
  · rw [newCall_get, if_neg (Nat.ne_of_gt ha)]
    exact h.fresh.request a (Nat.le_of_succ_le ha)
  · rcases called_newCall.mp hx with rfl | hx
    · exact Nat.lt_succ_self _
    · exact Nat.lt_succ_of_lt (h.fresh.call x hx)
  · rw [sendsOn_newCall]
    exact h.fresh.send a (Nat.le_of_succ_le ha)
  · rw [List.mem_cons, or_assoc] at hx
    rcases hx with rfl | hx
    · exact Nat.lt_succ_self _
    · exact Nat.lt_succ_of_lt (h.fresh.under x hx)
  · rw [sendsOn_newCall]
    refine h.responses x st g ?_
    rw [newCall_log] at hg
    simpa using hg

theorem Inv.tighten (h : s.Inv w { p with loose := r :: loose }) (hr : s.link r = none) :
    s.Inv w { p with loose := loose } := by
  refine ⟨⟨h.links.linked.settle (r := r) List.mem_cons_self (fun x _ => rfl) (fun x hx => ?_)
      (Or.inr hr), h.links.idle⟩, { h.wires with }, { h.records with }, { h.ups with },
    ⟨h.fresh.request, h.fresh.upstream, h.fresh.stream, h.fresh.call, h.fresh.send,
      fun x hx => h.fresh.under x (hx.imp_left (List.mem_cons_of_mem r))⟩,
        { h.reads with }, h.responses⟩
  simp [hx]

end Call
section Timer

theorem Inv.arm (h : s.Inv w p) (r : RpcRef) (timeout : Nat) :
    (s.note (.arm r timeout)).Inv w p := by
  have hcalled : ∀ x, Called x (s.note (.arm r timeout)).log ↔ Called x s.log :=
    fun x => called_append_of_not Bool.false_ne_true
  have hsends : ∀ st, sendsOn st (s.note (.arm r timeout)).log = sendsOn st s.log :=
    fun st => (sendsOn_append ..).trans (List.append_nil _)
  refine ⟨{ h.links with }, h.wires.quiet rfl rfl rfl fun st => rfl,
    ⟨h.records.nodup, h.records.record, h.records.armed, fun x y hy => ?_, fun x => ?_,
      fun x => ?_⟩,
    { h.ups with }, ⟨h.fresh.request, h.fresh.upstream, h.fresh.stream, fun x hx => ?_,
      fun a ha => ?_, h.fresh.under⟩, { h.reads with }, fun x st g hg => ?_⟩
  · exact List.mem_append_left _ (h.records.called x y hy)
  · exact (List.countP_append ..).trans_le (h.records.once x)
  · refine (List.countP_append ..).trans ((h.records.answers x).trans ?_)
    exact if_congr (and_congr_left' (hcalled x).symm) rfl rfl
  · exact h.fresh.call x ((hcalled x).mp hx)
  · rw [hsends]
    exact h.fresh.send a ha
  · rw [hsends]
    refine h.responses x st g ?_
    simpa [note] using hg

theorem Inv.startRequest (h : s.Inv w { p with unarmed := r :: unarmed }) (hr : r ∈ s.reqRecord)
    (hno : r ∉ unarmed) : (s.startTimer (.request r)).Inv w { p with unarmed := unarmed } := by
  have hcount : ∀ t, (s.startTimer (.request r)).timers.count t =
      s.timers.count t + if RpcTimer.request r = t then 1 else 0 := by
    intro t
    rw [startTimer, List.count_cons]
    simp
  refine ⟨{ h.links with }, { h.wires with },
    ⟨h.records.nodup, h.records.record, fun x => ?_, h.records.called, h.records.once,
      h.records.answers⟩,
    ⟨h.ups.nodup, h.ups.array, h.ups.disjoint, fun v => ?_⟩,
    ⟨h.fresh.request, h.fresh.upstream, h.fresh.stream, h.fresh.call, h.fresh.send,
      fun x hx => h.fresh.under x (hx.imp_right fun hx => hx.imp_left (List.mem_cons_of_mem r))⟩,
    { h.reads with }, h.responses⟩
  · rw [hcount, h.records.armed]
    by_cases he : x = r
    · subst he
      rw [if_neg fun hx => hx.2 List.mem_cons_self, if_pos rfl]
      exact (if_pos ⟨hr, hno⟩).symm
    · rw [if_neg (fun hx => he (RpcTimer.request.inj hx).symm), Nat.add_zero]
      refine if_congr (and_congr_right' (not_congr ?_)) rfl rfl
      exact List.mem_cons.trans (or_iff_right he)
  · rw [hcount, if_neg nofun]
    exact h.ups.ticks v

theorem Inv.stopRequest (h : s.Inv w p) (hr : r ∈ s.reqRecord) (hno : r ∉ p.unarmed) :
    s.stopTimer (.request r) = some { s with timers := s.timers.erase (.request r) } ∧
      { s with timers := s.timers.erase (.request r) }.Inv w
        { p with unarmed := r :: p.unarmed } := by
  have hone : s.timers.count (.request r) = 1 := (h.records.armed r).trans (if_pos ⟨hr, hno⟩)
  have hmem : RpcTimer.request r ∈ s.timers := List.count_pos_iff.mp (by omega)
  refine ⟨if_pos hmem, { h.links with }, { h.wires with },
    ⟨h.records.nodup, h.records.record, fun x => ?_, h.records.called, h.records.once,
      h.records.answers⟩,
    ⟨h.ups.nodup, h.ups.array, h.ups.disjoint, fun v => ?_⟩,
    ⟨h.fresh.request, h.fresh.upstream, h.fresh.stream, h.fresh.call, h.fresh.send,
      fun x hx => ?_⟩, { h.reads with }, h.responses⟩
  · by_cases he : x = r
    · subst he
      refine (List.count_erase_self ..).trans ?_
      rw [hone]
      exact (if_neg fun hx => hx.2 List.mem_cons_self).symm
    · refine (List.count_erase_of_ne fun hx => he (RpcTimer.request.inj hx)).trans ?_
      rw [h.records.armed]
      refine if_congr (and_congr_right' (not_congr ?_)) rfl rfl
      exact (List.mem_cons.trans (or_iff_right he)).symm
  · have hne : RpcTimer.upstream v ≠ RpcTimer.request r := nofun
    exact (List.count_erase_of_ne hne).trans (h.ups.ticks v)
  · rcases hx with hx | hx | hx
    · exact h.fresh.under x (Or.inl hx)
    · rcases List.mem_cons.mp hx with rfl | hx
      · obtain ⟨q, hq⟩ := Option.isSome_iff_exists.mp ((h.records.record x).mp hr)
        exact h.fresh.lt_request hq
      · exact h.fresh.under x (Or.inr (Or.inl hx))
    · exact h.fresh.under x (Or.inr (Or.inr hx))

end Timer

section Answer

theorem Inv.answered (h : s.Inv w p) (hr : r ∈ s.reqRecord) (hno : r ∉ p.answered)
    {e : ClientEvent} (hans : ∀ x, e.answers x = decide (r = x)) (hcalls : ∀ x, e.calls x = false)
    (hsend : ∀ st, sendsOn st [e] = [])
    (hresp : ∀ x st g, e = .response x st g → w.received st g ∧
      ∃ f, (sendsOn st s.log)[g.head.id.toNat]? = some (x, f) ∧ g.head.type = f.head.type) :
    (s.note e).Inv w { p with answered := r :: p.answered } := by
  have hcalled : ∀ x, Called x (s.note e).log ↔ Called x s.log := by
    intro x
    refine called_append_of_not ?_
    simp [Called, hcalls]
  have hsends : ∀ st, sendsOn st (s.note e).log = sendsOn st s.log := by
    intro st
    refine (sendsOn_append ..).trans ?_
    rw [hsend, List.append_nil]
  have hwires : (s.note e).Wires w p := h.wires.quiet rfl rfl rfl hsend
  obtain ⟨q, hq⟩ := Option.isSome_iff_exists.mp ((h.records.record r).mp hr)
  have hcall : Called r s.log := called_iff.mpr ⟨_, _, h.records.called r q hq⟩
  refine ⟨{ h.links with }, { hwires with },
    ⟨h.records.nodup, h.records.record, h.records.armed, fun x y hy => ?_, fun x => ?_,
      fun x => ?_⟩,
    { h.ups with }, ⟨h.fresh.request, h.fresh.upstream, h.fresh.stream, fun x hx => ?_,
      fun a ha => ?_, fun x hx => ?_⟩, { h.reads with }, fun x st g hg => ?_⟩
  · exact List.mem_append_left _ (h.records.called x y hy)
  · refine (List.countP_append ..).trans_le ?_
    rw [List.countP_singleton, hcalls]
    exact h.records.once x
  · refine (List.countP_append ..).trans ?_
    rw [List.countP_singleton, h.records.answers, hans]
    by_cases he : x = r
    · subst he
      rw [if_neg fun hx => hx.2.elim (fun hout => hout hr) hno, if_pos (decide_eq_true rfl)]
      exact (if_pos ⟨(hcalled x).mpr hcall, Or.inr List.mem_cons_self⟩).symm
    · rw [if_neg (c := decide (r = x) = true) (by simpa [eq_comm] using he), Nat.add_zero]
      refine if_congr (and_congr (hcalled x).symm (or_congr_right ?_)) rfl rfl
      exact (List.mem_cons.trans (or_iff_right he)).symm
  · exact h.fresh.call x ((hcalled x).mp hx)
  · rw [hsends]
    exact h.fresh.send a ha
  · rcases hx with hx | hx | hx
    · exact h.fresh.under x (Or.inl hx)
    · exact h.fresh.under x (Or.inr (Or.inl hx))
    · rcases List.mem_cons.mp hx with rfl | hx
      · exact h.fresh.lt_request hq
      · exact h.fresh.under x (Or.inr (Or.inr hx))
  · rw [hsends]
    rcases List.mem_append.mp hg with hg | hg
    · exact h.responses x st g hg
    · exact hresp x st g (List.mem_singleton.mp hg).symm

theorem Inv.freeCall (h : s.Inv w p) (hr : r ∈ s.reqRecord) (hno : ∀ u k, s.table u k ≠ some r)
    (hloose : ∀ x ∈ p.loose, x = r) (hunarmed : ∀ x, x ∈ p.unarmed ↔ x = r)
    (hanswered : ∀ x, x ∈ p.answered ↔ x = r) :
    ∃ s', sioRpcFreeCall s r = some s' ∧
      s'.Inv w { p with loose := [], unarmed := [], answered := [] } ∧
      s'.reqRecord = s.reqRecord.erase r ∧ s'.upstream = s.upstream ∧ s'.stream = s.stream ∧
      s'.log = s.log := by
  have hmem : ∀ x, x ∈ s.reqRecord.erase r ↔ x ≠ r ∧ x ∈ s.reqRecord :=
    fun x => h.records.nodup.mem_erase_iff
  have hrequest : ∀ x, Function.update s.request r none x = if x = r then none else s.request x :=
    fun x => Function.update_apply ..
  refine ⟨_, if_pos hr, ⟨⟨fun v l x => ?_, h.links.idle⟩, { h.wires with },
    ⟨h.records.nodup.erase r, fun x => ?_, fun x => ?_, fun x y hy => ?_, h.records.once,
      fun x => ?_⟩,
    { h.ups with }, ⟨fun a ha => ?_, h.fresh.upstream, h.fresh.stream, h.fresh.call,
      h.fresh.send, by simp⟩, { h.reads with }, h.responses⟩, rfl, rfl, rfl, rfl⟩
  · change s.table v l = some x ↔ ¬ x ∈ [] ∧ (Function.update s.request r none x).bind _ = _
    rw [hrequest]
    by_cases he : x = r
    · rw [if_pos he, he]
      exact ⟨fun hx => absurd hx (hno v l), fun hx => by cases hx.2⟩
    · rw [if_neg he, h.links.linked]
      exact and_congr_left' (iff_of_true (fun hx => he (hloose x hx)) List.not_mem_nil)
  · rw [hmem, h.records.record]
    change _ ↔ (Function.update s.request r none x).isSome
    rw [hrequest]
    split
    · next he => simp [he]
    · next he => simp [he]
  · refine (h.records.armed x).trans (if_congr ?_ rfl rfl)
    rw [hmem, hunarmed]
    simp [and_comm]
  · change Function.update s.request r none x = some y at hy
    rw [hrequest] at hy
    split at hy
    · cases hy
    · exact h.records.called x y hy
  · refine (h.records.answers x).trans (if_congr (and_congr_right' ?_) rfl rfl)
    rw [hmem, hanswered, not_and_or, not_not]
    simp [or_comm]
  · change Function.update s.request r none a = none
    rw [hrequest, h.fresh.request a ha, ite_self]

end Answer

end RpcClient

open RpcClient

section Functions
variable {w : RpcView} {p : Underway} {s : RpcClient} {u r st : RpcRef} {q : RpcRequest}
  {env : RpcEnv}

def CallArgs.Loses (args : CallArgs) (s : RpcClient) (st : RpcRef) : Prop :=
  ∃ s1 u, sioRpcChooseUpstream s args.env = some (s1, some u) ∧ s1.StreamOf u st ∧
    ∃ x, s1.openStream st = some x ∧ args.env.Refused x.io

theorem sioRpcCall_spec (h : s.Inv w p) (hgone : p.gone = []) (hwr : p.writing = [])
    {args : CallArgs} (henv : args.env.Ok w.lasting args.body.length) :
    ∃ s', sioRpcCall w.order s args = some s' ∧ s'.Inv w p ∧ s.reqRecord ⊆ s'.reqRecord ∧
      s.KeepsBut (args.Loses s) s' := by
  obtain ⟨s1, found, hchoose, h1, hsame, hkeep, hfound⟩ :=
    sioRpcChooseUpstream_spec h hgone args.env
  generalize hq :
    (⟨0, args.type, args.body, 0, args.retryTimes, args.timeout, found⟩ : RpcRequest) = q
  have hmem : s1.fresh ∉ s1.reqRecord := by
    rw [h1.records.record, h1.fresh.request _ (Nat.le_refl _)]
    nofun
  have hrun : sioRpcCall w.order s args =
      match found with
      | none => some (s1.newCall q)
      | some u => sioRpcCallOrClear w.order (s1.newCall q) u s1.fresh args.env := by
    subst hq
    unfold sioRpcCall
    simp only [hchoose, Option.bind_eq_bind, Option.bind_some]
    refine (if_neg hmem).trans ?_
    cases found <;> rfl
  have h2 := h1.newCall q
  have hsub : s.reqRecord ⊆ (s1.newCall q).reqRecord := by
    rw [← hsame.reqRecord]
    exact List.subset_cons_self ..
  have hkeep2 : s.KeepsStreams (s1.newCall q) :=
    hkeep.trans (KeepsStreams.of_stream rfl (fun _ _ => id) (Nat.le_succ _))
  have hq2 : (s1.newCall q).request s1.fresh = some q := newCall_request ..
  rw [hrun]
  cases found with
  | none =>
    refine ⟨_, rfl, h2.tighten ?_, hsub, hkeep2.congr fun st => iff_of_false ?_ id⟩
    · rw [link_eq hq2, ← hq]
      rfl
    · rintro ⟨_, _, hchoose', -⟩
      rw [hchoose] at hchoose'
      cases hchoose'
  | some u =>
    obtain ⟨st, hst⟩ := hfound u rfl
    have hno : s1.fresh ∉ p.loose := fun hx =>
      Nat.lt_irrefl _ (h1.fresh.under _ (Or.inl hx))
    have hst2 : (s1.newCall q).StreamOf u st := hst
    have henv' : args.env.Ok w.lasting q.body.length := by
      rw [← hq]
      exact henv
    obtain ⟨s', hrun', h', hsame', hkeep'⟩ := sioRpcCallOrClear_spec h2 hno hwr hst2 hq2
      (by rw [← hq]) henv'
    refine ⟨s', hrun', h', ?_, (hkeep2.trans hkeep').congr fun st' => ?_⟩
    · rw [hsame']
      exact hsub
    · constructor
      · rintro ⟨_, _, hchoose', hof', hx⟩
        rw [hchoose] at hchoose'
        cases hchoose'
        obtain rfl : st' = st := by
          obtain ⟨up, hu, hup⟩ := hst
          exact Option.some.inj ((hof'.upstream hu).symm.trans hup)
        exact ⟨rfl, hx⟩
      · rintro ⟨rfl, hx⟩
        exact ⟨s1, u, hchoose, hst, hx⟩

theorem sioRpcCancel_spec (h : s.Inv w p) (hr : r ∈ s.reqRecord) (hno : r ∉ p.loose) :
    ∃ s' q, sioRpcCancel s r = some s' ∧ s'.Inv w p ∧ s'.reqRecord = s.reqRecord ∧
      s'.request r = some q ∧ q.upstream = none ∧
      ∀ q', s.request r = some q' → q = { q' with upstream := none } := by
  obtain ⟨q, hq⟩ := Option.isSome_iff_exists.mp ((h.records.record r).mp hr)
  unfold sioRpcCancel
  simp only [hq, Option.bind_eq_bind, Option.bind_some]
  cases hup : q.upstream with
  | none =>
    refine ⟨s, q, rfl, h, rfl, hq, hup, ?_⟩
    rintro _ ⟨⟩
    cases q
    cases hup
    rfl
  | some u =>
    have htable : s.table u q.id = some r := by
      refine (h.links.linked u q.id r).mpr ⟨hno, ?_⟩
      rw [link_eq hq, hup]
      rfl
    obtain ⟨up, hu, hk⟩ := Option.bind_eq_some_iff.mp htable
    have hmem : q.id ∈ up.reqStatus := AList.lookup_isSome.mp (by rw [hk]; rfl)
    simp only [hu, Option.bind_some, if_pos hmem]
    have hq1 : (s.setUpstream u { up with reqStatus := up.reqStatus.erase q.id }).request r =
      some q := hq
    exact ⟨_, _, rfl, (h.pull hu hk).settle hq1 rfl rfl rfl, rfl,
      (request_setRequest ..).trans (if_pos rfl), rfl, by rintro _ ⟨⟩; rfl⟩

theorem sioRpcRetry_spec (h : s.Inv w { p with unarmed := [r] }) (hgone : p.gone = [])
    (hwr : p.writing = []) (hun : p.unarmed = []) (hno : r ∉ p.loose) (hq : s.request r = some q)
    (hup : q.upstream = none) (henv : env.Ok w.lasting q.body.length) :
    ∃ s', sioRpcRetry w.order s r env = some s' ∧ s'.Inv w p ∧ s'.reqRecord = s.reqRecord := by
  have hmem : r ∈ s.reqRecord := (h.records.record r).mpr (by rw [hq]; rfl)
  have h1 : (s.startTimer (.request r)).Inv w { p with unarmed := [] } :=
    Inv.startRequest (p := p) h hmem List.not_mem_nil
  rw [← hun] at h1
  obtain ⟨s2, found, hchoose, h2, hsame, -, hfound⟩ :=
    sioRpcChooseUpstream_spec (h1.arm r q.timeout) hgone env
  have hq2 : s2.request r = some q := by
    rw [hsame.request]
    exact hq
  unfold sioRpcRetry
  simp only [hq, Option.bind_eq_bind, Option.bind_some, hchoose, hq2]
  have h3 := (h2.loosen hq2 hup).retarget hq2 List.mem_cons_self { q with upstream := found }
    rfl rfl
  have hq3 : (s2.setRequest r { q with upstream := found }).request r =
      some { q with upstream := found } := (request_setRequest ..).trans (if_pos rfl)
  cases found with
  | none =>
    refine ⟨_, rfl, h3.tighten ?_, hsame.reqRecord⟩
    rw [link_eq hq3]
    rfl
  | some u =>
    obtain ⟨st, hst⟩ := hfound u rfl
    have hst3 : (s2.setRequest r { q with upstream := some u }).StreamOf u st := hst
    obtain ⟨s', hrun, h', hsame', -⟩ := sioRpcCallOrClear_spec h3 hno hwr hst3 hq3 rfl henv
    exact ⟨s', hrun, h', hsame'.trans hsame.reqRecord⟩

end Functions

end SimpleKit
