import SimpleKit.Rpc.ClientUpstreams

set_option autoImplicit false

namespace SimpleKit
open Runs Framing Linking
open RpcClient

def ClientAct.Ok (lasting : Prop) : ClientAct → Prop
  | .call args => args.env.Ok lasting args.body.length
  | .addUpstream _ _ _ => True

def ClientAct.NoFail : ClientAct → Prop
  | .call args => args.env.NoFail
  | .addUpstream _ _ _ => True

def ClientAct.Loses (act : ClientAct) (s : RpcClient) (st : RpcRef) : Prop :=
  match act with
  | .call args => args.Loses s st
  | .addUpstream _ _ _ => False

theorem ClientAct.NoFail.not_loses {act : ClientAct} (h : act.NoFail) (s : RpcClient)
    (st : RpcRef) : ¬ act.Loses s st := by
  cases act with
  | call args => exact fun ⟨_, _, _, _, x, _, hr⟩ => RpcEnv.NoFail.not_refused h x.io hr
  | addUpstream ip port env => exact id

variable {w : RpcView} {p : Underway} {s : RpcClient} {u r st : RpcRef} {up : RpcUpstream}
  {q : RpcRequest}

theorem clientAct_spec (h : s.Inv w ⟨p.loose, p.unarmed, p.answered, [], [], [], []⟩)
    {act : ClientAct} (hact : act.Ok w.lasting) :
    ∃ s', clientAct w.order s act = some s' ∧
      s'.Inv w ⟨p.loose, p.unarmed, p.answered, [], [], [], []⟩ ∧ s.reqRecord ⊆ s'.reqRecord ∧
      s.KeepsBut (act.Loses s) s' := by
  cases act with
  | call args => exact sioRpcCall_spec h rfl rfl hact
  | addUpstream ip port env => exact sioRpcAddUpstream_spec h rfl rfl rfl ip port env

/-- The stream `st` of `u`, if it is still open, is as it was to who reads from it. -/
def RpcClient.Walks (s : RpcClient) (u st : RpcRef) (inbuf : SioBuffer) : Prop :=
  st < s.fresh ∧ ∀ y, s.openStream st = some y → y.io.inbuf = inbuf ∧ s.StreamOf u st

theorem RpcClient.KeepsBut.walks {lost : RpcRef → Prop} {s' : RpcClient} {inbuf : SioBuffer}
    (h : s.KeepsBut lost s') (hwalk : s.Walks u st inbuf) :
    s'.Walks u st inbuf ∧
      ((s'.openStream st).isSome ↔ (s.openStream st).isSome ∧ ¬ lost st) := by
  obtain ⟨hst, hopen⟩ := hwalk
  have hst' := Nat.lt_of_lt_of_le hst h.fresh
  by_cases hgone : s.openStream st = none ∨ lost st
  · have hnone := h.gone st hst hgone
    refine ⟨⟨hst', fun y hy => ?_⟩, iff_of_false (by rw [hnone]; nofun) fun hk => ?_⟩
    · rw [hnone] at hy
      cases hy
    · rcases hgone with hg | hg
      · rw [hg] at hk
        exact absurd hk.1 (by decide)
      · exact hk.2 hg
  · rw [not_or] at hgone
    obtain ⟨x, hx⟩ := Option.ne_none_iff_exists'.mp hgone.1
    obtain ⟨hin, hof⟩ := hopen x hx
    obtain ⟨y, hy, hin'⟩ := h.inbuf st x hx hgone.2
    refine ⟨⟨hst', fun z hz => ?_⟩,
      iff_of_true (by rw [hy]; rfl) ⟨by rw [hx]; rfl, hgone.2⟩⟩
    obtain rfl := Option.some.inj (hy.symm.trans hz)
    exact ⟨hin'.trans hin, h.streamOf u st hof hgone.2⟩

/-- What callbacks do is never stuck; a stream is lost with the first call that is refused on
it. -/
theorem clientActs_along (h : s.Inv w ⟨p.loose, p.unarmed, p.answered, [], [], [], []⟩)
    {acts : List ClientAct} (hacts : ∀ act ∈ acts, act.Ok w.lasting) {inbuf : SioBuffer}
    (hwalk : s.Walks u st inbuf) :
    ∃ s', acts.foldlM (clientAct w.order) s = some s' ∧
      (s'.Inv w ⟨p.loose, p.unarmed, p.answered, [], [], [], []⟩ ∧ s.reqRecord ⊆ s'.reqRecord ∧
        s'.Walks u st inbuf) ∧
      ((s'.openStream st).isSome ↔ (s.openStream st).isSome ∧
        Along (plain (clientAct w.order)) (fun s act => ¬ act.Loses s st) s acts) :=
  foldlM_along (fun s1 : RpcClient => s1.Inv w ⟨p.loose, p.unarmed, p.answered, [], [], [], []⟩ ∧
      s.reqRecord ⊆ s1.reqRecord ∧ s1.Walks u st inbuf)
    (fun s1 : RpcClient => (s1.openStream st).isSome) (fun s act => ¬ act.Loses s st)
    (fun s1 act ⟨h1, hsub, hw⟩ (hact : act.Ok w.lasting) => by
      obtain ⟨s2, hrun, h2, hsub2, hkeep⟩ := clientAct_spec h1 hact
      exact ⟨s2, hrun, ⟨h2, List.Subset.trans hsub hsub2, (hkeep.walks hw).1⟩, (hkeep.walks hw).2⟩)
    ⟨h, List.Subset.refl _, hwalk⟩ (Along.of_forall hacts)

theorem clientActs_spec (h : s.Inv w ⟨p.loose, p.unarmed, p.answered, [], [], [], []⟩)
    {acts : List ClientAct} (hacts : ∀ act ∈ acts, act.Ok w.lasting) :
    ∃ s', acts.foldlM (clientAct w.order) s = some s' ∧
      s'.Inv w ⟨p.loose, p.unarmed, p.answered, [], [], [], []⟩ ∧
      s.reqRecord ⊆ s'.reqRecord :=
  foldlM_invariant (fun s1 : RpcClient =>
    s1.Inv w ⟨p.loose, p.unarmed, p.answered, [], [], [], []⟩ ∧
      s.reqRecord ⊆ s1.reqRecord)
    (fun s1 act ⟨h1, hsub⟩ (hact : act.Ok w.lasting) => by
      obtain ⟨s2, hrun, h2, hsub2, -⟩ := clientAct_spec h1 hact
      exact ⟨s2, hrun, h2, List.Subset.trans hsub hsub2⟩)
    ⟨h, List.Subset.refl _⟩ hacts

section Response
variable {acts : RpcRef → List ClientAct} {f : Frame}

def RpcClient.answering (s : RpcClient) (u r st : RpcRef) (up : RpcUpstream) (f : Frame) :
    RpcClient :=
  (s.setUpstream u { up with reqStatus := up.reqStatus.erase f.head.id.toNat }).note
    (.response r st f)

/-- Each thing that the callback of a request does, if a frame is its response, meets `cond`. -/
def ResponseAlong (e : ByteOrder) (u st : RpcRef) (acts : RpcRef → List ClientAct)
    (cond : RpcClient → ClientAct → Prop) (s : RpcClient) (f : Frame) : Prop :=
  ∀ up r q, s.upstream u = some up → up.reqStatus.lookup f.head.id.toNat = some r →
    s.request r = some q → f.head.type = q.type →
    Along (plain (clientAct e)) cond (s.answering u r st up f) (acts r)

theorem ResponseAlong.of_all {e : ByteOrder} {cond : RpcClient → ClientAct → Prop}
    (h : ∀ s r, ∀ act ∈ acts r, cond s act) (u st : RpcRef) (s : RpcClient) (f : Frame) :
    ResponseAlong e u st acts cond s f := fun _ r _ _ _ _ _ => Along.of_all fun s' => h s' r

/-- A frame is handled: it is stuck exactly if the stream it came on is closed by it. -/
theorem sioRpcHandleResponse_spec (h : s.Inv w Underway.none) (hof : s.StreamOf u st)
    {x : RpcStream} (hx : s.openStream st = some x) (hrec : w.received st f)
    (hacts : ∀ r, ∀ act ∈ acts r, act.Ok w.lasting) :
    sioRpcHandleResponse w.order u st acts s f = none ∧
        ¬ ResponseAlong w.order u st acts (fun s act => ¬ act.Loses s st) s f ∨
      ResponseAlong w.order u st acts (fun s act => ¬ act.Loses s st) s f ∧
        ∃ s', sioRpcHandleResponse w.order u st acts s f = some s' ∧ s'.Inv w Underway.none ∧
          s'.StreamOf u st ∧ ∃ y, s'.openStream st = some y ∧ y.io.inbuf = x.io.inbuf := by
  obtain ⟨up, hu, hst⟩ := hof
  have hhandle : ∀ r q, up.reqStatus.lookup f.head.id.toNat = some r → s.request r = some q →
      (f.head.type = q.type → ∀ cond, ResponseAlong w.order u st acts cond s f ↔
        Along (plain (clientAct w.order)) cond (s.answering u r st up f) (acts r)) := by
    refine fun r q hk hq htype cond => ⟨fun ha => ha up r q hu hk hq htype, ?_⟩
    rintro ha _ _ _ hu' hk' - -
    obtain rfl := Option.some.inj (hu.symm.trans hu')
    obtain rfl := Option.some.inj (hk.symm.trans hk')
    exact ha
  unfold sioRpcHandleResponse
  simp only [hu, Option.bind_eq_bind, Option.bind_some]
  cases hk : up.reqStatus.lookup f.head.id.toNat with
  | none =>
    refine Or.inr ⟨fun up' r' q' hu' hk' => ?_, s, rfl, h, ⟨up, hu, hst⟩, x, hx, rfl⟩
    obtain rfl := Option.some.inj (hu.symm.trans hu')
    rw [hk] at hk'
    cases hk'
  | some r =>
    dsimp only
    have htable : s.table u f.head.id.toNat = some r := (table_eq hu _).trans hk
    obtain ⟨q, hq, -⟩ := Option.bind_eq_some_iff.mp ((h.links.linked _ _ r).mp htable).2
    have halong := hhandle r q hk hq
    have h1 := h.pull hu hk
    generalize hs1 : s.setUpstream u { up with reqStatus := up.reqStatus.erase f.head.id.toNat } =
      s1 at h1
    have hans : s.answering u r st up f = s1.note (.response r st f) := by rw [← hs1]; rfl
    have hq1 : s1.request r = some q := by rw [← hs1]; exact hq
    have hlog : s1.log = s.log := by rw [← hs1]; rfl
    have hx1 : s1.openStream st = some x := by rw [← hs1]; exact hx
    have hof1 : s1.StreamOf u st := by
      rw [← hs1]
      exact streamOf_setUpstream.mpr ((if_pos rfl).mpr hst)
    have hr1 : r ∈ s1.reqRecord := (h1.records.record r).mpr (by rw [hq1]; rfl)
    simp only [hq1, Option.bind_some]
    split
    · next htype =>
      rw [halong htype, hans]
      obtain ⟨g, hg⟩ := h.wires.waiting u up st _ r hu hst hk
      have hgtype : g.head.type = q.type :=
        (h.records.call_unique (h.wires.frames st _ r g hg).2.2 (h.records.called r q hq)).1
      have h2 := h1.answered (e := .response r st f) hr1 List.not_mem_nil (fun x => rfl)
        (fun x => rfl) (fun x => rfl) (by
          rintro x st' g' ⟨⟩
          exact ⟨hrec, g, by rw [hlog]; exact hg, htype.trans hgtype.symm⟩)
      have hwalk : (s1.note (.response r st f)).Walks u st x.io.inbuf := by
        refine ⟨h2.fresh.lt_stream (openStream_some.mp hx1).1, fun y hy => ?_⟩
        obtain rfl := Option.some.inj (hx1.symm.trans hy)
        exact ⟨rfl, hof1⟩
      obtain ⟨s3, hrun3, ⟨h3, hsub3, hwalk3⟩, halive⟩ :=
        clientActs_along (p := ⟨[r], [], [r], [], [], [], []⟩) h2 (hacts r) hwalk
      have hr3 : r ∈ s3.reqRecord := hsub3 hr1
      obtain ⟨hstop, h4⟩ := h3.stopRequest hr3 List.not_mem_nil
      obtain ⟨s5, hfree, h5, -, hups5, hstreams5, -⟩ := h4.freeCall hr3
        (fun v k hv => ((h4.links.linked v k r).mp hv).1 List.mem_cons_self)
        (fun x hx => List.mem_singleton.mp hx) (fun x => List.mem_singleton)
        (fun x => List.mem_singleton)
      have hopen5 : s5.openStream st = s3.openStream st := by
        rw [openStream, hstreams5]
        rfl
      have hopen1 : (s1.note (.response r st f)).openStream st = some x := hx1
      rw [hopen1, and_iff_right (Option.isSome_some (a := x))] at halive
      simp only [hrun3, hstop, hfree, hopen5, Option.bind_some, ← halive]
      cases hy : s3.openStream st with
      | none => exact Or.inl ⟨rfl, by simp⟩
      | some y =>
        obtain ⟨hin, up3, hu3, hst3⟩ := hwalk3.2 y hy
        exact Or.inr ⟨rfl, s5, rfl, h5, ⟨up3, by rw [hups5]; exact hu3, hst3⟩, y,
          hopen5.trans hy, hin⟩
    · next htype =>
      refine Or.inr ⟨fun up' r' q' hu' hk' hq' htype' => ?_, _, rfl, h1.settle hq1 rfl rfl rfl,
        hof1, x, hx1, rfl⟩
      obtain rfl := Option.some.inj (hu.symm.trans hu')
      obtain rfl := Option.some.inj (hk.symm.trans hk')
      obtain rfl := Option.some.inj (hq.symm.trans hq')
      exact absurd htype' htype

theorem RpcClient.Inv.looping (h : s.Inv w p) (b : Bool) : { s with looping := b }.Inv w p :=
  ⟨{ h.links with }, { h.wires with }, { h.records with }, { h.ups with }, { h.fresh with },
    { h.reads with }, h.responses⟩

/-- Each thing that a callback does while the loop walks over the input of `u` meets `cond`,
which is about the stream. -/
def ResponsesAlong (e : ByteOrder) (fuel : Nat) (u : RpcRef) (acts : RpcRef → List ClientAct)
    (cond : RpcRef → RpcClient → ClientAct → Prop) (s : RpcClient) : Prop :=
  ∀ st x, s.StreamOf u st → s.openStream st = some x →
    ScanAlong (rpcNext e) (sioRpcHandleResponse e u st acts) (ResponseAlong e u st acts (cond st))
      fuel s (sioBufferData x.io.inbuf)

theorem ResponsesAlong.of_all {e : ByteOrder} {cond : RpcRef → RpcClient → ClientAct → Prop}
    (h : ∀ st s r, ∀ act ∈ acts r, cond st s act) (fuel : Nat) (u : RpcRef) (s : RpcClient) :
    ResponsesAlong e fuel u acts cond s := fun st _ _ _ =>
  ScanAlong.of_all (fun s f => ResponseAlong.of_all (h st) u st s f) fuel s _

theorem responsesAlong_iff {e : ByteOrder} {fuel : Nat}
    {cond : RpcRef → RpcClient → ClientAct → Prop} {x : RpcStream} (hof : s.StreamOf u st)
    (hx : s.openStream st = some x) :
    ResponsesAlong e fuel u acts cond s ↔
      ScanAlong (rpcNext e) (sioRpcHandleResponse e u st acts)
        (ResponseAlong e u st acts (cond st)) fuel s (sioBufferData x.io.inbuf) := by
  refine ⟨fun h => h st x hof hx, fun h st' x' hof' hx' => ?_⟩
  obtain ⟨up, hu, hst⟩ := hof
  obtain rfl := Option.some.inj (hst.symm.trans (hof'.upstream hu))
  obtain rfl := Option.some.inj (hx.symm.trans hx')
  exact h

theorem sioRpcUpstreamParseResponse_spec (h : s.Inv w Underway.none) (hof : s.StreamOf u st)
    (hacts : ∀ r, ∀ act ∈ acts r, act.Ok w.lasting) (fuel : Nat) :
    sioRpcUpstreamParseResponse w.order fuel s u acts = none ∧
        ¬ ResponsesAlong w.order fuel u acts (fun st s act => ¬ act.Loses s st) s ∨
      ResponsesAlong w.order fuel u acts (fun st s act => ¬ act.Loses s st) s ∧
        ∃ s' ret, sioRpcUpstreamParseResponse w.order fuel s u acts = some (s', ret) ∧
          s'.Inv w Underway.none ∧ s'.StreamOf u st := by
  obtain ⟨x, hx, -⟩ := h.wires.stream u st hof
  rw [responsesAlong_iff hof hx]
  obtain ⟨up, hu, hst⟩ := hof
  unfold sioRpcUpstreamParseResponse
  simp only [hu, hst, hx, Option.bind_eq_bind, Option.bind_some,
    sioRpcParse_eq w.order _ _ fuel s (Nat.zero_le _), List.drop_zero]
  rcases scan_along
    (fun s1 l => s1.Inv w Underway.none ∧ w.input st l ∧ s1.StreamOf u st ∧
      ∃ y, s1.openStream st = some y ∧ y.io.inbuf = x.io.inbuf)
    (fun _ _ => True) (ResponseAlong w.order u st acts fun s act => ¬ act.Loses s st)
    (fun s1 l f n ⟨h1, hin, hof1, y, hy, hbuf⟩ hl _ => by
      obtain ⟨hrec, hin'⟩ := w.frame st l f n hin hl
      rcases sioRpcHandleResponse_spec h1 hof1 hy hrec hacts with
        hbad | ⟨hc, s2, hrun, h2, hof2, z, hz, hz'⟩
      · exact Or.inl hbad
      · exact Or.inr ⟨hc, s2, hrun, h2, hin', hof2, z, hz, hz'.trans hbuf⟩)
    fuel ⟨h, h.reads.input st x hx, ⟨up, hu, hst⟩, x, hx, rfl⟩
    (ScanAlong.of_all (fun _ _ => trivial) _ _ _) with
    ⟨hnone, hbad⟩ | ⟨hall, s1, left, o, hscan, ⟨l, h1, -, hof1, -⟩, hwait⟩
  · exact Or.inl ⟨by rw [hnone]; rfl, hbad⟩
  · refine Or.inr ⟨hall, ?_⟩
    simp only [hscan, Option.map_some, Option.bind_some]
    cases o with
    | bad => exact ⟨s1, -1, rfl, h1, hof1⟩
    | more => exact ⟨_, 0, rfl, h1.looping true, hof1⟩
    | wait l =>
      obtain ⟨-, hin, -, y, hy, hbuf⟩ := hwait l rfl
      obtain ⟨hsends, hsfd, -⟩ := h1.wires.owner st y hy
      have hsuffix := (scan_rest hscan).2
      have hsize : (sioBufferData x.io.inbuf).length - l.length ≤ sioBufferLength y.io.inbuf := by
        rw [← hsends.inbuf.length_data, hbuf]
        exact Nat.sub_le _ _
      obtain ⟨hwf, hdata⟩ := hsends.inbuf.erase hsize
      have hrest := List.suffix_iff_eq_drop.mp hsuffix
      rw [← hbuf] at hrest
      simp only [Outcome.map, hy, Option.bind_some]
      refine ⟨_, 0, rfl, h1.setIo hy ⟨hwf, hsends.outbuf, hsends.type, hsends.callback,
        hsends.watched⟩ hsfd (Or.inr rfl) ?_, hof1⟩
      change w.input st (sioBufferData (sioBufferErase y.io.inbuf _))
      rw [hdata, ← hbuf, ← hrest]
      exact hin

end Response

section Callback
variable {acts : RpcRef → List ClientAct} {env : RpcEnv}

theorem sioRpcResetUpstream_spec (h : s.Inv w p) (hof : s.StreamOf u st) (env : RpcEnv) :
    ∃ s', sioRpcResetUpstream s u env = some s' ∧ s'.Inv w p := by
  obtain ⟨up, hu, hst⟩ := hof
  obtain ⟨x, hx, hreset⟩ := sioRpcResetUpstream_eq h hu hst env
  exact ⟨_, hreset, h.disconnected hu hst hx _⟩

theorem sioRpcUpstreamCallback_spec (h : s.Inv w Underway.none) (hof : s.StreamOf u st)
    (hacts : ∀ r, ∀ act ∈ acts r, act.Ok w.lasting) (fuel : Nat) (env : RpcEnv)
    {event : SioStreamEvent} (hevent : event ≠ .accept) :
    sioRpcUpstreamCallback w.order fuel s u acts env event = none ∧ event = .data ∧
        ¬ ResponsesAlong w.order fuel u acts (fun st s act => ¬ act.Loses s st) s ∨
      (event = .data → ResponsesAlong w.order fuel u acts (fun st s act => ¬ act.Loses s st) s) ∧
        ∃ s', sioRpcUpstreamCallback w.order fuel s u acts env event = some s' ∧
          s'.Inv w Underway.none := by
  cases event with
  | accept => exact absurd rfl hevent
  | connected => exact Or.inr ⟨nofun, s, rfl, h⟩
  | error => exact Or.inr ⟨nofun, sioRpcResetUpstream_spec h hof env⟩
  | close => exact Or.inr ⟨nofun, sioRpcResetUpstream_spec h hof env⟩
  | data =>
    unfold sioRpcUpstreamCallback
    rcases sioRpcUpstreamParseResponse_spec h hof hacts fuel with
      ⟨hnone, hbad⟩ | ⟨hall, s1, ret, hrun, h1, hof1⟩
    · exact Or.inl ⟨by rw [hnone]; rfl, rfl, hbad⟩
    · refine Or.inr ⟨fun _ => hall, ?_⟩
      simp only [hrun, Option.bind_eq_bind, Option.bind_some]
      split
      · exact sioRpcResetUpstream_spec h1 hof1 env
      · exact ⟨s1, rfl, h1⟩

theorem sioRpcCallTimer_spec (h : s.Inv w { Underway.none with unarmed := [r] })
    (hr : r ∈ s.reqRecord) (hacts : ∀ act ∈ acts r, act.Ok w.lasting)
    (henv : ∀ q, s.request r = some q → env.Ok w.lasting q.body.length) :
    ∃ s', sioRpcCallTimer w.order s r acts env = some s' ∧ s'.Inv w Underway.none := by
  obtain ⟨q, hq⟩ := Option.isSome_iff_exists.mp ((h.records.record r).mp hr)
  obtain ⟨s1, q1, hcancel, h1, hrec1, hq1, hup1, hbody⟩ :=
    sioRpcCancel_spec h hr List.not_mem_nil
  have h2 := h1.touch hq1 { q1 with retryCount := q1.retryCount + 1 } rfl rfl rfl rfl
  have hq2 : (s1.setRequest r { q1 with retryCount := q1.retryCount + 1 }).request r =
      some { q1 with retryCount := q1.retryCount + 1 } :=
    (request_setRequest ..).trans (if_pos rfl)
  have hr2 : r ∈ (s1.setRequest r { q1 with retryCount := q1.retryCount + 1 }).reqRecord := by
    change r ∈ s1.reqRecord
    rw [hrec1]
    exact hr
  simp only [sioRpcCallTimer, hcancel, hq1, Option.bind_eq_bind, Option.bind_some]
  split
  · have h3 := (h2.loosen hq2 hup1).answered (e := .timeout r) hr2 List.not_mem_nil
      (fun x => rfl) (fun x => rfl) (fun x => rfl) nofun
    obtain ⟨s4, hrun4, h4, hsub4⟩ :=
      clientActs_spec (p := ⟨[r], [r], [r], [], [], [], []⟩) h3 hacts
    obtain ⟨s5, hfree, h5, -⟩ := h4.freeCall (hsub4 hr2)
      (fun v k hv => ((h4.links.linked v k r).mp hv).1 List.mem_cons_self)
      (fun x hx => List.mem_singleton.mp hx) (fun x => List.mem_singleton)
      (fun x => List.mem_singleton)
    exact ⟨s5, by simp only [hrun4, hfree, Option.bind_some], h5⟩
  · have henv' : env.Ok w.lasting q1.body.length := by
      rw [hbody q hq]
      exact henv q hq
    obtain ⟨s3, hretry, h3, -⟩ := sioRpcRetry_spec (p := Underway.none) h2 rfl rfl rfl
      List.not_mem_nil hq2 hup1 henv'
    exact ⟨s3, hretry, h3⟩

end Callback

section Free
variable {gone : List RpcRef}

theorem sioRpcDropUpstream_fold {us : List RpcRef} (env : RpcEnv)
    (h : s.Inv w ⟨[], [], [], [], gone, [], []⟩) (hnd : us.Nodup)
    (hus : ∀ u ∈ us, u ∈ s.upstreams ∧ u ∉ gone) :
    ∃ s' gone', us.foldlM (fun s u => sioRpcDropUpstream s u env) s = some s' ∧
      s'.Inv w ⟨[], [], [], [], gone', [], []⟩ ∧ s'.upstreams = s.upstreams ∧
      s'.reqRecord = s.reqRecord ∧ (∀ r, Called r s'.log ↔ Called r s.log) ∧
      ∀ u, u ∈ gone' ↔ u ∈ us ∨ u ∈ gone := by
  induction us generalizing s gone with
  | nil => exact ⟨s, gone, rfl, h, rfl, rfl, fun r => Iff.rfl, fun u => by simp⟩
  | cons u us ih =>
    obtain ⟨hu, hgone⟩ := hus u List.mem_cons_self
    obtain ⟨hno, hnd⟩ := List.nodup_cons.mp hnd
    have hsome : (s.upstream u).isSome := (h.ups.array u).mpr (Or.inl ⟨hu, hgone⟩)
    obtain ⟨s1, up1, h1, hups1, hrec1, hlog1, hu1, hst1, hdrop⟩ :=
      sioRpcDropUpstream_spec h rfl hsome env
    have h2 := h1.freeUpstream hu1 hst1 [] (u :: gone) (fun v => by
      by_cases he : v = u
      · simp [he]
      · simp [he]) nofun
    obtain ⟨s', gone', hrun, h', hups, hrec, hcalled, hgone'⟩ := ih h2 hnd fun v hv => by
      obtain ⟨hv1, hv2⟩ := hus v (List.mem_cons_of_mem u hv)
      refine ⟨hups1.symm ▸ hv1, fun hm => ?_⟩
      rcases List.mem_cons.mp hm with rfl | hm
      · exact hno hv
      · exact hv2 hm
    refine ⟨s', gone', by rw [List.foldlM_cons, hdrop]; exact hrun, h', hups.trans hups1,
      hrec.trans hrec1, fun r => (hcalled r).trans (by rw [hlog1]), fun v => ?_⟩
    rw [hgone', List.mem_cons, List.mem_cons]
    tauto

theorem sioRpcFreeCall_fold {order : List RpcRef}
    (h : s.Inv w ⟨[], [], [], [], gone, [], []⟩) (hups : ∀ u, s.upstream u = none)
    (horder : order.Perm s.reqRecord) :
    ∃ s', order.foldlM (fun s r => do
        let s ← s.stopTimer (.request r)
        sioRpcFreeCall (s.note (.timeout r)) r) s = some s' ∧
      s'.Inv w ⟨[], [], [], [], gone, [], []⟩ ∧ s'.reqRecord = [] ∧
      ∀ r, Called r s'.log ↔ Called r s.log := by
  induction order generalizing s with
  | nil => exact ⟨s, rfl, h, horder.nil_eq.symm, fun r => Iff.rfl⟩
  | cons r order ih =>
    have hr : r ∈ s.reqRecord := horder.mem_iff.mp List.mem_cons_self
    obtain ⟨hstop, h1⟩ := h.stopRequest hr List.not_mem_nil
    have h2 := h1.answered (e := .timeout r) hr List.not_mem_nil (fun x => rfl) (fun x => rfl)
      (fun x => rfl) nofun
    obtain ⟨s3, hfree, h3, hrec3, hups3, -, hlog3⟩ := h2.freeCall hr
      (fun v k hv => by
        obtain ⟨up, hu, -⟩ := Option.bind_eq_some_iff.mp hv
        cases (hups v).symm.trans hu)
      nofun (fun x => List.mem_singleton) (fun x => List.mem_singleton)
    have horder3 : order.Perm s3.reqRecord := by
      rw [hrec3]
      exact List.cons_perm_iff_perm_erase.mp horder |>.2
    obtain ⟨s', hrun, h', hrec, hcalled⟩ := ih h3 (fun v => by rw [hups3]; exact hups v) horder3
    refine ⟨s', ?_, h', hrec, fun x => (hcalled x).trans ?_⟩
    · rw [List.foldlM_cons]
      simp only [hstop, hfree, Option.bind_eq_bind, Option.bind_some]
      exact hrun
    · rw [hlog3]
      exact called_append_of_not Bool.false_ne_true

theorem sioRpcClientFree_spec (h : s.Inv w Underway.none) {order : List RpcRef}
    (horder : order.Perm s.reqRecord) (env : RpcEnv) :
    ∃ s', sioRpcClientFree s order env = some s' ∧
      ∀ r, (Called r s'.log ↔ Called r s.log) ∧
        s'.log.countP (ClientEvent.answers r) = if Called r s.log then 1 else 0 := by
  obtain ⟨s1, gone, hdrop, h1, hups1, hrec1, hsame1, hgone⟩ :=
    sioRpcDropUpstream_fold env h h.ups.nodup
    fun u hu => ⟨hu, List.not_mem_nil⟩
  have hnone : ∀ u, s1.upstream u = none := by
    intro u
    refine Option.not_isSome_iff_eq_none.mp fun hsome => ?_
    rcases (h1.ups.array u).mp hsome with ⟨hu, hout⟩ | hu
    · exact hout ((hgone u).mpr (Or.inl (hups1 ▸ hu)))
    · cases hu
  have hcalled1 : ∀ r, Called r s1.log ↔ Called r s.log := hsame1
  obtain ⟨s2, hfree, h2, hrec2, hcalled2⟩ := sioRpcFreeCall_fold h1 hnone (hrec1.symm ▸ horder)
  refine ⟨s2, ?_, fun r => ⟨(hcalled2 r).trans (hcalled1 r), (h2.records.answers r).trans ?_⟩⟩
  · unfold sioRpcClientFree
    simp only [hdrop, Option.bind_eq_bind, Option.bind_some]
    exact hfree
  · refine if_congr ?_ rfl rfl
    rw [hrec2, hcalled2, hcalled1]
    simp

end Free

end SimpleKit
