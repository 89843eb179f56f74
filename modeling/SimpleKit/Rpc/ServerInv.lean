import SimpleKit.Io.Backlog
import SimpleKit.Rpc.Server

set_option autoImplicit false

namespace SimpleKit

/-- `ticking` dstreams have no timer in the heap. On streams that are `writing` a frame is not
written yet, or not as a whole. -/
structure Serving where
  ticking : List RpcRef
  writing : List RpcRef

def Serving.none : Serving := ⟨[], []⟩

def finishesOn (st : RpcRef) (log : List ServerEvent) : List Frame :=
  log.filterMap fun
    | .finish _ st' f => if st' = st then some f else none
    | _ => none

def finishWires (e : ByteOrder) (st : RpcRef) (log : List ServerEvent) : List UInt8 :=
  ((finishesOn st log).map (frameWire e)).flatten

structure RpcServer.Conns (p : Serving) (s : RpcServer) : Prop where
  table : ∀ id d, s.dstreams.lookup id = some d ↔ ∃ ds, s.dstream d = some ds ∧ ds.id = id
  ids : ∀ d ds, s.dstream d = some ds → ds.id < s.connId
  ticks : ∀ d, s.timers.count d = if (s.dstream d).isSome ∧ d ∉ p.ticking then 1 else 0
  stream : ∀ d ds, s.dstream d = some ds → ∃ x, s.openStream ds.stream = some x ∧ x.arg = d
  owner : ∀ st x, s.openStream st = some x →
    x.io.Sends ∧ x.io.sfd.isSome ∧ x.io.type = .normal ∧
      ∃ ds, s.dstream x.arg = some ds ∧ ds.stream = st

structure RpcServer.Wires (w : RpcView) (p : Serving) (s : RpcServer) : Prop where
  written : ∀ st x, s.openStream st = some x → .refused st ∉ s.log → st ∉ p.writing →
    x.io.written = finishWires w.order st s.log
  sock : w.lasting → ∀ st x, s.stream st = some x → st ∉ p.writing →
    x.io.sock <+: finishWires w.order st s.log
  stuck : w.lasting → ∀ st x, s.openStream st = some x → .refused st ∈ s.log → st ∉ p.writing →
    sioBufferLength x.io.outbuf = 0

structure RpcServer.Responses (w : RpcView) (s : RpcServer) : Prop where
  live : ∀ r q, s.response r = some q → q.connId < s.connId ∧
    ∃ st m, .request r st ⟨q.reqHead, q.request⟩ m ∈ s.log ∧
      ∀ d ds, s.dstream d = some ds → ds.id = q.connId → ds.stream = st
  received : ∀ r st f m, .request r st f m ∈ s.log → w.received st f
  finished : ∀ r st g, .finish r st g ∈ s.log → g.head.bodyLen = UInt32.ofNat g.body.length ∧
    ∃ f m, .request r st f m ∈ s.log ∧ g.head = { f.head with bodyLen := g.head.bodyLen }

structure RpcServer.Fresh (s : RpcServer) : Prop where
  dstream : ∀ a, s.fresh ≤ a → s.dstream a = none
  method : ∀ a, s.fresh ≤ a → s.method a = none
  response : ∀ a, s.fresh ≤ a → s.response a = none
  stream : ∀ a, s.fresh ≤ a → s.stream a = none
  finish : ∀ st, s.fresh ≤ st → finishesOn st s.log = [] ∧ .refused st ∉ s.log

structure RpcServer.Reads (w : RpcView) (s : RpcServer) : Prop where
  input : ∀ st x, s.openStream st = some x → w.input st (sioBufferData x.io.inbuf)
  unborn : ∀ st, s.fresh ≤ st → w.input st []

structure RpcServer.Inv (w : RpcView) (p : Serving) (s : RpcServer) : Prop where
  conns : s.Conns p
  wires : s.Wires w p
  responses : s.Responses w
  fresh : s.Fresh
  reads : s.Reads w
  methods : ∀ t m, s.methods.lookup t = some m → (s.method m).isSome

theorem finishesOn_append (st : RpcRef) (log more : List ServerEvent) :
    finishesOn st (log ++ more) = finishesOn st log ++ finishesOn st more := List.filterMap_append

theorem finishWires_append (e : ByteOrder) (st : RpcRef) (log more : List ServerEvent) :
    finishWires e st (log ++ more) = finishWires e st log ++ finishWires e st more := by
  rw [finishWires, finishesOn_append, List.map_append, List.flatten_append]
  rfl

namespace RpcServer
variable {w : RpcView} {p : Serving} {s : RpcServer} {d st r : RpcRef} {ds : RpcDstream}
  {x : RpcStream}

theorem openStream_some {y : RpcStream} :
    s.openStream st = some y ↔ s.stream st = some y ∧ y.closed = false := by
  rw [openStream, Option.filter_eq_some_iff]
  simp

theorem stream_setStream (s : RpcServer) (st a : RpcRef) (y : RpcStream) :
    (s.setStream st y).stream a = if a = st then some y else s.stream a :=
  Function.update_apply ..

theorem openStream_setStream (s : RpcServer) (st a : RpcRef) (y : RpcStream) :
    (s.setStream st y).openStream a =
      if a = st then (if y.closed then none else some y) else s.openStream a := by
  rw [openStream, stream_setStream]
  split
  · cases hc : y.closed <;> simp [hc]
  · rfl

theorem setStream_cases {s : RpcServer} {st a : RpcRef} {y z : RpcStream}
    (h : (s.setStream st y).openStream a = some z) :
    a = st ∧ z = y ∨ a ≠ st ∧ s.openStream a = some z := by
  rw [openStream_setStream] at h
  split at h
  · next ha =>
    split at h
    · cases h
    · exact Or.inl ⟨ha, (Option.some.inj h).symm⟩
  · next ha => exact Or.inr ⟨ha, h⟩

theorem setStream_setStream (s : RpcServer) (st : RpcRef) (x y : RpcStream) :
    (s.setStream st x).setStream st y = s.setStream st y := by
  unfold setStream
  simp only [Function.update_idem]

theorem writeStream_eq (hx : s.openStream st = some x) {data : List UInt8}
    {write : Except Errno Nat} {io : SioStream} {ret : Int}
    (hw : sioStreamWrite x.io data write = some (io, ret)) :
    s.writeStream st data write = some (s.setStream st { x with io := io }, ret) := by
  simp only [writeStream, hx, hw, Option.bind_eq_bind, Option.bind_some]

theorem Fresh.lt_stream (h : s.Fresh) (hx : s.stream st = some x) : st < s.fresh :=
  Nat.lt_of_not_le fun hle => by
    rw [h.stream st hle] at hx
    cases hx

theorem Conns.inj (h : s.Conns p) {d' : RpcRef} {ds' : RpcDstream} (hd : s.dstream d = some ds)
    (hd' : s.dstream d' = some ds') (hst : ds.stream = ds'.stream) : d = d' := by
  obtain ⟨x, hx, rfl⟩ := h.stream d ds hd
  obtain ⟨y, hy, rfl⟩ := h.stream d' ds' hd'
  rw [← hst, hx, Option.some.injEq] at hy
  rw [hy]

theorem Inv.setIo (h : s.Inv w p) (hx : s.openStream st = some x) {io : SioStream}
    (hsends : io.Sends) (hsfd : io.sfd.isSome) (htype : io.type = .normal)
    (hwritten : st ∈ p.writing ∨ io.written = x.io.written ∧
      (sioBufferLength x.io.outbuf = 0 → sioBufferLength io.outbuf = 0))
    (hinput : w.input st (sioBufferData io.inbuf)) :
    (s.setStream st { x with io := io }).Inv w p := by
  obtain ⟨hstream, hopen⟩ := openStream_some.mp hx
  have hopens : ∀ a, (s.setStream st { x with io := io }).openStream a =
      if a = st then some { x with io := io } else s.openStream a := by
    intro a
    rw [openStream_setStream, hopen]
    rfl
  refine ⟨⟨h.conns.table, h.conns.ids, h.conns.ticks, fun d ds hd => ?_, fun a y hy => ?_⟩,
    ⟨fun a y hy hno hp => ?_, fun hl a y hy hp => ?_, fun hl a y hy hre hp => ?_⟩,
    { h.responses with },
    ⟨h.fresh.dstream, h.fresh.method, h.fresh.response, fun a ha => ?_, h.fresh.finish⟩,
    ⟨fun a y hy => ?_, h.reads.unborn⟩, h.methods⟩
  · obtain ⟨y, hy, harg⟩ := h.conns.stream d ds hd
    rw [hopens]
    split
    · next he =>
      rw [he, hx, Option.some.injEq] at hy
      exact ⟨_, rfl, hy ▸ harg⟩
    · exact ⟨y, hy, harg⟩
  · rcases setStream_cases hy with ⟨rfl, rfl⟩ | ⟨-, hy⟩
    · exact ⟨hsends, hsfd, htype, (h.conns.owner a x hx).2.2.2⟩
    · exact h.conns.owner a y hy
  · rcases setStream_cases hy with ⟨rfl, rfl⟩ | ⟨-, hy⟩
    · exact (hwritten.resolve_left hp).1.trans (h.wires.written a x hx hno hp)
    · exact h.wires.written a y hy hno hp
  · rw [stream_setStream] at hy
    split at hy
    · next he =>
      cases hy
      rw [he] at hp ⊢
      obtain ⟨hsame, hempty⟩ := hwritten.resolve_left hp
      by_cases hre : .refused st ∈ s.log
      · have h0 := h.wires.stuck hl st x hx hre hp
        have hwf := (h.conns.owner st x hx).1.outbuf
        rw [SioStream.written, SioStream.written, sioBufferData_eq_nil hwf (not_not.mpr h0),
          sioBufferData_eq_nil hsends.outbuf (not_not.mpr (hempty h0)), List.append_nil,
          List.append_nil] at hsame
        change io.sock <+: _
        rw [hsame]
        exact h.wires.sock hl st x hstream hp
      · have hold := h.wires.written st x hx hre hp
        rw [← hsame] at hold
        exact hold ▸ List.prefix_append _ _
    · exact h.wires.sock hl a y hy hp
  · rcases setStream_cases hy with ⟨rfl, rfl⟩ | ⟨-, hy⟩
    · exact (hwritten.resolve_left hp).2 (h.wires.stuck hl a x hx hre hp)
    · exact h.wires.stuck hl a y hy hre hp
  · rw [stream_setStream, if_neg]
    · exact h.fresh.stream a ha
    · rintro rfl
      exact absurd (h.fresh.lt_stream hstream) (Nat.not_lt.mpr ha)
  · rcases setStream_cases hy with ⟨rfl, rfl⟩ | ⟨-, hy⟩
    · exact hinput
    · exact h.reads.input a y hy

theorem Wires.log {s' : RpcServer} (h : s.Wires w p) (hstream : s'.stream = s.stream)
    {more : List ServerEvent} (hlog : s'.log = s.log ++ more)
    (hfinish : ∀ st, finishesOn st more = []) (hrefused : ∀ st, .refused st ∉ more) :
    s'.Wires w p := by
  have hwires : ∀ st, finishWires w.order st s'.log = finishWires w.order st s.log := by
    intro st
    rw [finishWires, hlog, finishesOn_append, hfinish, List.append_nil, finishWires]
  have hre : ∀ st, ServerEvent.refused st ∈ s'.log ↔ .refused st ∈ s.log := by
    intro st
    rw [hlog, List.mem_append]
    exact or_iff_left (hrefused st)
  have hopen : ∀ st, s'.openStream st = s.openStream st := by
    intro st
    rw [openStream, hstream, openStream]
  refine ⟨fun st y hy hno hp => ?_, fun hl st y hy hp => ?_, fun hl st y hy hno hp => ?_⟩
  · rw [hwires]
    exact h.written st y ((hopen st).symm.trans hy) (fun hm => hno ((hre st).mpr hm)) hp
  · rw [hwires]
    exact h.sock hl st y (hstream ▸ hy) hp
  · exact h.stuck hl st y ((hopen st).symm.trans hy) ((hre st).mp hno) hp

section Dstream

def accepted (s : RpcServer) (io : SioStream) : RpcServer :=
  { ({ s with fresh := s.fresh + 2, connId := s.connId + 1 }.setDstream (s.fresh + 1)
      (some ⟨s.connId, s.fresh⟩)) with
    dstreams := s.dstreams.insert s.connId (s.fresh + 1) }.setStream s.fresh
      ⟨io, s.fresh + 1, false⟩ |>.startTimer (s.fresh + 1)

theorem accepted_dstream (s : RpcServer) (io : SioStream) (d : RpcRef) :
    (s.accepted io).dstream d =
      if d = s.fresh + 1 then some ⟨s.connId, s.fresh⟩ else s.dstream d := Function.update_apply ..

theorem accepted_openStream (s : RpcServer) (io : SioStream) (st : RpcRef) :
    (s.accepted io).openStream st =
      if st = s.fresh then some ⟨io, s.fresh + 1, false⟩ else s.openStream st :=
  openStream_setStream ..

theorem Fresh.ne_dstream (h : s.Fresh) (hd : s.dstream d = some ds) : d ≠ s.fresh + 1 := by
  rintro rfl
  rw [h.dstream _ (Nat.le_succ _)] at hd
  cases hd

theorem Fresh.ne_openStream (h : s.Fresh) (hx : s.openStream st = some x) : st ≠ s.fresh := by
  rintro rfl
  exact absurd (h.lt_stream (openStream_some.mp hx).1) (Nat.lt_irrefl _)

theorem Conns.accepted (h : s.Conns Serving.none) (hf : s.Fresh) {io : SioStream}
    (hio : sioStreamAccept true = some io) : (s.accepted io).Conns Serving.none := by
  obtain ⟨hsends, -⟩ := sioStreamAccept_sends hio
  have hsfd : io.sfd.isSome ∧ io.type = .normal := by
    cases hio
    exact ⟨rfl, rfl⟩
  refine ⟨fun id d => ?_, fun d ds hd => ?_, fun d => ?_, fun d ds hd => ?_, fun st x hx => ?_⟩
  · change (s.dstreams.insert s.connId (s.fresh + 1)).lookup id = some d ↔ _
    rw [accepted_dstream]
    by_cases hid : id = s.connId
    · rw [hid, AList.lookup_insert]
      split
      · next he => simp [he]
      · next he =>
        refine ⟨fun hx => absurd (Option.some.inj hx).symm he, ?_⟩
        rintro ⟨ds, hds, hi⟩
        have := h.ids d ds hds
        omega
    · rw [AList.lookup_insert_ne hid]
      split
      · next he =>
        subst he
        refine ⟨fun hx => ?_, ?_⟩
        · obtain ⟨ds, hds, -⟩ := (h.table _ _).mp hx
          exact absurd rfl (hf.ne_dstream hds)
        · rintro ⟨ds, hds, hi⟩
          cases hds
          exact absurd hi.symm hid
      · exact h.table id d
  · rw [accepted_dstream] at hd
    change ds.id < s.connId + 1
    split at hd
    · cases hd
      exact Nat.lt_succ_self _
    · exact Nat.lt_succ_of_lt (h.ids d ds hd)
  · have hcount : (s.accepted io).timers.count d =
        s.timers.count d + if s.fresh + 1 = d then 1 else 0 := by
      change ((s.fresh + 1) :: s.timers).count d = _
      rw [List.count_cons]
      simp
    rw [hcount, h.ticks, accepted_dstream]
    by_cases he : d = s.fresh + 1
    · simp [he, hf.dstream _ (Nat.le_succ s.fresh), Serving.none]
    · simp [he, Ne.symm he]
  · rw [accepted_dstream] at hd
    rw [accepted_openStream]
    split at hd
    · next he =>
      cases hd
      exact ⟨_, if_pos rfl, he.symm⟩
    · obtain ⟨x, hx, harg⟩ := h.stream d ds hd
      exact ⟨x, (if_neg (hf.ne_openStream hx)).trans hx, harg⟩
  · rw [accepted_openStream] at hx
    rw [accepted_dstream]
    split at hx
    · next he =>
      cases hx
      exact ⟨hsends, hsfd.1, hsfd.2, _, if_pos rfl, he.symm⟩
    · obtain ⟨h1, h2, h3, ds, hds, hst⟩ := h.owner st x hx
      exact ⟨h1, h2, h3, ds, (if_neg (hf.ne_dstream hds)).trans hds, hst⟩

theorem Wires.accepted (h : s.Wires w p) (hf : s.Fresh) {io : SioStream}
    (hio : sioStreamAccept true = some io) : (s.accepted io).Wires w p := by
  obtain ⟨-, hempty⟩ := sioStreamAccept_sends hio
  have hsock : io.sock = [] := by
    cases hio
    rfl
  obtain ⟨hfin, hre⟩ := hf.finish s.fresh (Nat.le_refl _)
  have hwire : finishWires w.order s.fresh s.log = [] := by rw [finishWires, hfin]; rfl
  refine ⟨fun st x hx hno hp => ?_, fun hl st x hx hp => ?_, fun hl st x hx hr hp => ?_⟩
  · rw [accepted_openStream] at hx
    split at hx
    · next he =>
      cases hx
      rw [he]
      exact hempty.trans hwire.symm
    · exact h.written st x hx hno hp
  · have hx' := (stream_setStream ..).symm.trans hx
    split at hx'
    · cases hx'
      rw [hsock]
      exact List.nil_prefix
    · exact h.sock hl st x hx' hp
  · rw [accepted_openStream] at hx
    split at hx
    · next he => exact absurd (he ▸ hr) hre
    · exact h.stuck hl st x hx hr hp

theorem Inv.accepted (h : s.Inv w Serving.none) {io : SioStream}
    (hio : sioStreamAccept true = some io) :
    s.connId ∉ s.dstreams ∧ (s.accepted io).Inv w Serving.none := by
  have hfree : s.connId ∉ s.dstreams := by
    intro hm
    obtain ⟨d, hd⟩ := Option.isSome_iff_exists.mp (AList.lookup_isSome.mpr hm)
    obtain ⟨ds, hds, hid⟩ := (h.conns.table _ d).mp hd
    exact absurd (h.conns.ids d ds hds) (by omega)
  have hinbuf : io.inbuf = sioBufferNew := by
    cases hio
    rfl
  have hle : ∀ a, s.fresh + 2 ≤ a → s.fresh ≤ a :=
    fun a ha => Nat.le_trans (Nat.le_add_right _ 2) ha
  refine ⟨hfree, h.conns.accepted h.fresh hio, h.wires.accepted h.fresh hio,
    ⟨fun r q hq => ?_, h.responses.received, h.responses.finished⟩,
    ⟨fun a ha => ?_, fun a ha => h.fresh.method a (hle a ha),
      fun a ha => h.fresh.response a (hle a ha), fun a ha => ?_,
      fun a ha => h.fresh.finish a (hle a ha)⟩,
    ⟨fun st x hx => ?_, fun a ha => h.reads.unborn a (hle a ha)⟩, h.methods⟩
  · obtain ⟨hlt, st, m, hreq, hst⟩ := h.responses.live r q hq
    refine ⟨Nat.lt_succ_of_lt hlt, st, m, hreq, fun d ds hd hid => ?_⟩
    rw [accepted_dstream] at hd
    split at hd
    · cases hd
      exact absurd hid (by change s.connId ≠ _; omega)
    · exact hst d ds hd hid
  · rw [accepted_dstream, if_neg (Nat.ne_of_gt ha)]
    exact h.fresh.dstream a (hle a ha)
  · refine (stream_setStream ..).trans ?_
    rw [if_neg (Nat.ne_of_gt (Nat.lt_of_succ_lt ha))]
    exact h.fresh.stream a (hle a ha)
  · rw [accepted_openStream] at hx
    split at hx
    · next he =>
      cases hx
      rw [he, hinbuf, sioBufferData_new]
      exact h.reads.unborn _ (Nat.le_refl _)
    · exact h.reads.input st x hx

def freed (s : RpcServer) (d : RpcRef) (ds : RpcDstream) (x : RpcStream) : RpcServer :=
  { { s with dstreams := s.dstreams.erase ds.id }.setStream ds.stream { x with closed := true } with
    timers := s.timers.erase d }.setDstream d none

theorem freed_dstream (s : RpcServer) (d a : RpcRef) (ds : RpcDstream) (x : RpcStream) :
    (s.freed d ds x).dstream a = if a = d then none else s.dstream a := Function.update_apply ..

theorem freed_openStream (s : RpcServer) (d a : RpcRef) (ds : RpcDstream) (x : RpcStream) :
    (s.freed d ds x).openStream a = if a = ds.stream then none else s.openStream a :=
  openStream_setStream ..

theorem freed_dstream_some {a : RpcRef} {da : RpcDstream}
    (ha : (s.freed d ds x).dstream a = some da) :
    a ≠ d ∧ s.dstream a = some da := by
  rw [freed_dstream] at ha
  split at ha
  · cases ha
  · next he => exact ⟨he, ha⟩

theorem freed_openStream_some {a : RpcRef} {y : RpcStream}
    (hy : (s.freed d ds x).openStream a = some y) : a ≠ ds.stream ∧ s.openStream a = some y := by
  rw [freed_openStream] at hy
  split at hy
  · cases hy
  · next he => exact ⟨he, hy⟩

theorem Conns.freed (h : s.Conns p) (hd : s.dstream d = some ds) (hno : d ∉ p.ticking) :
    (s.freed d ds x).Conns p := by
  refine ⟨fun id a => ?_, fun a da ha => h.ids a da (freed_dstream_some ha).2, fun a => ?_,
    fun a da ha => ?_, fun a y hy => ?_⟩
  · change (s.dstreams.erase ds.id).lookup id = some a ↔ _
    rw [freed_dstream]
    by_cases hid : id = ds.id
    · rw [hid, AList.lookup_erase]
      refine ⟨nofun, ?_⟩
      rintro ⟨da, ha, hda⟩
      split at ha
      · cases ha
      · next hne =>
        have h1 := (h.table ds.id a).mpr ⟨da, ha, hda⟩
        have h2 := (h.table ds.id d).mpr ⟨ds, hd, rfl⟩
        exact absurd (Option.some.inj (h1.symm.trans h2)) hne
    · rw [AList.lookup_erase_ne hid, h.table]
      split
      · next he =>
        subst he
        refine ⟨?_, nofun⟩
        rintro ⟨da, ha, hda⟩
        rw [hd, Option.some.injEq] at ha
        exact absurd (ha ▸ hda.symm) hid
      · exact Iff.rfl
  · rw [freed_dstream]
    by_cases he : a = d
    · subst he
      refine (List.count_erase_self ..).trans ?_
      rw [h.ticks, hd]
      simp [hno]
    · refine (List.count_erase_of_ne he).trans ?_
      rw [h.ticks, if_neg he]
  · obtain ⟨hne, ha⟩ := freed_dstream_some ha
    obtain ⟨y, hy, harg⟩ := h.stream a da ha
    refine ⟨y, ?_, harg⟩
    rw [freed_openStream, if_neg fun he => hne (h.inj ha hd he), hy]
  · obtain ⟨hne, hy⟩ := freed_openStream_some hy
    obtain ⟨h1, h2, h3, da, hda, hst⟩ := h.owner a y hy
    refine ⟨h1, h2, h3, da, ?_, hst⟩
    rw [freed_dstream, if_neg fun he => ?_, hda]
    rw [he, hd, Option.some.injEq] at hda
    exact hne (hda ▸ hst.symm)

theorem Inv.freed (h : s.Inv w p) (hd : s.dstream d = some ds) (hno : d ∉ p.ticking)
    (hx : s.openStream ds.stream = some x) : (s.freed d ds x).Inv w p := by
  obtain ⟨hstream, -⟩ := openStream_some.mp hx
  refine ⟨h.conns.freed hd hno,
    ⟨fun a y hy => h.wires.written a y (freed_openStream_some hy).2, fun hl a y hy hp => ?_,
      fun hl a y hy => h.wires.stuck hl a y (freed_openStream_some hy).2⟩,
    ⟨fun r q hq => ?_, h.responses.received, h.responses.finished⟩,
    ⟨fun a ha => ?_, h.fresh.method, h.fresh.response, fun a ha => ?_, h.fresh.finish⟩,
    ⟨fun a y hy => h.reads.input a y (freed_openStream_some hy).2, h.reads.unborn⟩, h.methods⟩
  · have hy' := (stream_setStream ..).symm.trans hy
    split at hy'
    · next he =>
      cases hy'
      rw [he] at hp ⊢
      exact h.wires.sock hl _ x hstream hp
    · exact h.wires.sock hl a y hy' hp
  · obtain ⟨hlt, st, m, hreq, hst⟩ := h.responses.live r q hq
    exact ⟨hlt, st, m, hreq, fun a da ha => hst a da (freed_dstream_some ha).2⟩
  · rw [freed_dstream, h.fresh.dstream a ha, ite_self]
  · refine (stream_setStream ..).trans ?_
    rw [if_neg]
    · exact h.fresh.stream a ha
    · rintro rfl
      exact absurd (h.fresh.lt_stream hstream) (Nat.not_lt.mpr ha)

theorem sioRpcDstreamFree_eq (h : s.Conns p) (hd : s.dstream d = some ds) (hno : d ∉ p.ticking)
    (hx : s.openStream ds.stream = some x) : sioRpcDstreamFree s d = some (s.freed d ds x) := by
  have hmem : ds.id ∈ s.dstreams :=
    AList.lookup_isSome.mp (by rw [(h.table ds.id d).mpr ⟨ds, hd, rfl⟩]; rfl)
  have hx1 : { s with dstreams := s.dstreams.erase ds.id }.openStream ds.stream = some x := hx
  have htick : d ∈ s.timers := by
    refine List.count_pos_iff.mp ?_
    rw [h.ticks, if_pos ⟨by rw [hd]; rfl, hno⟩]
    exact Nat.one_pos
  have hstop : ({ s with dstreams := s.dstreams.erase ds.id }.setStream ds.stream
      { x with closed := true }).stopTimer d = some { { s with
        dstreams := s.dstreams.erase ds.id }.setStream ds.stream { x with closed := true } with
          timers := s.timers.erase d } := if_pos htick
  simp only [sioRpcDstreamFree, hd, Option.bind_eq_bind, Option.bind_some, if_pos hmem, closeStream,
    hx1, Option.map_some, hstop]
  rfl

end Dstream

section Timer
variable {l : List RpcRef}

theorem Inv.startTick (h : s.Inv w { p with ticking := d :: l }) (hd : (s.dstream d).isSome)
    (hno : d ∉ l) : (s.startTimer d).Inv w { p with ticking := l } := by
  have hcount : ∀ a, (s.startTimer d).timers.count a =
      s.timers.count a + if d = a then 1 else 0 := by
    intro a
    rw [startTimer, List.count_cons]
    simp
  refine ⟨⟨h.conns.table, h.conns.ids, fun a => ?_, h.conns.stream, h.conns.owner⟩,
    { h.wires with }, { h.responses with }, { h.fresh with }, { h.reads with }, h.methods⟩
  rw [hcount, h.conns.ticks]
  by_cases he : a = d
  · subst he
    rw [if_neg fun hx => hx.2 List.mem_cons_self, if_pos rfl]
    exact (if_pos ⟨hd, hno⟩).symm
  · rw [if_neg (c := d = a) (fun hx => he hx.symm), Nat.add_zero]
    refine if_congr (and_congr_right' (not_congr ?_)) rfl rfl
    exact List.mem_cons.trans (or_iff_right he)

theorem Inv.stopTick (h : s.Inv w p) (hd : (s.dstream d).isSome) (hno : d ∉ p.ticking) :
    s.stopTimer d = some { s with timers := s.timers.erase d } ∧
      { s with timers := s.timers.erase d }.Inv w { p with ticking := d :: p.ticking } := by
  have hone : s.timers.count d = 1 := (h.conns.ticks d).trans (if_pos ⟨hd, hno⟩)
  have hmem : d ∈ s.timers := List.count_pos_iff.mp (by rw [hone]; exact Nat.one_pos)
  refine ⟨if_pos hmem, ⟨h.conns.table, h.conns.ids, fun a => ?_, h.conns.stream, h.conns.owner⟩,
    { h.wires with }, { h.responses with }, { h.fresh with }, { h.reads with }, h.methods⟩
  by_cases he : a = d
  · subst he
    refine (List.count_erase_self ..).trans ?_
    rw [hone]
    exact (if_neg fun hx => hx.2 List.mem_cons_self).symm
  · refine (List.count_erase_of_ne he).trans ?_
    rw [h.conns.ticks]
    refine if_congr (and_congr_right' (not_congr ?_)) rfl rfl
    exact (List.mem_cons.trans (or_iff_right he)).symm

end Timer

section Response
variable {f : Frame} {m : RpcMethod} {q : RpcResponse}

def requested (s : RpcServer) (ds : RpcDstream) (f : Frame) (m : RpcMethod) : RpcServer :=
  ({ s with fresh := s.fresh + 1 }.setResponse s.fresh (some ⟨ds.id, f.head, f.body⟩)).note
    (.request s.fresh ds.stream f m)

theorem Inv.requested (h : s.Inv w p) (hd : s.dstream d = some ds) (hrec : w.received ds.stream f)
    (m : RpcMethod) : (s.requested ds f m).Inv w p := by
  have hlog : (s.requested ds f m).log = s.log ++ [.request s.fresh ds.stream f m] := rfl
  have hfin : ∀ st, finishesOn st (s.requested ds f m).log = finishesOn st s.log := by
    intro st
    rw [hlog, finishesOn_append]
    exact List.append_nil _
  have hresp : ∀ r, (s.requested ds f m).response r =
      if r = s.fresh then some ⟨ds.id, f.head, f.body⟩ else s.response r :=
    fun r => Function.update_apply ..
  refine ⟨{ h.conns with }, h.wires.log rfl hlog (fun st => rfl) (fun st => by simp),
    ⟨fun r q hq => ?_, fun r st g m' hm => ?_, fun r st g hg => ?_⟩,
    ⟨fun a ha => h.fresh.dstream a (Nat.le_of_succ_le ha),
      fun a ha => h.fresh.method a (Nat.le_of_succ_le ha), fun a ha => ?_,
      fun a ha => h.fresh.stream a (Nat.le_of_succ_le ha), fun a ha => ?_⟩,
    ⟨h.reads.input, fun a ha => h.reads.unborn a (Nat.le_of_succ_le ha)⟩, h.methods⟩
  · rw [hresp] at hq
    split at hq
    · next he =>
      cases hq
      refine ⟨h.conns.ids d ds hd, ds.stream, m, by rw [he, hlog]; simp, fun a da ha hid => ?_⟩
      have h1 := (h.conns.table ds.id a).mpr ⟨da, ha, hid⟩
      have h2 := (h.conns.table ds.id d).mpr ⟨ds, hd, rfl⟩
      obtain rfl := Option.some.inj (h1.symm.trans h2)
      obtain rfl := Option.some.inj (ha.symm.trans hd)
      rfl
    · obtain ⟨hlt, st, m', hreq, hst⟩ := h.responses.live r q hq
      exact ⟨hlt, st, m', List.mem_append_left _ hreq, hst⟩
  · rw [hlog, List.mem_append, List.mem_singleton] at hm
    rcases hm with hm | hm
    · exact h.responses.received r st g m' hm
    · cases hm
      exact hrec
  · rw [hlog, List.mem_append, List.mem_singleton] at hg
    rcases hg with hg | hg
    · obtain ⟨hlen, g', m', hreq, hhead⟩ := h.responses.finished r st g hg
      exact ⟨hlen, g', m', List.mem_append_left _ hreq, hhead⟩
    · cases hg
  · rw [hresp, if_neg (Nat.ne_of_gt ha)]
    exact h.fresh.response a (Nat.le_of_succ_le ha)
  · rw [hfin]
    obtain ⟨h1, h2⟩ := h.fresh.finish a (Nat.le_of_succ_le ha)
    refine ⟨h1, fun hm => h2 ?_⟩
    rw [hlog] at hm
    simpa using hm

theorem Inv.freeResponse (h : s.Inv w p) (r : RpcRef) : (s.setResponse r none).Inv w p := by
  have hresp : ∀ a, (s.setResponse r none).response a = if a = r then none else s.response a :=
    fun a => Function.update_apply ..
  refine ⟨{ h.conns with }, { h.wires with },
    ⟨fun a q hq => ?_, h.responses.received, h.responses.finished⟩,
    ⟨h.fresh.dstream, h.fresh.method, fun a ha => ?_, h.fresh.stream, h.fresh.finish⟩,
    { h.reads with }, h.methods⟩
  · rw [hresp] at hq
    split at hq
    · cases hq
    · exact h.responses.live a q hq
  · rw [hresp, h.fresh.response a ha, ite_self]

theorem Inv.beginFinish (h : s.Inv w p) (hx : s.openStream st = some x) (hq : s.response r = some q)
    (hst : ∃ d ds, s.dstream d = some ds ∧ ds.id = q.connId ∧ ds.stream = st) (body : List UInt8) :
    (s.note (.finish r st ⟨sioRpcFinishHead q body, body⟩)).Inv w
      { p with writing := st :: p.writing } := by
  generalize hf : (⟨sioRpcFinishHead q body, body⟩ : Frame) = f
  have hother : ∀ a, a ≠ st → finishesOn a (s.log ++ [.finish r st f]) = finishesOn a s.log := by
    intro a hne
    rw [finishesOn_append]
    simp [finishesOn, hne.symm]
  have hwires : ∀ a, a ≠ st →
      finishWires w.order a (s.log ++ [.finish r st f]) = finishWires w.order a s.log := by
    intro a hne
    rw [finishWires, hother a hne, finishWires]
  have hre : ∀ a, .refused a ∈ s.log ++ [.finish r st f] ↔ .refused a ∈ s.log := by
    intro a
    simp
  refine ⟨{ h.conns with },
    ⟨fun a y hy hno hp => ?_, fun hl a y hy hp => ?_, fun hl a y hy hr hp => ?_⟩,
    ⟨fun r' q' hq' => ?_, fun r' a g m hm => ?_, fun r' a g hg => ?_⟩,
    ⟨h.fresh.dstream, h.fresh.method, h.fresh.response, h.fresh.stream, fun a ha => ?_⟩,
    { h.reads with }, h.methods⟩
  · rw [List.mem_cons, not_or] at hp
    exact (h.wires.written a y hy (fun hm => hno ((hre a).mpr hm)) hp.2).trans (hwires a hp.1).symm
  · rw [List.mem_cons, not_or] at hp
    have hsock := h.wires.sock hl a y hy hp.2
    rw [← hwires a hp.1] at hsock
    exact hsock
  · rw [List.mem_cons, not_or] at hp
    exact h.wires.stuck hl a y hy ((hre a).mp hr) hp.2
  · obtain ⟨hlt, st', m, hreq, hst'⟩ := h.responses.live r' q' hq'
    exact ⟨hlt, st', m, List.mem_append_left _ hreq, hst'⟩
  · refine h.responses.received r' a g m ?_
    simpa [note] using hm
  · rcases List.mem_append.mp hg with hg | hg
    · obtain ⟨hlen, g', m, hreq, hhead⟩ := h.responses.finished r' a g hg
      exact ⟨hlen, g', m, List.mem_append_left _ hreq, hhead⟩
    · cases List.mem_singleton.mp hg
      obtain ⟨-, st', m, hreq, hst'⟩ := h.responses.live r q hq
      obtain ⟨d, ds, hd, hid, hds⟩ := hst
      have hst'' := hst' d ds hd hid
      rw [hds] at hst''
      rw [← hf]
      exact ⟨rfl, _, m, List.mem_append_left _ (hst'' ▸ hreq), rfl⟩
  · have hne : a ≠ st := by
      rintro rfl
      exact absurd (h.fresh.lt_stream (openStream_some.mp hx).1) (Nat.not_lt.mpr ha)
    obtain ⟨h1, h2⟩ := h.fresh.finish a ha
    exact ⟨(hother a hne).trans h1, fun hm => h2 ((hre a).mp hm)⟩

theorem Inv.refused (h : s.Inv w p) (hx : s.openStream st = some x) (hst : st ∈ p.writing) :
    (s.note (.refused st)).Inv w p := by
  have hfin : ∀ a, finishesOn a (s.note (.refused st)).log = finishesOn a s.log := by
    intro a
    exact (finishesOn_append ..).trans (List.append_nil _)
  have hwires : ∀ a, finishWires w.order a (s.note (.refused st)).log =
      finishWires w.order a s.log := by
    intro a
    rw [finishWires, hfin, finishWires]
  have hre : ∀ a, a ≠ st → (.refused a ∈ (s.note (.refused st)).log ↔ .refused a ∈ s.log) := by
    intro a hne
    simp [note, hne]
  have hne : ∀ {a}, a ∉ p.writing → a ≠ st := by
    rintro a ha rfl
    exact ha hst
  refine ⟨{ h.conns with },
    ⟨fun a y hy hno hp => ?_, fun hl a y hy hp => ?_, fun hl a y hy hr hp => ?_⟩,
    ⟨fun r' q' hq' => ?_, fun r' a g m hm => ?_, fun r' a g hg => ?_⟩,
    ⟨h.fresh.dstream, h.fresh.method, h.fresh.response, h.fresh.stream, fun a ha => ?_⟩,
    { h.reads with }, h.methods⟩
  · rw [hwires]
    exact h.wires.written a y hy (fun hm => hno ((hre a (hne hp)).mpr hm)) hp
  · rw [hwires]
    exact h.wires.sock hl a y hy hp
  · exact h.wires.stuck hl a y hy ((hre a (hne hp)).mp hr) hp
  · obtain ⟨hlt, st', m, hreq, hst'⟩ := h.responses.live r' q' hq'
    exact ⟨hlt, st', m, List.mem_append_left _ hreq, hst'⟩
  · refine h.responses.received r' a g m ?_
    simpa [note] using hm
  · rcases List.mem_append.mp hg with hg | hg
    · obtain ⟨hlen, g', m, hreq, hhead⟩ := h.responses.finished r' a g hg
      exact ⟨hlen, g', m, List.mem_append_left _ hreq, hhead⟩
    · cases List.mem_singleton.mp hg
  · have hne' : a ≠ st := by
      rintro rfl
      exact absurd (h.fresh.lt_stream (openStream_some.mp hx).1) (Nat.not_lt.mpr ha)
    obtain ⟨h1, h2⟩ := h.fresh.finish a ha
    exact ⟨(hfin a).trans h1, fun hm => h2 ((hre a hne').mp hm)⟩

theorem Inv.endFinish {l : List RpcRef} (h : s.Inv w { p with writing := st :: l })
    (hwritten : ∀ x, s.openStream st = some x → .refused st ∉ s.log →
      x.io.written = finishWires w.order st s.log)
    (hsock : w.lasting → ∀ x, s.stream st = some x → x.io.sock <+: finishWires w.order st s.log)
    (hstuck : w.lasting → ∀ x, s.openStream st = some x → .refused st ∈ s.log →
      sioBufferLength x.io.outbuf = 0) : s.Inv w { p with writing := l } := by
  refine ⟨{ h.conns with },
    ⟨fun a y hy hno hp => ?_, fun hl a y hy hp => ?_, fun hl a y hy hr hp => ?_⟩,
    { h.responses with }, { h.fresh with }, { h.reads with }, h.methods⟩
  · by_cases he : a = st
    · rw [he] at hy hno ⊢
      exact hwritten y hy hno
    · exact h.wires.written a y hy hno (by simp [he, hp])
  · by_cases he : a = st
    · rw [he] at hy ⊢
      exact hsock hl y hy
    · exact h.wires.sock hl a y hy (by simp [he, hp])
  · by_cases he : a = st
    · rw [he] at hy hr
      exact hstuck hl y hy hr
    · exact h.wires.stuck hl a y hy hr (by simp [he, hp])

end Response

end RpcServer
end SimpleKit
