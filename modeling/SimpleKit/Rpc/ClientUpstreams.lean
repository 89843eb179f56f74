import SimpleKit.Rpc.ClientRecords

set_option autoImplicit false

namespace SimpleKit
open Linking
namespace RpcClient

variable {w : RpcView} {p : Underway} {s : RpcClient} {u : RpcRef} {up : RpcUpstream}

section Moves

theorem Inv.newUpstream (h : s.Inv w p) (hgone : p.gone = []) {up : RpcUpstream}
    (hst : up.stream = none) (hid : up.reqId = 0) (hstatus : up.reqStatus = ∅) :
    ({ s with fresh := s.fresh + 1 }.setUpstream s.fresh up).Inv w
      { p with apart := s.fresh :: p.apart, ticking := s.fresh :: p.ticking } := by
  have hnone : s.upstream s.fresh = none := h.fresh.upstream _ (Nat.le_refl _)
  have hup : ∀ v, ({ s with fresh := s.fresh + 1 }.setUpstream s.fresh up).upstream v =
      if v = s.fresh then some up else s.upstream v := fun v => upstream_setUpstream ..
  have hfresh : ¬ (s.fresh ∈ s.upstreams ∧ s.fresh ∉ p.gone ∨ s.fresh ∈ p.apart) := by
    rw [← h.ups.array, hnone]
    nofun
  have htable : ({ s with fresh := s.fresh + 1 }.setUpstream s.fresh up).table = s.table := by
    funext v k
    refine (table_setUpstream ..).trans ?_
    split
    · next hv => rw [hv, hstatus, table, hnone]; rfl
    · rfl
  have hof : ∀ v st, s.StreamOf v st →
      ({ s with fresh := s.fresh + 1 }.setUpstream s.fresh up).StreamOf v st := by
    rintro v st ⟨vp, hv, hvs⟩
    refine ⟨vp, ?_, hvs⟩
    rw [hup, if_neg (fun he => ?_), hv]
    rw [he, hnone] at hv
    cases hv
  refine ⟨⟨by rw [htable]; exact h.links.linked, fun v vp hv hn => ?_⟩,
    ⟨fun v vp st hv hs => ?_, fun v vp st k x hv hs hk => ?_, fun v st hv => ?_,
      fun st x hx => ?_, h.wires.written, h.wires.closed, h.wires.frames⟩,
    { h.records with }, ⟨h.ups.nodup, fun v => ?_, fun v hv => ?_, fun v => ?_⟩,
    ⟨fun a ha => h.fresh.request a (Nat.le_of_succ_le ha), fun a ha => ?_,
      fun a ha => h.fresh.stream a (Nat.le_of_succ_le ha),
      fun x hx => Nat.lt_succ_of_lt (h.fresh.call x hx),
      fun a ha => h.fresh.send a (Nat.le_of_succ_le ha),
      fun x hx => Nat.lt_succ_of_lt (h.fresh.under x hx)⟩,
    ⟨h.reads.input, fun a ha => h.reads.unborn a (Nat.le_of_succ_le ha)⟩, h.responses⟩
  · rw [hup] at hv
    split at hv
    · cases hv
      exact ⟨hstatus, hid⟩
    · exact h.links.idle v vp hv hn
  · rw [hup] at hv
    split at hv
    · cases hv
      rw [hst] at hs
      cases hs
    · exact h.wires.sent v vp st hv hs
  · rw [hup] at hv
    split at hv
    · cases hv
      rw [hst] at hs
      cases hs
    · exact h.wires.waiting v vp st k x hv hs hk
  · obtain ⟨vp, hv, hvs⟩ := hv
    rw [hup] at hv
    split at hv
    · cases hv
      rw [hst] at hvs
      cases hvs
    · exact h.wires.stream v st ⟨vp, hv, hvs⟩
  · obtain ⟨h1, h2, h3⟩ := h.wires.owner st x hx
    exact ⟨h1, h2, hof _ _ h3⟩
  · rw [hup]
    by_cases he : v = s.fresh
    · rw [if_pos he, he]
      simp
    · rw [if_neg he]
      refine (h.ups.array v).trans (or_congr_right ?_)
      exact (List.mem_cons.trans (or_iff_right he)).symm
  · rcases List.mem_cons.mp hv with rfl | hv
    · exact fun hm => hfresh (Or.inl ⟨hm, by rw [hgone]; exact List.not_mem_nil⟩)
    · exact h.ups.disjoint v hv
  · refine (h.ups.ticks v).trans ?_
    rw [hup]
    by_cases he : v = s.fresh
    · rw [if_pos he, he, hnone]
      simp
    · rw [if_neg he]
      refine if_congr (and_congr_right' (not_congr ?_)) rfl rfl
      exact (List.mem_cons.trans (or_iff_right he)).symm
  · rw [hup, if_neg (Nat.ne_of_gt ha)]
    exact h.fresh.upstream a (Nat.le_of_succ_le ha)

variable {l : List RpcRef}

theorem Inv.startTick (h : s.Inv w { p with ticking := u :: l }) (hu : (s.upstream u).isSome)
    (hno : u ∉ l) : (s.startTimer (.upstream u)).Inv w { p with ticking := l } := by
  have hcount : ∀ t, (s.startTimer (.upstream u)).timers.count t =
      s.timers.count t + if RpcTimer.upstream u = t then 1 else 0 := by
    intro t
    rw [startTimer, List.count_cons]
    simp
  refine ⟨{ h.links with }, { h.wires with },
    ⟨h.records.nodup, h.records.record, fun x => ?_, h.records.called, h.records.once,
      h.records.answers⟩,
    ⟨h.ups.nodup, h.ups.array, h.ups.disjoint, fun v => ?_⟩, { h.fresh with },
    { h.reads with }, h.responses⟩
  · rw [hcount, if_neg fun hx => by cases hx]
    exact h.records.armed x
  · rw [hcount, h.ups.ticks]
    by_cases he : v = u
    · subst he
      rw [if_neg fun hx => hx.2 List.mem_cons_self, if_pos rfl]
      exact (if_pos ⟨hu, hno⟩).symm
    · rw [if_neg (fun hx => he (RpcTimer.upstream.inj hx).symm), Nat.add_zero]
      refine if_congr (and_congr_right' (not_congr ?_)) rfl rfl
      exact List.mem_cons.trans (or_iff_right he)

theorem Inv.stopTick (h : s.Inv w p) (hu : (s.upstream u).isSome) (hno : u ∉ p.ticking) :
    s.stopTimer (.upstream u) = some { s with timers := s.timers.erase (.upstream u) } ∧
      { s with timers := s.timers.erase (.upstream u) }.Inv w
        { p with ticking := u :: p.ticking } := by
  have hone : s.timers.count (.upstream u) = 1 := (h.ups.ticks u).trans (if_pos ⟨hu, hno⟩)
  have hmem : RpcTimer.upstream u ∈ s.timers := List.count_pos_iff.mp (by omega)
  refine ⟨if_pos hmem, { h.links with }, { h.wires with },
    ⟨h.records.nodup, h.records.record, fun x => ?_, h.records.called, h.records.once,
      h.records.answers⟩,
    ⟨h.ups.nodup, h.ups.array, h.ups.disjoint, fun v => ?_⟩, { h.fresh with },
    { h.reads with }, h.responses⟩
  · have hne : RpcTimer.request x ≠ RpcTimer.upstream u := nofun
    exact (List.count_erase_of_ne hne).trans (h.records.armed x)
  · by_cases he : v = u
    · subst he
      refine (List.count_erase_self ..).trans ?_
      rw [hone]
      exact (if_neg fun hx => hx.2 List.mem_cons_self).symm
    · refine (List.count_erase_of_ne fun hx => he (RpcTimer.upstream.inj hx)).trans ?_
      rw [h.ups.ticks]
      refine if_congr (and_congr_right' (not_congr ?_)) rfl rfl
      exact (List.mem_cons.trans (or_iff_right he)).symm

theorem Inv.setArray (h : s.Inv w p) (us l : List RpcRef) (hnd : us.Nodup)
    (hdisjoint : ∀ v ∈ l, v ∉ us)
    (harray : ∀ v, v ∈ s.upstreams ∧ v ∉ p.gone ∨ v ∈ p.apart ↔ v ∈ us ∧ v ∉ p.gone ∨ v ∈ l) :
    { s with upstreams := us }.Inv w { p with apart := l } :=
  ⟨{ h.links with }, { h.wires with }, { h.records with },
    ⟨hnd, fun v => (h.ups.array v).trans (harray v), hdisjoint, h.ups.ticks⟩, { h.fresh with },
    { h.reads with }, h.responses⟩

theorem Inv.freeUpstream (h : s.Inv w { p with ticking := [u] }) (hu : s.upstream u = some up)
    (hst : up.stream = none) (apart gone : List RpcRef)
    (harray : ∀ v, v ∈ s.upstreams ∧ v ∉ gone ∨ v ∈ apart ↔
      v ≠ u ∧ (v ∈ s.upstreams ∧ v ∉ p.gone ∨ v ∈ p.apart))
    (hdisjoint : ∀ v ∈ apart, v ∉ s.upstreams) :
    { s with upstream := Function.update s.upstream u none }.Inv w
      { p with apart := apart, gone := gone, ticking := [] } := by
  have hup : ∀ v, Function.update s.upstream u none v = if v = u then none else s.upstream v :=
    fun v => Function.update_apply ..
  have hold : ∀ v vp, Function.update s.upstream u none v = some vp → s.upstream v = some vp := by
    intro v vp hv
    rw [hup] at hv
    split at hv
    · cases hv
    · exact hv
  have htable : { s with upstream := Function.update s.upstream u none }.table = s.table := by
    funext v k
    rw [table, table]
    dsimp only
    rw [hup]
    split
    · next hv =>
      rw [hv, hu, Option.bind_some, (h.links.idle u up hu hst).1]
      rfl
    · rfl
  refine ⟨⟨by rw [htable]; exact h.links.linked, fun v vp hv hn => ?_⟩,
    ⟨fun v vp st hv hs => h.wires.sent v vp st (hold v vp hv) hs,
      fun v vp st k x hv hs hk => h.wires.waiting v vp st k x (hold v vp hv) hs hk,
      fun v st hof => h.wires.stream v st (hof.imp fun vp hv => hv.imp_left (hold v vp)),
      fun st x hx => ?_, h.wires.written, h.wires.closed, h.wires.frames⟩,
    { h.records with }, ⟨h.ups.nodup, fun v => ?_, hdisjoint, fun v => ?_⟩,
    ⟨h.fresh.request, fun a ha => ?_, h.fresh.stream, h.fresh.call, h.fresh.send,
      h.fresh.under⟩, { h.reads with }, h.responses⟩
  · exact h.links.idle v vp (hold v vp hv) hn
  · obtain ⟨h1, h2, vp, hv, hvs⟩ := h.wires.owner st x hx
    refine ⟨h1, h2, vp, (hup _).trans ((if_neg fun he => ?_).trans hv), hvs⟩
    rw [he, hu] at hv
    cases hv
    rw [hst] at hvs
    cases hvs
  · change (Function.update s.upstream u none v).isSome ↔ _
    rw [hup]
    refine Iff.trans ?_ (harray v).symm
    split
    · next he => simp [he]
    · next he => simpa [he] using h.ups.array v
  · refine (h.ups.ticks v).trans ?_
    change _ = if (Function.update s.upstream u none v).isSome ∧ v ∉ [] then 1 else 0
    rw [hup]
    by_cases he : v = u
    · simp [he]
    · simp [he]
  · change Function.update s.upstream u none a = none
    rw [hup, h.fresh.upstream a ha, ite_self]

end Moves

end RpcClient

open RpcClient

section Slot

/-- The last element moves to the place of the one removed. -/
theorem removeSlot_perm {l : List RpcRef} {u : RpcRef} (hu : u ∈ l) :
    (removeSlot l u).Perm (l.erase u) := by
  obtain ⟨l1, l2, hno, rfl, herase⟩ := List.exists_erase_eq hu
  have hset : ∀ z, (l1 ++ u :: l2).set ((l1 ++ u :: l2).idxOf u) z = l1 ++ z :: l2 := by
    intro z
    simp [List.idxOf_append, hno]
  rw [herase, removeSlot, hset]
  rcases List.eq_nil_or_concat l2 with rfl | ⟨init, last, rfl⟩
  · simp
  · have hlast : (l1 ++ u :: init.concat last).getLastD u = last := by
      rw [List.concat_eq_append, ← List.cons_append, ← List.append_assoc, List.getLastD_eq_getLast?,
        List.getLast?_concat]
      rfl
    rw [hlast, List.concat_eq_append, ← List.cons_append, ← List.append_assoc,
      List.dropLast_concat]
    exact List.Perm.append_left l1 (List.perm_append_singleton last init).symm

end Slot

section Functions
variable {w : RpcView} {p : Underway} {s : RpcClient} {u : RpcRef} {up : RpcUpstream}

theorem sioRpcFindUpstream_spec (h : s.Inv w p) (hgone : p.gone = []) (ip : String) (port : UInt16)
    {us : List RpcRef} (hus : us ⊆ s.upstreams) :
    ∃ found, sioRpcFindUpstream s ip port us = some found ∧
      ∀ u, found = some u → u ∈ s.upstreams := by
  induction us with
  | nil => exact ⟨none, rfl, nofun⟩
  | cons u us ih =>
    obtain ⟨hu, hus⟩ := List.cons_subset.mp hus
    obtain ⟨up, hup⟩ := Option.isSome_iff_exists.mp ((h.ups.array u).mpr
      (Or.inl ⟨hu, by rw [hgone]; exact List.not_mem_nil⟩))
    simp only [sioRpcFindUpstream, hup, Option.bind_eq_bind, Option.bind_some]
    split
    · exact ⟨some u, rfl, by rintro _ ⟨⟩; exact hu⟩
    · exact ih hus

theorem sioRpcAddUpstream_spec (h : s.Inv w p) (hgone : p.gone = []) (hapart : p.apart = [])
    (htick : p.ticking = []) (ip : String) (port : UInt16) (env : RpcEnv) :
    ∃ s', sioRpcAddUpstream s ip port env = some s' ∧ s'.Inv w p ∧ s.reqRecord ⊆ s'.reqRecord ∧
      s.KeepsStreams s' := by
  obtain ⟨loose, unarmed, answered, apart, gone, ticking, writing⟩ := p
  obtain rfl : apart = [] := hapart
  obtain rfl : ticking = [] := htick
  obtain ⟨found, hfind, -⟩ :=
    sioRpcFindUpstream_spec h hgone ip port (List.Subset.refl s.upstreams)
  unfold sioRpcAddUpstream
  simp only [hfind, Option.bind_eq_bind, Option.bind_some]
  cases found with
  | some v => exact ⟨s, rfl, h, List.Subset.refl _, .refl s⟩
  | none =>
    dsimp only
    generalize hnew : (⟨ip, port, none, 0, ∅, env.now, 1⟩ : RpcUpstream) = up
    have hst : up.stream = none := by rw [← hnew]
    have h1 := h.newUpstream hgone hst (by rw [← hnew]) (by rw [← hnew])
    have hnone : s.upstream s.fresh = none := h.fresh.upstream _ (Nat.le_refl _)
    have hkeep1 : s.KeepsStreams ({ s with fresh := s.fresh + 1 }.setUpstream s.fresh up) := by
      refine .of_stream rfl ?_ (Nat.le_succ _)
      rintro v st ⟨vp, hv, hvs⟩
      refine streamOf_setUpstream.mpr ((if_neg fun he => ?_).mpr ⟨vp, hv, hvs⟩)
      rw [he, hnone] at hv
      cases hv
    have hu1 : ({ s with fresh := s.fresh + 1 }.setUpstream s.fresh up).upstream s.fresh =
      some up := (upstream_setUpstream ..).trans (if_pos rfl)
    generalize hs1 : { s with fresh := s.fresh + 1 }.setUpstream s.fresh up = s1 at h1 hkeep1 hu1
    have hrec1 : s1.reqRecord = s.reqRecord := by rw [← hs1]; rfl
    obtain ⟨s2, ok, hcon, h2, hsame, hkeep2, -⟩ := sioRpcUpstreamConnect_spec h1 hu1 hst env
    simp only [hcon, Option.bind_some]
    have hsome : (s2.upstream s.fresh).isSome :=
      (h2.ups.array _).mpr (Or.inr List.mem_cons_self)
    have hnot : s.fresh ∉ s2.upstreams := h2.ups.disjoint _ List.mem_cons_self
    have h3 : (s2.startTimer (.upstream s.fresh)).Inv w
        ⟨loose, unarmed, answered, [s.fresh], gone, [], writing⟩ :=
      Inv.startTick (p := ⟨loose, unarmed, answered, [s.fresh], gone, [], writing⟩) h2 hsome
        List.not_mem_nil
    have hnd : (s2.upstreams ++ [s.fresh]).Nodup := by
      rw [List.nodup_append]
      exact ⟨h2.ups.nodup, List.nodup_singleton _, by
        rintro a ha b hb rfl
        exact hnot (List.mem_singleton.mp hb ▸ ha)⟩
    have h4 := h3.setArray (s2.upstreams ++ [s.fresh]) [] hnd nofun fun v => by
      simp [startTimer, show gone = [] from hgone]
    refine ⟨_, rfl, h4, ?_,
      (hkeep1.trans hkeep2).then (.of_stream rfl (fun _ _ => id) (Nat.le_refl _))⟩
    rw [← hrec1, ← hsame.reqRecord]
    exact List.Subset.refl _

theorem sioRpcReset_spec (h : s.Inv w p) (hu : s.upstream u = some up) (env : RpcEnv) :
    ∃ s' up', (if up.stream.isSome then sioRpcResetUpstream s u env else some s) = some s' ∧
      s'.Inv w p ∧ s'.reqRecord = s.reqRecord ∧ s'.upstreams = s.upstreams ∧ s'.log = s.log ∧
      s'.upstream u = some up' ∧ up'.stream = none := by
  cases hst : up.stream with
  | none => exact ⟨s, up, rfl, h, rfl, rfl, rfl, hu, hst⟩
  | some st =>
    obtain ⟨x, hx, hreset⟩ := sioRpcResetUpstream_eq h hu hst env
    exact ⟨_, _, hreset, h.disconnected hu hst hx _, disconnected_reqRecord .., rfl, rfl,
      Function.update_self .., rfl⟩

theorem sioRpcDropUpstream_spec (h : s.Inv w p) (htick : p.ticking = [])
    (hu : (s.upstream u).isSome) (env : RpcEnv) :
    ∃ (s' : RpcClient) (up' : RpcUpstream), s'.Inv w { p with ticking := [u] } ∧
      s'.upstreams = s.upstreams ∧
      s'.reqRecord = s.reqRecord ∧ s'.log = s.log ∧ s'.upstream u = some up' ∧
      up'.stream = none ∧ sioRpcDropUpstream s u env =
        some { s' with upstream := Function.update s'.upstream u none } := by
  obtain ⟨up, hup⟩ := Option.isSome_iff_exists.mp hu
  obtain ⟨s1, up1, hreset, h1, hrec, hups, hlog, hu1, hst1⟩ := sioRpcReset_spec h hup env
  obtain ⟨hstop, h2⟩ := h1.stopTick (u := u) (by rw [hu1]; rfl)
    (by rw [htick]; exact List.not_mem_nil)
  rw [htick] at h2
  refine ⟨_, up1, h2, hups, hrec, hlog, hu1, hst1, ?_⟩
  simp only [sioRpcDropUpstream, hup, Option.bind_eq_bind, Option.bind_some]
  split
  · next hsome =>
    rw [if_pos hsome] at hreset
    simp only [hreset, hstop, Option.bind_some]
  · next hnone =>
    rw [if_neg hnone, Option.some.injEq] at hreset
    simp only [hreset, hstop, Option.bind_some]

theorem sioRpcRemoveUpstream_spec (h : s.Inv w p) (hgone : p.gone = []) (hapart : p.apart = [])
    (htick : p.ticking = []) (ip : String) (port : UInt16) (env : RpcEnv) :
    ∃ s', sioRpcRemoveUpstream s ip port env = some s' ∧ s'.Inv w p ∧
      s'.reqRecord = s.reqRecord := by
  obtain ⟨loose, unarmed, answered, apart, gone, ticking, writing⟩ := p
  obtain rfl : apart = [] := hapart
  obtain rfl : ticking = [] := htick
  obtain rfl : gone = [] := hgone
  obtain ⟨found, hfind, hmem⟩ :=
    sioRpcFindUpstream_spec h rfl ip port (List.Subset.refl s.upstreams)
  unfold sioRpcRemoveUpstream
  simp only [hfind, Option.bind_eq_bind, Option.bind_some]
  cases found with
  | none => exact ⟨s, rfl, h, rfl⟩
  | some u =>
    have hu := hmem u rfl
    have hperm := removeSlot_perm hu
    have hslot : ∀ v, v ∈ removeSlot s.upstreams u ↔ v ≠ u ∧ v ∈ s.upstreams := fun v =>
      hperm.mem_iff.trans h.ups.nodup.mem_erase_iff
    have hsome : (s.upstream u).isSome := (h.ups.array u).mpr (Or.inl ⟨hu, List.not_mem_nil⟩)
    have h1 := h.setArray (removeSlot s.upstreams u) [u]
      (hperm.nodup_iff.mpr (h.ups.nodup.erase u)) (fun v hv => by
        rw [List.mem_singleton.mp hv, hslot]
        exact fun hne => hne.1 rfl) fun v => by
      rw [hslot]
      by_cases he : v = u
      · simp [he, hu]
      · simp [he]
    obtain ⟨s2, up2, h2, hups, hrec, -, hu2, hst2, hdrop⟩ :=
      sioRpcDropUpstream_spec h1 rfl hsome env
    refine ⟨_, hdrop, ?_, hrec⟩
    refine h2.freeUpstream hu2 hst2 [] [] (fun v => ?_) nofun
    rw [show s2.upstreams = removeSlot s.upstreams u from hups, hslot]
    by_cases he : v = u
    · simp [he]
    · simp [he]

theorem sioRpcUpstreamCheck_spec (h : s.Inv w p) (hu : (s.upstream u).isSome) (env : RpcEnv) :
    ∃ s', sioRpcUpstreamCheck s u env = some s' ∧ s'.Inv w p ∧ s'.reqRecord = s.reqRecord ∧
      (s'.upstream u).isSome := by
  obtain ⟨up, hup⟩ := Option.isSome_iff_exists.mp hu
  unfold sioRpcUpstreamCheck
  simp only [hup, Option.bind_eq_bind, Option.bind_some]
  cases hst : up.stream with
  | none => exact ⟨s, rfl, h, rfl, hu⟩
  | some st =>
    obtain ⟨x, hx, -⟩ := h.wires.stream u st ⟨up, hup, hst⟩
    obtain ⟨s', up', hreset, h', hrec, -, -, hu', -⟩ := sioRpcReset_spec h hup env
    rw [hst, if_pos Option.isSome_some] at hreset
    simp only [sioRpcUpstreamFull, hx, Option.bind_eq_bind, Option.bind_some]
    split
    · exact ⟨s', hreset, h', hrec, by rw [hu']; rfl⟩
    · exact ⟨s, rfl, h, rfl, hu⟩

theorem sioRpcUpstreamReconnect_spec (h : s.Inv w p) (hu : (s.upstream u).isSome) (env : RpcEnv) :
    ∃ s', sioRpcUpstreamReconnect s u env = some s' ∧ s'.Inv w p ∧ s'.reqRecord = s.reqRecord ∧
      (s'.upstream u).isSome := by
  obtain ⟨up, hup⟩ := Option.isSome_iff_exists.mp hu
  unfold sioRpcUpstreamReconnect
  simp only [hup, Option.bind_eq_bind, Option.bind_some]
  by_cases hc : up.stream.isNone = true ∧
      up.connDelay ≤ if up.lastConnTime < env.now then env.now - up.lastConnTime else 0
  · obtain ⟨s', ok, hcon, h', hsame, -, -⟩ :=
      sioRpcUpstreamConnect_spec h hup (Option.isNone_iff_eq_none.mp hc.1) env
    refine ⟨s', by rw [if_pos hc, hcon]; rfl, h', hsame.reqRecord, ?_⟩
    rw [h'.ups.array, hsame.upstreams, ← h.ups.array]
    exact hu
  · exact ⟨s, if_neg hc, h, rfl, hu⟩

theorem sioRpcUpstreamTimer_spec (h : s.Inv w { p with ticking := [u] })
    (htick : p.ticking = []) (hu : (s.upstream u).isSome) (env : RpcEnv) :
    ∃ s', sioRpcUpstreamTimer s u env = some s' ∧ s'.Inv w p ∧ s'.reqRecord = s.reqRecord := by
  obtain ⟨loose, unarmed, answered, apart, gone, ticking, writing⟩ := p
  obtain rfl : ticking = [] := htick
  obtain ⟨s1, hrun1, h1, hrec1, hu1⟩ := sioRpcUpstreamCheck_spec h hu env
  obtain ⟨s2, hrun2, h2, hrec2, hu2⟩ := sioRpcUpstreamReconnect_spec h1 hu1 env
  have h3 := Inv.startTick (p := ⟨loose, unarmed, answered, apart, gone, [], writing⟩) h2
    hu2 List.not_mem_nil
  refine ⟨_, ?_, h3, hrec2.trans hrec1⟩
  simp only [sioRpcUpstreamTimer, hrun1, hrun2, Option.bind_eq_bind, Option.bind_some]

end Functions

end SimpleKit
