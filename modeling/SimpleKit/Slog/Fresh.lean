import Mathlib.Order.Defs.LinearOrder
import SimpleKit.Slog.Decode

set_option autoImplicit false

namespace SimpleKit
open Runs Guard Directory

def SlogThreadEvent.times : SlogThreadEvent → List SlogTime
  | .write _ _ t | .rotate _ t => [t]
  | _ => []

/-- A call reads a time that localtime_r may return, and that no call has read before. -/
def SlogFresh (s : SlogThreads) (e : SlogThreadEvent) : Prop :=
  ∀ t ∈ e.times, t.Valid ∧ t ∉ s.calls.map SlogThread.time

/-- The name of an archive is given when the call of its time renames the log, which it does
once. -/
structure SlogArchived (filename : List UInt8) (s : SlogThreads) : Prop where
  names : ∀ t : SlogTime, t.Valid → s.dir.names (slogDestFilename filename t) ≠ none →
    ∃ (c : Nat) (call : SlogThread), s.calls[c]? = some call ∧ call.time = t ∧ call.point.left < 7
  valid : ∀ call ∈ s.calls, call.time.Valid
  times : (s.calls.map SlogThread.time).Nodup

section Archives
variable {filename : List UInt8} {t t' : SlogTime}

theorem SlogTime.units_inj : t.units = t'.units ↔ t = t' := by
  obtain ⟨y, mo, d, h, mi, s, u⟩ := t
  obtain ⟨y', mo', d', h', mi', s', u'⟩ := t'
  simp [SlogTime.units]

/-- Times differ if their archives do not have the same name. -/
theorem slogDestFilename_inj (hname : filename.length ≤ 4000) (ht : t.Valid) (ht' : t'.Valid)
    (h : slogDestFilename filename t = slogDestFilename filename t') : t = t' := by
  rw [slogDestFilename_eq hname ht, slogDestFilename_eq hname ht', List.append_cancel_left_eq] at h
  rw [← SlogTime.units_inj]
  refine List.le_antisymm (fun hlt => ?_) (fun hlt => ?_)
  · rw [← slogArchiveWire_lt ht' ht, h] at hlt
    exact List.lt_irrefl _ hlt
  · rw [← slogArchiveWire_lt ht ht', h] at hlt
    exact List.lt_irrefl _ hlt

theorem slogDestFilename_ne (hname : filename.length ≤ 4000) (ht : t.Valid) :
    slogDestFilename filename t ≠ filename := by
  rw [slogDestFilename_eq hname ht]
  intro h
  have hnil := List.append_right_eq_self.mp h
  rw [slogArchiveWire] at hnil
  cases (List.append_eq_nil_iff.mp hnil).1

end Archives

section Steps
variable {filename : List UInt8} {s s' : SlogThreads} {x : SlogEffect} {c : Nat} {ok : Bool}
  {call : SlogThread} {proc proc' : SlogProcess} {dir : SlogDir} {owner : Option Nat}
  {point : SlogPoint}

theorem SlogDoes.past (h : SlogDoes filename s c call proc ok dir owner proc' point x)
    (hpast : call.point.left < 7) : point.left < 7 := by
  have hpast : ∀ {pt : SlogPoint}, call.point = pt → pt.left < 7 := fun he => he ▸ hpast
  cases h with
  | again => exact hpast rfl
  | mutexLock hpoint | flockEx hpoint | stat hpoint | rename hpoint | renameFails hpoint =>
    exact absurd (hpast hpoint) (by decide)
  | @reopenFails after hpoint =>
    cases after with
    | none => exact Nat.lt_of_lt_of_le (by decide : 3 < 7) (Nat.le_refl 7)
    | some st => exact absurd (hpast hpoint) (by simp [SlogPoint.left])
  | @reopen after hpoint => exact Nat.lt_trans (reopen_left after _).2 (hpast hpoint)
  | @dup2 _ i after hpoint => exact Nat.lt_trans (reopen_left after i).1 (hpast hpoint)
  | @fstat _ after hpoint => exact Nat.lt_trans (slogReopened_left after _) (hpast hpoint)
  | flockUn | silent | writev => decide
  | mutexUnlock => split <;> decide

theorem openCreate_names_ne {d : SlogDir} {n m : List UInt8} (h : m ≠ n) :
    (d.openCreate n).1.names m = d.names m := by
  cases hn : d.names n with
  | some i => rw [openCreate_of_bound hn]
  | none =>
    rw [openCreate, hn]
    exact Function.update_of_ne h ..

theorem rename_names_ne {d : SlogDir} {a b m : List UInt8} (h : m ≠ b)
    (hm : (d.rename a b).names m ≠ none) : d.names m ≠ none := by
  rw [rename] at hm
  split at hm
  · exact hm
  · change Function.update (Function.update d.names a none) b (d.names a) m ≠ none at hm
    rw [Function.update_of_ne h] at hm
    by_cases ha : m = a
    · rw [ha, Function.update_self] at hm
      exact absurd rfl hm
    · rwa [Function.update_of_ne ha] at hm

theorem SlogThreads.advance_times (hcall : s.calls[c]? = some call) :
    (s.advance c call dir owner proc' point).calls.map SlogThread.time =
      s.calls.map SlogThread.time := by
  rw [SlogThreads.advance, List.map_set]
  refine set_same ?_
  rw [List.getElem?_map, hcall]
  rfl

theorem slogThreadStep_times {e : SlogThreadEvent}
    (hstep : slogThreadStep filename s e = some (s', x)) :
    ∃ ts : List SlogTime, ts.Sublist e.times ∧
      s'.calls.map SlogThread.time = s.calls.map SlogThread.time ++ ts := by
  cases slogThreadStep_acts hstep with
  | write | rotate => exact ⟨_, .refl _, List.map_append⟩
  | proceed hcall _ _ =>
    exact ⟨[], List.nil_sublist _, (SlogThreads.advance_times hcall).trans (List.append_nil _).symm⟩
  | _ => exact ⟨[], List.nil_sublist _, (List.append_nil _).symm⟩

theorem SlogArchived.same (h : SlogArchived filename s) {j : Nat} {call1 : SlogThread}
    (hcall : s.calls[c]? = some call) (hj : s.calls[j]? = some call1)
    (htime : call1.time = call.time) : j = c := by
  have hc' : (s.calls.map SlogThread.time)[c]? = some call.time := by
    rw [List.getElem?_map, hcall]
    rfl
  have hj' : (s.calls.map SlogThread.time)[j]? = some call.time := by
    rw [List.getElem?_map, hj, ← htime]
    rfl
  obtain ⟨hlt, -⟩ := List.getElem?_eq_some_iff.mp hj'
  exact (List.getElem?_inj hlt h.times).mp (hj'.trans hc'.symm)

/-- The archive of a call that is about to rename the log has a name that is free. -/
theorem SlogArchived.free (h : SlogArchived filename s) (hcall : s.calls[c]? = some call)
    (hpoint : call.point = .rename) :
    s.dir.names (slogDestFilename filename call.time) = none := by
  by_contra hne
  obtain ⟨j, call1, hj, htime, hleft⟩ := h.names _ (h.valid _ (List.mem_of_getElem? hcall)) hne
  obtain rfl := h.same hcall hj htime
  obtain rfl := Option.some.inj (hj.symm.trans hcall)
  rw [hpoint] at hleft
  exact absurd hleft (by decide)

theorem SlogArchived.advance (h : SlogArchived filename s)
    (hdoes : SlogDoes filename s c call proc ok dir owner proc' point x)
    (hcall : s.calls[c]? = some call)
    (hnames : ∀ t : SlogTime, t.Valid → dir.names (slogDestFilename filename t) ≠ none →
      s.dir.names (slogDestFilename filename t) ≠ none ∨ t = call.time ∧ point.left < 7) :
    SlogArchived filename (s.advance c call dir owner proc' point) := by
  have hat : (s.advance c call dir owner proc' point).calls[c]? =
      some { call with point := point } := by
    rw [SlogThreads.advance, get_set hcall, if_pos rfl]
  refine ⟨fun t ht hne => ?_, fun call1 h1 => ?_, ?_⟩
  · rcases hnames t ht hne with hold | ⟨rfl, hleft⟩
    · obtain ⟨j, call1, hj, htime, hleft⟩ := h.names t ht hold
      by_cases hjc : j = c
      · subst hjc
        obtain rfl := Option.some.inj (hj.symm.trans hcall)
        exact ⟨j, _, hat, htime, hdoes.past hleft⟩
      · refine ⟨j, call1, ?_, htime, hleft⟩
        rw [SlogThreads.advance, get_set hcall, if_neg hjc]
        exact hj
    · exact ⟨c, _, hat, rfl, hleft⟩
  · rcases List.mem_or_eq_of_mem_set h1 with h1 | rfl
    · exact h.valid call1 h1
    · exact h.valid call (List.mem_of_getElem? hcall)
  · rw [SlogThreads.advance_times hcall]
    exact h.times

theorem SlogArchived.does (hname : filename.length ≤ 4000) (h : SlogArchived filename s)
    (hdoes : SlogDoes filename s c call proc ok dir owner proc' point x)
    (hcall : s.calls[c]? = some call) :
    SlogArchived filename (s.advance c call dir owner proc' point) ∧ x.replaced = none := by
  have hkept : dir.names = s.dir.names → SlogArchived filename
      (s.advance c call dir owner proc' point) := fun hdir =>
    h.advance hdoes hcall fun t _ hne => Or.inl (hdir ▸ hne)
  cases hdoes with
  | reopen hpoint =>
    refine ⟨h.advance (.reopen hpoint) hcall fun t ht hne => Or.inl ?_, rfl⟩
    rwa [openCreate_names_ne (slogDestFilename_ne hname ht)] at hne
  | rename hpoint =>
    have hfree := h.free hcall hpoint
    have hvalid := h.valid call (List.mem_of_getElem? hcall)
    refine ⟨h.advance (.rename hpoint) hcall fun t ht hne => ?_,
      replaced_eq_none.mpr (Or.inr (Or.inl hfree))⟩
    by_cases htime : t = call.time
    · exact Or.inr ⟨htime, by decide⟩
    · refine Or.inl (rename_names_ne (fun he => htime ?_) hne)
      exact slogDestFilename_inj hname ht hvalid he
  | _ => exact ⟨hkept rfl, rfl⟩

theorem SlogArchived.step (hname : filename.length ≤ 4000) {e : SlogThreadEvent}
    (h : SlogArchived filename s) (hfresh : SlogFresh s e)
    (hstep : slogThreadStep filename s e = some (s', x)) :
    SlogArchived filename s' ∧ x.replaced = none := by
  have hpush : ∀ call : SlogThread, call.time.Valid ∧ call.time ∉ s.calls.map SlogThread.time →
      SlogArchived filename { s with calls := s.calls ++ [call] } := by
    rintro call ⟨hvalid, hnew⟩
    refine ⟨fun t ht hne => ?_, fun call1 h1 => ?_, ?_⟩
    · obtain ⟨c, call1, hc, htime, hleft⟩ := h.names t ht hne
      exact ⟨c, call1, get_push.mpr (Or.inl hc), htime, hleft⟩
    · rcases List.mem_append.mp h1 with h1 | h1
      · exact h.valid call1 h1
      · exact List.mem_singleton.mp h1 ▸ hvalid
    · rw [List.map_append]
      refine List.nodup_append.mpr ⟨h.times, List.pairwise_singleton .., fun t ht t1 h1 he => ?_⟩
      obtain rfl := List.mem_singleton.mp h1
      exact hnew (he ▸ ht)
  cases slogThreadStep_acts hstep with
  | «open» =>
    refine ⟨⟨fun t ht hne => h.names t ht ?_, h.valid, h.times⟩, rfl⟩
    rwa [← openCreate_names_ne (slogDestFilename_ne hname ht)]
  | write | rotate => exact ⟨hpush _ (hfresh _ (List.mem_singleton_self _)), rfl⟩
  | proceed hcall _ hdoes => exact h.does hname hdoes hcall
  | _ => exact ⟨⟨h.names, h.valid, h.times⟩, rfl⟩

end Steps

section Runs
variable {filename : List UInt8} {dir : SlogDir} {es : List SlogThreadEvent} {s : SlogThreads}
  {xs : List SlogEffect}

theorem slogFresh_along (hvalid : ∀ t ∈ es.flatMap SlogThreadEvent.times, t.Valid)
    (hnodup : (s.calls.map SlogThread.time ++ es.flatMap SlogThreadEvent.times).Nodup) :
    Along (slogThreadStep filename) SlogFresh s es := by
  induction es generalizing s with
  | nil => trivial
  | cons e es ih =>
    rw [List.flatMap_cons] at hvalid hnodup
    refine ⟨fun t ht => ⟨hvalid t (List.mem_append_left _ ht), fun hmem => ?_⟩,
      fun s' x hstep => ih (fun t ht => hvalid t (List.mem_append_right _ ht)) ?_⟩
    · exact (List.nodup_append.mp hnodup).2.2 t hmem t (List.mem_append_left _ ht) rfl
    · obtain ⟨ts, hsub, htimes⟩ := slogThreadStep_times hstep
      rw [htimes, List.append_assoc]
      exact hnodup.sublist ((hsub.append_right _).append_left _)

/-- Where no archive is yet, and no two calls read the same time, every line that is written stays
in a file with a name, however the calls of threads and processes interleave. -/
theorem slog_fresh_keeps (hname : filename.length ≤ 4000)
    (hnone : ∀ t : SlogTime, t.Valid → dir.names (slogDestFilename filename t) = none)
    (hvalid : ∀ t ∈ es.flatMap SlogThreadEvent.times, t.Valid)
    (hnodup : (es.flatMap SlogThreadEvent.times).Nodup)
    (hrun : run (slogThreadStep filename) (slogThreadsStart dir) es = some (s, xs)) :
    LinesKept s.dir xs := by
  have hstart : SlogArchived filename (slogThreadsStart dir) :=
    ⟨fun t ht hne => absurd (hnone t ht) hne, fun _ h => absurd h List.not_mem_nil, .nil⟩
  have hall := run_collects
    (fun s xs => SlogArchived filename s ∧ ∀ x ∈ xs, SlogEffect.replaced x = none) (fun x => [x])
    (fun s t e s' x h hok hstep => by
      obtain ⟨harch, hx⟩ := h.1.step hname hok hstep
      refine ⟨harch, fun y hy => ?_⟩
      rcases List.mem_append.mp hy with hy | hy
      · exact h.2 y hy
      · exact List.mem_singleton.mp hy ▸ hx)
    ⟨hstart, fun x hx => absurd hx List.not_mem_nil⟩ (slogFresh_along hvalid hnodup) hrun
  rw [List.nil_append, List.flatMap_singleton'] at hall
  -- what has no name any more was replaced, and nothing is
  intro i hne
  obtain ⟨hkept, hsub⟩ := (slogInv_threads hrun).lines i hne
  refine ⟨hkept.2.elim id ?_, hsub⟩
  rintro ⟨x, hx, hi⟩
  rw [hall.2 x hx] at hi
  cases hi

/-- Two processes archive the log one after the other, the calls in between each other. -/
theorem slog_fresh_keeps_sample : ∃ s xs,
    run (slogThreadStep [108]) (slogThreadsStart .empty) (slogLinesSample 2) = some (s, xs) ∧
      [0, 1, 2].map (fun i => (s.dir.files i).length) = [1, 1, 1] ∧ LinesKept s.dir xs := by
  have hlines : (run (slogThreadStep [108]) (slogThreadsStart .empty) (slogLinesSample 2)).map
      (fun x => [0, 1, 2].map fun i => (x.1.dir.files i).length) = some [1, 1, 1] := by
    decide +kernel
  obtain ⟨⟨s, xs⟩, hrun, hlength⟩ := Option.map_eq_some_iff.mp hlines
  have hvalid : ∀ t ∈ (slogLinesSample 2).flatMap SlogThreadEvent.times, t.Valid := by
    intro t ht
    have htime : t ∈ [0, 1, 2].map slogSampleTime := ht
    obtain ⟨usec, husec, rfl⟩ := List.mem_map.mp htime
    simp only [List.mem_cons, List.not_mem_nil, or_false] at husec
    rcases husec with rfl | rfl | rfl <;> constructor <;> decide
  exact ⟨s, xs, hrun, hlength,
    slog_fresh_keeps (by decide) (fun _ _ => rfl) hvalid (by decide +kernel) hrun⟩

end Runs

end SimpleKit
