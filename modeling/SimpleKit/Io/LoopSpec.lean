import Mathlib.Data.List.Induction
import Mathlib.Data.List.Nodup
import SimpleKit.Io.Loop

set_option autoImplicit false

namespace SimpleKit.Loop

structure SioReg where
  fd : Int
  watchRead : Bool
  watchWrite : Bool
  userCallback : Nat
  userArg : Nat
  deriving DecidableEq, Repr

def SioReg.watch (reg : SioReg) : SioEvent → Bool → SioReg
  | .read, on => { reg with watchRead := on }
  | .write, on => { reg with watchWrite := on }
  | .error, _ => reg

def SioReg.watches (reg : SioReg) : SioEvent → Bool
  | .read => reg.watchRead
  | .write => reg.watchWrite
  | .error => true

/-- `dead` is deleted and not freed yet, and `batch` what the kernel has told, in a loop. -/
structure SioSpec where
  live : SfdRef → Option SioReg
  dead : List SfdRef
  next : SfdRef
  batch : Option (List (SfdRef × SioEvents))

def SioSpec.start : SioSpec := ⟨fun _ => none, [], 0, none⟩

/-- The call is one for `reg`, is watched for, and the kernel has told of the event. -/
def SioSpec.MayCall (t : SioSpec) (r : SfdRef) (event : SioEvent) (fd : Int)
    (callback arg : Nat) : Prop :=
  ∃ reg ∈ t.live r, reg.fd = fd ∧ reg.userCallback = callback ∧ reg.userArg = arg ∧
    reg.watches event = true ∧ ∃ batch ∈ t.batch, ∃ x ∈ batch, x.1 = r ∧ x.2.has event = true

instance (t : SioSpec) (r : SfdRef) (event : SioEvent) (fd : Int) (callback arg : Nat) :
    Decidable (t.MayCall r event fd callback arg) :=
  inferInstanceAs (Decidable (∃ reg ∈ t.live r, _))

def SioSpec.update (t : SioSpec) (r : SfdRef) (f : SioReg → SioReg) : Option SioSpec :=
  (t.live r).map fun reg => { t with live := Function.update t.live r (some (f reg)) }

/-- The monitor: `none` if that must not happen. -/
def SioSpec.step (t : SioSpec) : SioTrace → Option SioSpec
  | .add r fd callback arg =>
    if r = t.next then
      some { t with
        live := Function.update t.live r (some ⟨fd, false, false, callback, arg⟩)
        next := t.next + 1 }
    else none
  | .set r callback arg => t.update r fun reg =>
    { reg with userCallback := callback, userArg := arg }
  | .watch r event on => t.update r fun reg => reg.watch event on
  | .del r => (t.live r).map fun _ =>
    { t with live := Function.update t.live r none, dead := t.dead ++ [r] }
  | .wait batch =>
    if t.batch = none ∧ t.dead = [] ∧ ∀ x ∈ batch, (t.live x.1).isSome then
      some { t with batch := some batch }
    else none
  | .call r event fd callback arg => if t.MayCall r event fd callback arg then some t else none
  | .done => t.batch.map fun _ => { t with batch := none }
  | .free r =>
    if t.batch = none ∧ t.dead.head? = some r then some { t with dead := t.dead.tail } else none

def batchOf (l : List SioTrace) : Option (List (SfdRef × SioEvents)) :=
  l.foldl (fun batch e =>
    match e with
    | .wait batch => some batch
    | .done => none
    | _ => batch) none

def watchedAfter (r : SfdRef) (event : SioEvent) (l : List SioTrace) : Bool :=
  l.foldl (fun watched e =>
    match e with
    | .add r' _ _ _ => if r' = r then false else watched
    | .watch r' event' on => if r' = r ∧ event' = event then on else watched
    | _ => watched) false

def Added (r : SfdRef) (l : List SioTrace) : Prop :=
  ∃ fd callback arg, SioTrace.add r fd callback arg ∈ l

/-- No call is made for an sfd that was deleted, none for an event that is not watched, and none
that the kernel did not tell for this very sfd; an sfd that is deleted is freed once, and not
before the loop has ended. -/
structure LoopSafe (trace : List SioTrace) : Prop where
  add : ∀ l r fd callback arg, l ++ [.add r fd callback arg] <+: trace → ¬ Added r l
  wait : ∀ l batch, l ++ [.wait batch] <+: trace →
    ∀ x ∈ batch, Added x.1 l ∧ SioTrace.del x.1 ∉ l
  call : ∀ l r event fd callback arg, l ++ [.call r event fd callback arg] <+: trace →
    SioTrace.del r ∉ l ∧ (event = .error ∨ watchedAfter r event l = true) ∧
      ∃ batch events, batchOf l = some batch ∧ (r, events) ∈ batch ∧ events.has event = true
  free : ∀ l r, l ++ [.free r] <+: trace →
    SioTrace.del r ∈ l ∧ SioTrace.free r ∉ l ∧ batchOf l = none
  freed : ∀ r, SioTrace.del r ∈ trace → SioTrace.free r ∈ trace

structure SioSpec.Knows (t : SioSpec) (l : List SioTrace) : Prop where
  batch : t.batch = batchOf l
  live : ∀ r reg, t.live r = some reg → Added r l ∧ SioTrace.del r ∉ l ∧
    ∀ event, reg.watches event = true → event = .error ∨ watchedAfter r event l = true
  dead : ∀ r, r ∈ t.dead ↔ SioTrace.del r ∈ l ∧ SioTrace.free r ∉ l
  nodup : t.dead.Nodup
  added : ∀ r, Added r l → r < t.next
  deleted : ∀ r, SioTrace.del r ∈ l → Added r l
  freed : ∀ r, SioTrace.free r ∈ l → SioTrace.del r ∈ l

section Appended
variable {r : SfdRef} {l : List SioTrace} {e : SioTrace}

theorem added_append : Added r (l ++ [e]) ↔ Added r l ∨ Added r [e] := by
  simp only [Added, List.mem_append, exists_or]

theorem watchedAfter_append (event : SioEvent) : watchedAfter r event (l ++ [e]) =
    match e with
    | .add r' _ _ _ => if r' = r then false else watchedAfter r event l
    | .watch r' event' on => if r' = r ∧ event' = event then on else watchedAfter r event l
    | _ => watchedAfter r event l := by
  rw [watchedAfter, List.foldl_append]
  rfl

theorem batchOf_append : batchOf (l ++ [e]) =
    match e with
    | .wait batch => some batch
    | .done => none
    | _ => batchOf l := by
  rw [batchOf, List.foldl_append]
  rfl

theorem watches_watch {reg : SioReg} {event event' : SioEvent} {on : Bool}
    (h : (reg.watch event on).watches event' = true) :
    event' = .error ∨ event = event' ∧ on = true ∨ event ≠ event' ∧ reg.watches event' = true := by
  cases event <;> cases event' <;> simp_all [SioReg.watch, SioReg.watches]

end Appended

section Monitor
variable {t t' : SioSpec} {l : List SioTrace} {e : SioTrace}

def SafeAfter (l : List SioTrace) : SioTrace → Prop
  | .add r _ _ _ => ¬ Added r l
  | .wait batch => ∀ x ∈ batch, Added x.1 l ∧ SioTrace.del x.1 ∉ l
  | .call r event _ _ _ =>
    SioTrace.del r ∉ l ∧ (event = .error ∨ watchedAfter r event l = true) ∧
      ∃ batch events, batchOf l = some batch ∧ (r, events) ∈ batch ∧ events.has event = true
  | .free r => SioTrace.del r ∈ l ∧ SioTrace.free r ∉ l ∧ batchOf l = none
  | _ => True

theorem SioSpec.Knows.safeAfter (h : t.Knows l) (hstep : t.step e = some t') : SafeAfter l e := by
  cases e with
  | add r fd callback arg =>
    obtain ⟨hr, -⟩ := Option.ite_none_right_eq_some.mp hstep
    exact fun hadded => absurd (h.added r hadded) (hr ▸ Nat.lt_irrefl _)
  | wait batch =>
    obtain ⟨⟨-, -, hlive⟩, -⟩ := Option.ite_none_right_eq_some.mp hstep
    intro x hx
    obtain ⟨reg, hreg⟩ := Option.isSome_iff_exists.mp (hlive x hx)
    exact ⟨(h.live x.1 reg hreg).1, (h.live x.1 reg hreg).2.1⟩
  | call r event fd callback arg =>
    obtain ⟨⟨reg, hreg, -, -, -, hwatch, batch, hbatch, x, hx, hxr, hhas⟩, -⟩ :=
      Option.ite_none_right_eq_some.mp hstep
    obtain ⟨-, hdel, hwatched⟩ := h.live r reg hreg
    refine ⟨hdel, hwatched event hwatch, batch, x.2, ?_, hxr ▸ hx, hhas⟩
    rw [← h.batch]
    exact hbatch
  | free r =>
    obtain ⟨⟨hbatch, hhead⟩, -⟩ := Option.ite_none_right_eq_some.mp hstep
    obtain ⟨hdel, hfree⟩ := (h.dead r).mp (List.mem_of_mem_head? hhead)
    exact ⟨hdel, hfree, h.batch ▸ hbatch⟩
  | set r callback arg => trivial
  | del r => trivial
  | watch r event on => trivial
  | done => trivial

def Quiet : SioTrace → Prop
  | .add _ _ _ _ | .del _ | .free _ => False
  | _ => True

theorem quiet_mem (hq : Quiet e) (r : SfdRef) :
    (Added r (l ++ [e]) ↔ Added r l) ∧ (SioTrace.del r ∈ l ++ [e] ↔ SioTrace.del r ∈ l) ∧
      (SioTrace.free r ∈ l ++ [e] ↔ SioTrace.free r ∈ l) := by
  cases e <;> first | exact hq.elim | simp [Added]

theorem SioSpec.Knows.quiet (h : t.Knows l) (hq : Quiet e) {live : SfdRef → Option SioReg}
    {batch : Option (List (SfdRef × SioEvents))} (hbatch : batch = batchOf (l ++ [e]))
    (hlive : ∀ r reg, live r = some reg → (t.live r).isSome ∧ ∀ event,
      reg.watches event = true → event = .error ∨ watchedAfter r event (l ++ [e]) = true) :
    { t with live := live, batch := batch }.Knows (l ++ [e]) where
  batch := hbatch
  live r reg hreg := by
    obtain ⟨hsome, hwatched⟩ := hlive r reg hreg
    obtain ⟨reg', hreg'⟩ := Option.isSome_iff_exists.mp hsome
    obtain ⟨hadded, hdel, -⟩ := h.live r reg' hreg'
    obtain ⟨hadded', hdel', -⟩ := quiet_mem (l := l) hq r
    exact ⟨hadded'.mpr hadded, fun hd => hdel (hdel'.mp hd), hwatched⟩
  dead r := by
    rw [(quiet_mem hq r).2.1, (quiet_mem hq r).2.2]
    exact h.dead r
  nodup := h.nodup
  added r hr := h.added r ((quiet_mem hq r).1.mp hr)
  deleted r hr := (quiet_mem hq r).1.mpr (h.deleted r ((quiet_mem hq r).2.1.mp hr))
  freed r hr := (quiet_mem hq r).2.1.mpr (h.freed r ((quiet_mem hq r).2.2.mp hr))

theorem SioSpec.Knows.update (h : t.Knows l) (hq : Quiet e) {r : SfdRef} {f : SioReg → SioReg}
    (hstep : t.update r f = some t') (hbatch : batchOf (l ++ [e]) = batchOf l)
    (hother : ∀ r' event, r' ≠ r → watchedAfter r' event (l ++ [e]) = watchedAfter r' event l)
    (hself : ∀ reg, t.live r = some reg → ∀ event, (f reg).watches event = true →
      event = .error ∨ watchedAfter r event (l ++ [e]) = true) :
    t'.Knows (l ++ [e]) := by
  obtain ⟨reg, hreg, rfl⟩ := Option.map_eq_some_iff.mp hstep
  refine h.quiet hq (h.batch.trans hbatch.symm) fun r' reg' hreg' => ?_
  by_cases hr : r' = r
  · subst hr
    rw [Function.update_self, Option.some.injEq] at hreg'
    exact ⟨by rw [hreg]; rfl, hreg' ▸ hself reg hreg⟩
  · rw [Function.update_of_ne hr] at hreg'
    refine ⟨by rw [hreg']; rfl, fun event hw => ?_⟩
    rw [hother r' event hr]
    exact (h.live r' reg' hreg').2.2 event hw

theorem SioSpec.Knows.add (h : t.Knows l) {r : SfdRef} {fd : Int} {callback arg : Nat}
    (hstep : t.step (.add r fd callback arg) = some t') :
    t'.Knows (l ++ [.add r fd callback arg]) := by
  obtain ⟨rfl, he⟩ := Option.ite_none_right_eq_some.mp hstep
  obtain rfl := Option.some.inj he
  have hnew : ¬ Added t.next l := fun hadded => Nat.lt_irrefl _ (h.added _ hadded)
  have hmem : ∀ r, (SioTrace.del r ∈ l ++ [.add t.next fd callback arg] ↔ SioTrace.del r ∈ l) ∧
      (SioTrace.free r ∈ l ++ [.add t.next fd callback arg] ↔ SioTrace.free r ∈ l) := by simp
  have hbatch := batchOf_append (l := l) (e := .add t.next fd callback arg)
  refine ⟨h.batch.trans hbatch.symm, fun r reg hreg => ?_, fun r => ?_, h.nodup,
    fun r hr => ?_, fun r hr => ?_, fun r hr => ?_⟩
  · rw [(hmem r).1]
    by_cases hr : r = t.next
    · subst hr
      dsimp only at hreg
      rw [Function.update_self, Option.some.injEq] at hreg
      refine ⟨added_append.mpr (Or.inr ⟨fd, callback, arg, List.mem_cons_self⟩),
        fun hd => hnew (h.deleted _ hd), fun event hw => Or.inl ?_⟩
      subst hreg
      cases event <;> first | rfl | cases hw
    · dsimp only at hreg
      rw [Function.update_of_ne hr] at hreg
      obtain ⟨hadded, hdel, hwatched⟩ := h.live r reg hreg
      refine ⟨added_append.mpr (Or.inl hadded), hdel, fun event hw => ?_⟩
      rw [watchedAfter_append]
      dsimp only
      rw [if_neg (Ne.symm hr)]
      exact hwatched event hw
  · rw [(hmem r).1, (hmem r).2]
    exact h.dead r
  · rcases added_append.mp hr with hr | ⟨_, _, _, hr⟩
    · exact Nat.lt_succ_of_lt (h.added r hr)
    · obtain ⟨rfl, -⟩ := SioTrace.add.inj (List.mem_singleton.mp hr)
      exact Nat.lt_succ_self _
  · exact added_append.mpr (Or.inl (h.deleted r ((hmem r).1.mp hr)))
  · exact (hmem r).1.mpr (h.freed r ((hmem r).2.mp hr))

theorem SioSpec.Knows.del (h : t.Knows l) {r : SfdRef} (hstep : t.step (.del r) = some t') :
    t'.Knows (l ++ [.del r]) := by
  obtain ⟨reg, hreg, rfl⟩ := Option.map_eq_some_iff.mp hstep
  obtain ⟨hadded, hdel, -⟩ := h.live r reg hreg
  have hfree : SioTrace.free r ∉ l := fun hf => hdel (h.freed r hf)
  have hmem : ∀ r', (Added r' (l ++ [.del r]) ↔ Added r' l) ∧
      (SioTrace.del r' ∈ l ++ [.del r] ↔ SioTrace.del r' ∈ l ∨ r' = r) ∧
      (SioTrace.free r' ∈ l ++ [.del r] ↔ SioTrace.free r' ∈ l) := by simp [Added]
  have hbatch := batchOf_append (l := l) (e := .del r)
  refine ⟨h.batch.trans hbatch.symm, fun r' reg' hreg' => ?_, fun r' => ?_, ?_,
    fun r' hr' => h.added r' ((hmem r').1.mp hr'), fun r' hr' => ?_, fun r' hr' => ?_⟩
  · by_cases hr : r' = r
    · subst hr
      dsimp only at hreg'
      rw [Function.update_self] at hreg'
      cases hreg'
    · dsimp only at hreg'
      rw [Function.update_of_ne hr] at hreg'
      obtain ⟨hadded', hdel', hwatched⟩ := h.live r' reg' hreg'
      rw [(hmem r').1, (hmem r').2.1, or_iff_left hr]
      exact ⟨hadded', hdel', fun event hw => by rw [watchedAfter_append]; exact hwatched event hw⟩
  · rw [(hmem r').2.1, (hmem r').2.2, List.mem_append, List.mem_singleton, h.dead r']
    constructor
    · rintro (⟨hd, hf⟩ | rfl)
      · exact ⟨Or.inl hd, hf⟩
      · exact ⟨Or.inr rfl, hfree⟩
    · rintro ⟨hd | rfl, hf⟩
      · exact Or.inl ⟨hd, hf⟩
      · exact Or.inr rfl
  · refine List.nodup_append.mpr ⟨h.nodup, List.nodup_singleton r, fun a ha b hb => ?_⟩
    rw [List.mem_singleton.mp hb]
    exact fun he => hdel (he ▸ ((h.dead a).mp ha).1)
  · rw [(hmem r').1]
    rcases (hmem r').2.1.mp hr' with hd | rfl
    · exact h.deleted r' hd
    · exact hadded
  · exact (hmem r').2.1.mpr (Or.inl (h.freed r' ((hmem r').2.2.mp hr')))

theorem SioSpec.Knows.free (h : t.Knows l) {r : SfdRef} (hstep : t.step (.free r) = some t') :
    t'.Knows (l ++ [.free r]) := by
  obtain ⟨⟨-, hhead⟩, he⟩ := Option.ite_none_right_eq_some.mp hstep
  obtain rfl := Option.some.inj he
  obtain ⟨rest, hdead⟩ : ∃ rest, t.dead = r :: rest := by
    cases hd : t.dead with
    | nil => rw [hd] at hhead; cases hhead
    | cons a rest =>
      rw [hd] at hhead
      exact ⟨rest, by rw [Option.some.inj hhead]⟩
  have hnodup := h.nodup
  rw [hdead, List.nodup_cons] at hnodup
  have hdel : SioTrace.del r ∈ l := ((h.dead r).mp (hdead ▸ List.mem_cons_self)).1
  have hmem : ∀ r', (Added r' (l ++ [.free r]) ↔ Added r' l) ∧
      (SioTrace.del r' ∈ l ++ [.free r] ↔ SioTrace.del r' ∈ l) ∧
      (SioTrace.free r' ∈ l ++ [.free r] ↔ SioTrace.free r' ∈ l ∨ r' = r) := by simp [Added]
  have hbatch := batchOf_append (l := l) (e := .free r)
  refine ⟨h.batch.trans hbatch.symm, fun r' reg hreg => ?_, fun r' => ?_, ?_,
    fun r' hr' => h.added r' ((hmem r').1.mp hr'), fun r' hr' => ?_, fun r' hr' => ?_⟩
  · obtain ⟨hadded, hdel, hwatched⟩ := h.live r' reg hreg
    rw [(hmem r').1, (hmem r').2.1]
    exact ⟨hadded, hdel, fun event hw => by rw [watchedAfter_append]; exact hwatched event hw⟩
  · rw [hdead, List.tail_cons, (hmem r').2.1, (hmem r').2.2, not_or, ← and_assoc, ← h.dead r',
      hdead, List.mem_cons]
    constructor
    · exact fun hr => ⟨Or.inr hr, fun he => hnodup.1 (he ▸ hr)⟩
    · rintro ⟨rfl | hr, hne⟩
      · exact absurd rfl hne
      · exact hr
  · rw [hdead, List.tail_cons]
    exact hnodup.2
  · exact (hmem r').1.mpr (h.deleted r' ((hmem r').2.1.mp hr'))
  · rw [(hmem r').2.1]
    rcases (hmem r').2.2.mp hr' with hf | rfl
    · exact h.freed r' hf
    · exact hdel

theorem SioSpec.Knows.step (h : t.Knows l) (hstep : t.step e = some t') : t'.Knows (l ++ [e]) := by
  -- what is watched does not change with an event that is not of that kind
  have hsame : (∀ r event, watchedAfter r event (l ++ [e]) = watchedAfter r event l) →
      ∀ r reg, t.live r = some reg → (t.live r).isSome ∧ ∀ event,
        reg.watches event = true → event = .error ∨ watchedAfter r event (l ++ [e]) = true := by
    intro heq r reg hreg
    exact ⟨by rw [hreg]; rfl, fun event hw => heq r event ▸ (h.live r reg hreg).2.2 event hw⟩
  cases e with
  | add r fd callback arg => exact h.add hstep
  | del r => exact h.del hstep
  | free r => exact h.free hstep
  | set r callback arg =>
    refine h.update trivial hstep batchOf_append (fun _ _ _ => watchedAfter_append _)
      fun reg hreg event hw => ?_
    rw [watchedAfter_append]
    exact (h.live r reg hreg).2.2 event (by cases event <;> exact hw)
  | watch r event on =>
    refine h.update trivial hstep batchOf_append (fun r' event' hr => ?_)
      fun reg hreg event' hw => ?_
    · rw [watchedAfter_append]
      exact if_neg fun hc => hr hc.1.symm
    · rw [watchedAfter_append]
      dsimp only
      rcases watches_watch hw with herr | ⟨heq, hon⟩ | ⟨hne, hw⟩
      · exact Or.inl herr
      · rw [if_pos ⟨rfl, heq⟩]
        exact Or.inr hon
      · rw [if_neg fun hc => hne hc.2]
        exact (h.live r reg hreg).2.2 event' hw
  | wait batch =>
    obtain ⟨-, he⟩ := Option.ite_none_right_eq_some.mp hstep
    obtain rfl := Option.some.inj he
    have hbatch := batchOf_append (l := l) (e := .wait batch)
    exact h.quiet (e := .wait batch) trivial hbatch.symm
      (hsame fun _ _ => watchedAfter_append _)
  | call r event fd callback arg =>
    obtain ⟨-, he⟩ := Option.ite_none_right_eq_some.mp hstep
    obtain rfl := Option.some.inj he
    have hbatch := batchOf_append (l := l) (e := .call r event fd callback arg)
    exact h.quiet (e := .call r event fd callback arg) trivial (h.batch.trans hbatch.symm)
      (hsame fun _ _ => watchedAfter_append _)
  | done =>
    obtain ⟨_, -, rfl⟩ := Option.map_eq_some_iff.mp hstep
    have hbatch := batchOf_append (l := l) (e := .done)
    exact h.quiet (e := .done) trivial hbatch.symm
      (hsame fun _ _ => watchedAfter_append _)

def SioSpec.Passes (t : SioSpec) (trace : List SioTrace) : Prop :=
  trace.foldlM SioSpec.step SioSpec.start = some t

theorem SioSpec.Passes.snoc (h : t.Passes l) (hstep : t.step e = some t') :
    t'.Passes (l ++ [e]) := by
  rw [SioSpec.Passes, List.foldlM_append, h]
  simpa using hstep

theorem SioSpec.Passes.shorter {trace : List SioTrace} (h : t.Passes trace) (hl : l <+: trace) :
    ∃ t, SioSpec.Passes t l := by
  obtain ⟨rest, rfl⟩ := hl
  rw [SioSpec.Passes, List.foldlM_append] at h
  obtain ⟨t1, h1, -⟩ := Option.bind_eq_some_iff.mp h
  exact ⟨t1, h1⟩

theorem SioSpec.Passes.knows (h : t.Passes l) : t.Knows l := by
  induction l using List.reverseRecOn generalizing t with
  | nil =>
    obtain rfl := Option.some.inj h
    have hnone : ∀ e : SioTrace, e ∉ [] := fun _ => List.not_mem_nil
    refine ⟨rfl, fun _ _ hr => (by cases hr), fun r => ?_, List.nodup_nil, ?_, ?_, ?_⟩
    · exact iff_of_false List.not_mem_nil fun hd => hnone _ hd.1
    · exact fun r ⟨_, _, _, hr⟩ => absurd hr (hnone _)
    · exact fun r hr => absurd hr (hnone _)
    · exact fun r hr => absurd hr (hnone _)
  | append_singleton l e ih =>
    rw [SioSpec.Passes, List.foldlM_append] at h
    obtain ⟨t1, h1, hstep⟩ := Option.bind_eq_some_iff.mp h
    exact (ih h1).step (by simpa using hstep)

theorem SioSpec.Passes.safeAfter {trace : List SioTrace} (h : t.Passes trace)
    (hl : l ++ [e] <+: trace) : SafeAfter l e := by
  obtain ⟨t', h'⟩ := h.shorter hl
  rw [SioSpec.Passes, List.foldlM_append] at h'
  obtain ⟨t1, h1, hstep⟩ := Option.bind_eq_some_iff.mp h'
  exact (SioSpec.Passes.knows h1).safeAfter (e := e) (by simpa using hstep : t1.step e = some t')

/-- What passes the monitor, and leaves nothing dead, is safe. -/
theorem SioSpec.Passes.loopSafe {trace : List SioTrace} (h : t.Passes trace) (hdead : t.dead = []) :
    LoopSafe trace where
  add _ _ _ _ _ hl := h.safeAfter hl
  wait _ _ hl := h.safeAfter hl
  call _ _ _ _ _ _ hl := h.safeAfter hl
  free _ _ hl := h.safeAfter hl
  freed r hr := by
    by_contra hf
    have hmem := (h.knows.dead r).mpr ⟨hr, hf⟩
    rw [hdead] at hmem
    cases hmem

end Monitor

end SimpleKit.Loop
