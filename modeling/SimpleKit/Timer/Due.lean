import SimpleKit.Timer.PassOrder

set_option autoImplicit false

namespace SimpleKit
open Runs

def TimerEvent.leaves (waiting : Finset TimerRef) : TimerEvent → Finset TimerRef
  | .stopped t => waiting.erase t
  | .fired t _ _ _ => waiting.erase t
  | _ => waiting

def waitingAfter (armed : Finset TimerRef) (p : List TimerEvent) : Finset TimerRef :=
  p.foldl TimerEvent.leaves armed

def FiresStarted (p : List TimerEvent) : Prop :=
  ∃ t now timeoutMs e callback arg p1 p2 p3,
    p = p1 ++ .started t now timeoutMs :: (p2 ++ .fired t e callback arg :: p3)

variable {l l' : TimerLoop} {q : TimerQueue} {p : List TimerEvent} {e : TimerEvent}
  {t : TimerRef} {now : UInt64} {n : Nat}

theorem waitingAfter_snoc (armed : Finset TimerRef) (p : List TimerEvent) (e : TimerEvent) :
    waitingAfter armed (p ++ [e]) = e.leaves (waitingAfter armed p) := by
  rw [waitingAfter, List.foldl_append]
  rfl

theorem FiresStarted.snoc (h : FiresStarted p) : FiresStarted (p ++ [e]) := by
  obtain ⟨t, now, timeoutMs, expire, callback, arg, p1, p2, p3, rfl⟩ := h
  exact ⟨t, now, timeoutMs, expire, callback, arg, p1, p2, p3 ++ [e], by simp⟩

theorem firesStarted_of_fired {now' timeoutMs : UInt64} {expire callback arg : Nat}
    (h : .started t now' timeoutMs ∈ p) : FiresStarted (p ++ [.fired t expire callback arg]) := by
  obtain ⟨p1, p2, rfl⟩ := List.append_of_mem h
  exact ⟨t, now', timeoutMs, expire, callback, arg, p1, p2, [], by simp⟩

/-- What is known of the timers `q` that were armed when the pass began, and of those that were
started since. -/
structure ServingPass (now : UInt64) (n : Nat) (q : TimerQueue) (l : TimerLoop)
    (p : List TimerEvent) : Prop where
  inPass : InPass now n l p
  waits : ∀ t ∈ waitingAfter q.armed p, t ∈ l.queue.armed ∧ l.queue.expire t = q.expire t
  fresh : ∀ t ∈ l.queue.armed, t ∉ waitingAfter q.armed p →
    now.toNat ≤ l.queue.expire t ∧ ∃ now' timeoutMs, .started t now' timeoutMs ∈ p
  served : ∀ t ∈ q.armed, t ∉ waitingAfter q.armed p →
    .stopped t ∈ p ∨ ∃ callback arg, .fired t (q.expire t) callback arg ∈ p
  share : (FiresStarted p ∧ ∀ t ∈ waitingAfter q.armed p, now.toNat ≤ q.expire t) ∨
    (firedExpires p).length + (waitingAfter q.armed p).card ≤ n

theorem TimerLoop.Step.serving (hs : l.Step (.entered now) l') :
    ServingPass now l.queue.armed.card l.queue l' [] := by
  have hin := hs.inPass
  cases hs with
  | entered _ _ =>
    exact ⟨hin, fun t ht => ⟨ht, rfl⟩, fun t ht hno => absurd ht hno,
      fun t ht hno => absurd ht hno, Or.inr (Nat.zero_add _).le⟩

theorem ServingPass.waits_erase (h : ServingPass now n q l p) {u : TimerRef}
    (hu : u ∈ (waitingAfter q.armed p).erase t) :
    u ∈ l.queue.armed.erase t ∧ l.queue.expire u = q.expire u := by
  obtain ⟨hut, hu⟩ := Finset.mem_erase.mp hu
  obtain ⟨harmed, hexpire⟩ := h.waits u hu
  exact ⟨Finset.mem_erase.mpr ⟨hut, harmed⟩, hexpire⟩

theorem ServingPass.fresh_erase (h : ServingPass now n q l p) {u : TimerRef}
    (hu : u ∈ l.queue.armed.erase t) (hw : u ∉ (waitingAfter q.armed p).erase t) :
    now.toNat ≤ l.queue.expire u ∧ ∃ now' timeoutMs, .started u now' timeoutMs ∈ p ++ [e] := by
  obtain ⟨hut, hu⟩ := Finset.mem_erase.mp hu
  obtain ⟨hle, now1, ms1, hmem⟩ := h.fresh u hu fun hw' => hw (Finset.mem_erase.mpr ⟨hut, hw'⟩)
  exact ⟨hle, now1, ms1, List.mem_append_left _ hmem⟩

theorem ServingPass.served_snoc (h : ServingPass now n q l p) (ht : t ∈ q.armed)
    (hw : t ∉ waitingAfter q.armed p) : .stopped t ∈ p ++ [e] ∨
      ∃ callback arg, .fired t (q.expire t) callback arg ∈ p ++ [e] := by
  rcases h.served t ht hw with hmem | ⟨callback, arg, hmem⟩
  · exact Or.inl (List.mem_append_left _ hmem)
  · exact Or.inr ⟨callback, arg, List.mem_append_left _ hmem⟩

theorem ServingPass.started (h : ServingPass now n q l p) {now' timeoutMs : UInt64}
    (hs : l.Step (.started t now' timeoutMs) l')
    (hfit : (TimerEvent.started t now' timeoutMs).Fits) :
    ServingPass now n q l' (p ++ [.started t now' timeoutMs]) := by
  have hin := h.inPass.step hs (by simp) hfit
  have hwait : waitingAfter q.armed (p ++ [.started t now' timeoutMs]) = waitingAfter q.armed p :=
    waitingAfter_snoc _ _ _
  have hexpires : firedExpires (p ++ [.started t now' timeoutMs]) = firedExpires p := by
    rw [firedExpires_snoc]
    exact List.append_nil _
  cases hs with
  | started hno hclock =>
    refine ⟨hin, ?_, ?_, ?_, ?_⟩ <;> rw [hwait]
    · intro u hu
      obtain ⟨harmed, hexpire⟩ := h.waits u hu
      have hut : u ≠ t := fun he => hno (he ▸ harmed)
      exact ⟨Finset.mem_insert_of_mem harmed, (Function.update_of_ne hut _ _).trans hexpire⟩
    · intro u hu hw
      by_cases hut : u = t
      · subst hut
        have hnow : now.toNat ≤ now'.toNat :=
          UInt64.le_iff_toNat_le.mp (UInt64.le_trans h.inPass.clock hclock)
        refine ⟨?_, now', timeoutMs, by simp⟩
        show now.toNat ≤ Function.update l.queue.expire u (now' + timeoutMs).toNat u
        rw [Function.update_self, hfit.toNat_add]
        omega
      · obtain ⟨hle, now1, ms1, hmem⟩ := h.fresh u ((Finset.mem_insert.mp hu).resolve_left hut) hw
        refine ⟨?_, now1, ms1, List.mem_append_left _ hmem⟩
        exact hle.trans (Function.update_of_ne hut _ _).ge
    · exact fun u => h.served_snoc
    · rw [hexpires]
      exact h.share.imp_left fun ⟨hf, hall⟩ => ⟨hf.snoc, hall⟩

theorem ServingPass.stopped (h : ServingPass now n q l p) (hs : l.Step (.stopped t) l') :
    ServingPass now n q l' (p ++ [.stopped t]) := by
  have hin := h.inPass.step hs (by simp) trivial
  have hwait : waitingAfter q.armed (p ++ [.stopped t]) = (waitingAfter q.armed p).erase t :=
    waitingAfter_snoc _ _ _
  have hexpires : firedExpires (p ++ [.stopped t]) = firedExpires p := by
    rw [firedExpires_snoc]
    exact List.append_nil _
  cases hs with
  | stopped ht =>
    refine ⟨hin, ?_, ?_, ?_, ?_⟩ <;> rw [hwait]
    · exact fun u => h.waits_erase
    · exact fun u => h.fresh_erase
    · intro u hu hw
      by_cases hut : u = t
      · exact Or.inl (by simp [hut])
      · exact h.served_snoc hu fun hw' => hw (Finset.mem_erase.mpr ⟨hut, hw'⟩)
    · have hcard := Finset.card_erase_le (s := waitingAfter q.armed p) (a := t)
      rw [hexpires]
      rcases h.share with ⟨hf, hall⟩ | hle
      · exact Or.inl ⟨hf.snoc, fun u hu => hall u (Finset.mem_of_mem_erase hu)⟩
      · exact Or.inr (by omega)

/-- A timer that waited takes one of the shares; one that did not expires at `now` or later, and
so do all that still wait. -/
theorem ServingPass.fired (h : ServingPass now n q l p) {expire callback arg : Nat}
    (hs : l.Step (.fired t expire callback arg) l') :
    ServingPass now n q l' (p ++ [.fired t expire callback arg]) := by
  have hin := h.inPass.step hs (by simp) trivial
  have hwait : waitingAfter q.armed (p ++ [.fired t expire callback arg]) =
      (waitingAfter q.armed p).erase t := waitingAfter_snoc _ _ _
  have hexpires : firedExpires (p ++ [.fired t expire callback arg]) = firedExpires p ++ [expire] :=
    firedExpires_snoc _ _
  obtain ⟨rfl, hnext⟩ := hs.fired_next
  cases hs with
  | fired _ _ _ _ =>
    refine ⟨hin, ?_, ?_, ?_, ?_⟩ <;> rw [hwait]
    · exact fun u => h.waits_erase
    · exact fun u => h.fresh_erase
    · intro u hu hw
      by_cases huw : u ∈ waitingAfter q.armed p
      · have hut : u = t := by
          by_contra hut
          exact hw (Finset.mem_erase.mpr ⟨hut, huw⟩)
        rw [← (h.waits u huw).2, hut]
        exact Or.inr ⟨callback, arg, by simp⟩
      · exact h.served_snoc hu huw
    · rw [hexpires, List.length_append]
      by_cases htw : t ∈ waitingAfter q.armed p
      · have hcard := Finset.card_erase_add_one htw
        rcases h.share with ⟨hf, hall⟩ | hle
        · exact Or.inl ⟨hf.snoc, fun u hu => hall u (Finset.mem_of_mem_erase hu)⟩
        · exact Or.inr (by simp only [List.length_singleton]; omega)
      · obtain ⟨hle, now1, ms1, hmem⟩ := h.fresh t hnext.1 htw
        refine Or.inl ⟨firesStarted_of_fired hmem, fun u hu => ?_⟩
        obtain ⟨harmed, hexpire⟩ := h.waits u (Finset.mem_of_mem_erase hu)
        rw [← hexpire]
        exact hle.trans (hnext.2 u harmed)

theorem ServingPass.step (h : ServingPass now n q l p) (hs : l.Step e l') (hret : e ≠ .returned)
    (hfit : e.Fits) : ServingPass now n q l' (p ++ [e]) := by
  cases e with
  | started t now' timeoutMs => exact h.started hs hfit
  | stopped t => exact h.stopped hs
  | fired t expire callback arg => exact h.fired hs
  | entered now' =>
    have hpass := h.inPass.pass
    cases hs with
    | entered hno _ =>
      rw [hno] at hpass
      exact absurd hpass (by simp)
  | returned => exact absurd rfl hret

theorem ServingPass.returned (h : ServingPass now n q l p) (hs : l.Step .returned l')
    (ht : t ∈ q.armed) (hdue : q.expire t ≤ now.toNat) (hstop : .stopped t ∉ p) :
    (∃ callback arg, .fired t (q.expire t) callback arg ∈ p) ∨
      q.expire t = now.toNat ∧ FiresStarted p := by
  by_cases hw : t ∈ waitingAfter q.armed p
  · right
    obtain ⟨harmed, hexpire⟩ := h.waits t hw
    have hfull : n ≤ (firedExpires p).length := by
      by_contra hlt
      have hlater := h.inPass.returned hs (not_le.mp hlt)
      cases hs with
      | returned _ _ =>
        have hlate : now.toNat < l.queue.expire t := hlater t harmed
        omega
    have hpos := Finset.card_pos.mpr ⟨t, hw⟩
    rcases h.share with ⟨hf, hall⟩ | hle
    · exact ⟨le_antisymm hdue (hall t hw), hf⟩
    · omega
  · exact Or.inl ((h.served t ht hw).resolve_left hstop)

/-- Whatever the callbacks do, a pass serves every timer that was due before `now` and is not
stopped; of those that are due at `now` just then it may leave some if it fires a timer that was
started during the pass. -/
theorem timer_pass_serves {s : SioTimers} {q : TimerQueue} (hq : s.stMgr.Refines q) {now : UInt64}
    {calls : List TimerCall} (hok : Along sioTimersStep TimerCallOk s (.enter now :: calls))
    (hfit : ∀ c ∈ calls, c.Fits) :
    ∃ s' log, run sioTimersStep s (.enter now :: calls) = some (s', .entered now :: log) ∧
      ∀ p, log = p ++ [.returned] → .returned ∉ p →
        ∀ t, s.stMgr.Has t → s.stMgr.expire t ≤ now.toNat → .stopped t ∉ p →
          (∃ callback arg, .fired t (s.stMgr.expire t) callback arg ∈ p) ∨
            s.stMgr.expire t = now.toNat ∧ FiresStarted p := by
  have hstart : s.Refines ⟨q, s.clock, s.pass⟩ := ⟨hq, rfl, rfl⟩
  obtain ⟨l1, hs1, h1⟩ := sioTimerRunEnter_refines hstart hok.1
  obtain ⟨s', log, l', hrun, htrace, -, hfits⟩ := sioTimers_trace h1 (hok.2 _ _ rfl)
  refine ⟨s', log, by rw [run_cons rfl, hrun]; rfl, ?_⟩
  rintro p rfl hret t ht hdue hstop
  obtain ⟨l2, hp, h⟩ := htrace.of_append
  obtain ⟨l3, hs, -⟩ := h.of_cons
  have hserving : ServingPass now q.armed.card q l2 p := by
    refine Trace.invariant (ServingPass now q.armed.card q)
      (fun e => e ≠ .returned ∧ e.Fits)
      (fun l p e l' hin hok hs => hin.step hs hok.1 hok.2) hs1.serving hp fun e he => ⟨?_, ?_⟩
    · rintro rfl
      exact hret he
    · exact hfits hfit e (List.mem_append_left _ he)
  rw [hq.expire_eq] at hdue ⊢
  exact hserving.returned hs ((hq.has t).mp ht) hdue hstop

def timerDueSampleStart : SioTimers :=
  sioTimersNew (fun _ => 0) (fun _ => 0) (fun _ => 0) (fun _ => 0) 0

/-- Three timers that expire at 5, the first of which starts itself again, with timeout 0, each
time it is called. -/
def timerDueSampleStarts : List TimerCall :=
  [.start 1 0 7 0 5, .start 2 0 8 0 5, .start 3 0 8 0 5]

def timerDueSamplePass : List TimerCall :=
  [.enter 5, .round, .start 1 0 7 0 5, .round, .round, .start 1 0 7 0 5, .round]

/-- Every timer of the heap that is due at `now` and that `p` does not stop is fired in `p`. -/
def ServesDue (m : TimerMgr) (now : UInt64) (p : List TimerEvent) : Prop :=
  ∀ t, m.Has t → m.expire t ≤ now.toNat → .stopped t ∉ p →
    ∃ callback arg, .fired t (m.expire t) callback arg ∈ p

/-- Timer 2 is due and nobody stops it, but timer 1 is fired twice in its place. -/
theorem timer_pass_leaves_due : ∃ s starts s' p,
    run sioTimersStep timerDueSampleStart timerDueSampleStarts = some (s, starts) ∧
      Along sioTimersStep TimerCallOk s timerDueSamplePass ∧ (∀ c ∈ timerDueSamplePass, c.Fits) ∧
      run sioTimersStep s timerDueSamplePass = some (s', .entered 5 :: (p ++ [.returned])) ∧
      .returned ∉ p ∧ ¬ ServesDue s.stMgr 5 p := by
  refine ⟨_, _, _, [.fired 1 5 7 0, .started 1 5 0, .fired 3 5 8 0, .fired 1 5 7 0, .started 1 5 0],
    rfl, by decide +kernel, by decide +kernel, rfl, by decide, fun h => ?_⟩
  obtain ⟨callback, arg, hmem⟩ := h 2 (by decide +kernel) (by decide +kernel) (by decide)
  simp at hmem

theorem timer_pass_serves_sample : ∃ s starts,
    run sioTimersStep timerDueSampleStart timerDueSampleStarts = some (s, starts) ∧
      ∃ s' log, run sioTimersStep s timerDueSamplePass = some (s', .entered 5 :: log) ∧
        ∀ p, log = p ++ [.returned] → .returned ∉ p →
          ∀ t, s.stMgr.Has t → s.stMgr.expire t ≤ (5 : UInt64).toNat → .stopped t ∉ p →
            (∃ callback arg, .fired t (s.stMgr.expire t) callback arg ∈ p) ∨
              s.stMgr.expire t = (5 : UInt64).toNat ∧ FiresStarted p := by
  have hall : Along sioTimersStep TimerCallOk timerDueSampleStart
      (timerDueSampleStarts ++ timerDueSamplePass) := by decide +kernel
  have hok : Along sioTimersStep TimerCallOk timerDueSampleStart timerDueSampleStarts := by
    decide +kernel
  obtain ⟨s, starts, l, hrun, -, h, -⟩ :=
    sioTimers_trace (l := ⟨⟨∅, fun _ => 0⟩, 0, none⟩) ⟨timerNew_refines _ _, rfl, rfl⟩ hok
  exact ⟨s, starts, hrun, timer_pass_serves h.queue (hall.of_append hrun) (by decide +kernel)⟩

end SimpleKit
