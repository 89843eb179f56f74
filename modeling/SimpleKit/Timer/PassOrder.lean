import SimpleKit.Timer.Pass

/-!
A pass over the timers fires in order, every arming at most once, and never more timers than
were armed when it began. What carries this is that every timer that is armed expires no
earlier than those that were fired: a callback that starts one adds to a clock that was read
after `now`.
-/
set_option autoImplicit false

namespace SimpleKit
open Runs

def TimerEvent.arms (armed : Finset TimerRef) : TimerEvent → Finset TimerRef
  | .started t _ _ => insert t armed
  | .stopped t => armed.erase t
  | .fired t _ _ _ => armed.erase t
  | .entered _ => armed
  | .returned => armed

def armedAfter (armed : Finset TimerRef) (log : List TimerEvent) : Finset TimerRef :=
  log.foldl TimerEvent.arms armed

def TimerEvent.firedExpire : TimerEvent → Option Nat
  | .fired _ expire _ _ => some expire
  | _ => none

def firedExpires (log : List TimerEvent) : List Nat := log.filterMap TimerEvent.firedExpire

def TimerEvent.Disarms (t : TimerRef) : TimerEvent → Prop
  | .stopped u => u = t
  | .fired u _ _ _ => u = t
  | _ => False

/-- A timer that is fired was started, and after it was last fired or stopped. -/
structure FiresOnce (armed : Finset TimerRef) (log : List TimerEvent) : Prop where
  started : ∀ t e callback arg l1 l2, log = l1 ++ .fired t e callback arg :: l2 →
    t ∈ armed ∨ ∃ now timeoutMs, .started t now timeoutMs ∈ l1
  again : ∀ t x e callback arg l1 l2 l3, TimerEvent.Disarms t x →
    log = l1 ++ x :: (l2 ++ .fired t e callback arg :: l3) →
    ∃ now timeoutMs, .started t now timeoutMs ∈ l2

def PassesInOrder (armed : Finset TimerRef) (log : List TimerEvent) : Prop :=
  ∀ l1 now p l2, log = l1 ++ .entered now :: (p ++ l2) → .returned ∉ p →
    (firedExpires p).Pairwise (· ≤ ·) ∧ (∀ e ∈ firedExpires p, e ≤ now.toNat) ∧
      (firedExpires p).length ≤ (armedAfter armed l1).card

variable {l l' : TimerLoop} {armed : Finset TimerRef} {log p : List TimerEvent} {e : TimerEvent}
  {t : TimerRef}

theorem TimerLoop.Step.armed_eq (hs : l.Step e l') :
    l'.queue.armed = e.arms l.queue.armed := by
  cases hs <;> rfl

theorem armedAfter_trace (h : Trace TimerLoop.Step l log l') :
    l'.queue.armed = armedAfter l.queue.armed log := by
  induction h with
  | nil => rfl
  | cons hs _ ih =>
    rw [ih, hs.armed_eq]
    rfl

theorem TimerEvent.mem_arms (h : t ∈ e.arms armed) :
    t ∈ armed ∨ ∃ now timeoutMs, e = .started t now timeoutMs := by
  cases e with
  | started u now timeoutMs =>
    rcases Finset.mem_insert.mp h with rfl | h
    · exact Or.inr ⟨now, timeoutMs, rfl⟩
    · exact Or.inl h
  | stopped u => exact Or.inl (Finset.mem_of_mem_erase h)
  | fired u e callback arg => exact Or.inl (Finset.mem_of_mem_erase h)
  | entered now => exact Or.inl h
  | returned => exact Or.inl h

theorem mem_armedAfter (h : t ∈ armedAfter armed log) :
    t ∈ armed ∨ ∃ now timeoutMs, .started t now timeoutMs ∈ log := by
  induction log generalizing armed with
  | nil => exact Or.inl h
  | cons e log ih =>
    rcases ih h with h | ⟨now, timeoutMs, hmem⟩
    · rcases TimerEvent.mem_arms h with h | ⟨now, timeoutMs, rfl⟩
      · exact Or.inl h
      · exact Or.inr ⟨now, timeoutMs, List.mem_cons_self⟩
    · exact Or.inr ⟨now, timeoutMs, List.mem_cons_of_mem e hmem⟩

theorem TimerEvent.Disarms.notMem (h : e.Disarms t) : t ∉ e.arms armed := by
  cases e with
  | stopped u =>
    obtain rfl : u = t := h
    exact Finset.notMem_erase u armed
  | fired u expire callback arg =>
    obtain rfl : u = t := h
    exact Finset.notMem_erase u armed
  | started u now timeoutMs => exact h.elim
  | entered now => exact h.elim
  | returned => exact h.elim

theorem TimerLoop.Step.fired_next {expire callback arg : Nat}
    (hs : l.Step (.fired t expire callback arg) l') :
    expire = l.queue.expire t ∧ l.queue.IsNext (some t) := by
  cases hs with
  | fired _ _ hnext _ => exact ⟨rfl, hnext⟩

theorem firesOnce_trace (h : Trace TimerLoop.Step l log l') : FiresOnce l.queue.armed log := by
  constructor
  · rintro t e callback arg l1 l2 rfl
    obtain ⟨la, h1, h⟩ := h.of_append
    obtain ⟨lb, hs, -⟩ := h.of_cons
    have ht := hs.fired_next.2.1
    rw [armedAfter_trace h1] at ht
    exact mem_armedAfter ht
  · rintro t x e callback arg l1 l2 l3 hx rfl
    obtain ⟨la, -, h⟩ := h.of_append
    obtain ⟨lb, hsx, h⟩ := h.of_cons
    obtain ⟨lc, h2, h⟩ := h.of_append
    obtain ⟨ld, hs, -⟩ := h.of_cons
    have ht := hs.fired_next.2.1
    rw [armedAfter_trace h2, hsx.armed_eq] at ht
    exact (mem_armedAfter ht).resolve_left hx.notMem

/-- In a pass that read `now` and found `n` timers, after `p` was seen of it. -/
structure InPass (now : UInt64) (n : Nat) (l : TimerLoop) (p : List TimerEvent) : Prop where
  pass : l.pass = some ⟨now, n, (firedExpires p).length⟩
  clock : now ≤ l.clock
  sorted : (firedExpires p).Pairwise (· ≤ ·)
  due : ∀ e ∈ firedExpires p, e ≤ now.toNat
  bound : (firedExpires p).length ≤ n
  later : ∀ e ∈ firedExpires p, ∀ t ∈ l.queue.armed, e ≤ l.queue.expire t

theorem firedExpires_snoc (p : List TimerEvent) (e : TimerEvent) :
    firedExpires (p ++ [e]) = firedExpires p ++ e.firedExpire.toList := by
  rw [firedExpires, List.filterMap_append]
  cases he : e.firedExpire <;> simp [he, firedExpires]

theorem TimerEvent.Fits.toNat_add {now timeoutMs : UInt64}
    (h : (TimerEvent.started t now timeoutMs).Fits) :
    (now + timeoutMs).toNat = now.toNat + timeoutMs.toNat := by
  rw [UInt64.toNat_add, Nat.mod_eq_of_lt h]

variable {now : UInt64} {n : Nat}

theorem TimerLoop.Step.inPass (hs : l.Step (.entered now) l') :
    InPass now l.queue.armed.card l' [] := by
  cases hs with
  | entered hpass hclock =>
    exact ⟨rfl, UInt64.le_refl _, List.Pairwise.nil, nofun, Nat.zero_le _, nofun⟩

theorem InPass.step (h : InPass now n l p) (hs : l.Step e l') (hret : e ≠ .returned)
    (hfit : e.Fits) : InPass now n l' (p ++ [e]) := by
  have hpass := h.pass
  cases hs with
  | @started t now' timeoutMs ht hclock =>
    have hlog : firedExpires (p ++ [.started t now' timeoutMs]) = firedExpires p := by
      simp [firedExpires_snoc, TimerEvent.firedExpire]
    refine ⟨by rw [hlog]; exact h.pass, UInt64.le_trans h.clock hclock, hlog ▸ h.sorted,
      hlog ▸ h.due, hlog ▸ h.bound, fun e he u hu => ?_⟩
    rw [hlog] at he
    show e ≤ Function.update l.queue.expire t (now' + timeoutMs).toNat u
    by_cases hut : u = t
    · have hnow : now.toNat ≤ now'.toNat :=
        UInt64.le_iff_toNat_le.mp (UInt64.le_trans h.clock hclock)
      have hdue := h.due e he
      rw [hut, Function.update_self, hfit.toNat_add]
      omega
    · rw [Function.update_of_ne hut]
      exact h.later e he u ((Finset.mem_insert.mp hu).resolve_left hut)
  | @stopped t ht =>
    have hlog : firedExpires (p ++ [.stopped t]) = firedExpires p := by
      simp [firedExpires_snoc, TimerEvent.firedExpire]
    refine ⟨by rw [hlog]; exact h.pass, h.clock, hlog ▸ h.sorted, hlog ▸ h.due, hlog ▸ h.bound,
      fun e he u hu => ?_⟩
    rw [hlog] at he
    exact h.later e he u (Finset.mem_of_mem_erase hu)
  | entered hno _ =>
    rw [hno] at hpass
    exact absurd hpass (by simp)
  | @fired q t callback arg hq hlt hnext hdue =>
    rw [hq] at hpass
    obtain rfl := Option.some.inj hpass
    have hlog : firedExpires (p ++ [.fired t (l.queue.expire t) callback arg]) =
        firedExpires p ++ [l.queue.expire t] := firedExpires_snoc _ _
    refine ⟨by simp [hlog], h.clock, ?_, ?_, ?_, ?_⟩
    · rw [hlog]
      refine List.pairwise_append.mpr ⟨h.sorted, List.pairwise_singleton _ _, ?_⟩
      intro e he e' he'
      rw [List.mem_singleton.mp he']
      exact h.later e he t hnext.1
    · intro e he
      rw [hlog, List.mem_append, List.mem_singleton] at he
      rcases he with he | rfl
      · exact h.due e he
      · exact hdue
    · rw [hlog, List.length_append]
      exact hlt
    · intro e he u hu
      have hu := Finset.mem_of_mem_erase hu
      rw [hlog, List.mem_append, List.mem_singleton] at he
      rcases he with he | rfl
      · exact h.later e he u hu
      · exact hnext.2 u hu
  | returned _ _ => exact absurd rfl hret

theorem InPass.trace (h : InPass now n l []) (ht : Trace TimerLoop.Step l p l')
    (hret : .returned ∉ p) (hfit : ∀ e ∈ p, e.Fits) : InPass now n l' p := by
  refine Trace.invariant (InPass now n) (fun e => e ≠ .returned ∧ e.Fits)
    (fun l p e l' hin hok hs => hin.step hs hok.1 hok.2) h ht fun e he => ⟨?_, hfit e he⟩
  rintro rfl
  exact hret he

/-- A pass that fired fewer than it may left nothing that is due. -/
theorem InPass.returned (h : InPass now n l p) (hs : l.Step .returned l')
    (hlt : (firedExpires p).length < n) : ∀ t ∈ l'.queue.armed, now.toNat < l'.queue.expire t := by
  have hpass := h.pass
  cases hs with
  | returned hq hdone =>
    rw [hq] at hpass
    obtain rfl := Option.some.inj hpass
    exact hdone.resolve_left (not_le.mpr hlt)

theorem Trace.inPass {l1 l2 : List TimerEvent}
    (h : Trace TimerLoop.Step l (l1 ++ .entered now :: (p ++ l2)) l')
    (hret : .returned ∉ p) (hfit : ∀ e ∈ p, e.Fits) :
    ∃ la, InPass now (armedAfter l.queue.armed l1).card la p ∧ Trace TimerLoop.Step la l2 l' := by
  obtain ⟨la, h1, h⟩ := h.of_append
  obtain ⟨lb, hs, h⟩ := h.of_cons
  obtain ⟨lc, hp, h2⟩ := h.of_append
  refine ⟨lc, ?_, h2⟩
  rw [← armedAfter_trace h1]
  exact hs.inPass.trace hp hret hfit

/-- Whatever the callbacks do, a pass fires in the order in which the timers expire, none of them
early, none that is stopped, each arming once, and no more than there were at its start; if it
fires fewer then none that is left is due. -/
theorem timer_pass_in_order {s : SioTimers} {q : TimerQueue} (hq : s.stMgr.Refines q)
    {calls : List TimerCall} (hok : Along sioTimersStep TimerCallOk s calls)
    (hfit : ∀ c ∈ calls, c.Fits) :
    ∃ s' log, run sioTimersStep s calls = some (s', log) ∧ FiresOnce q.armed log ∧
      PassesInOrder q.armed log ∧
      ∀ l1 now p, log = l1 ++ .entered now :: (p ++ [.returned]) → .returned ∉ p →
        (firedExpires p).length < (armedAfter q.armed l1).card →
        ∀ t, s'.stMgr.Has t → now.toNat < s'.stMgr.expire t := by
  obtain ⟨s', log, l', hrun, htrace, h', hfits⟩ := sioTimers_trace
    (l := ⟨q, s.clock, s.pass⟩) ⟨hq, rfl, rfl⟩ hok
  have hfits := hfits hfit
  refine ⟨s', log, hrun, firesOnce_trace htrace, ?_, ?_⟩
  · rintro l1 now p l2 rfl hret
    obtain ⟨la, hin, -⟩ := Trace.inPass htrace hret fun e he => hfits e (by simp [he])
    exact ⟨hin.sorted, hin.due, hin.bound⟩
  · rintro l1 now p rfl hret hlt t ht
    obtain ⟨la, hin, h⟩ := Trace.inPass htrace hret fun e he => hfits e (by simp [he])
    obtain ⟨lb, hs, h⟩ := h.of_cons
    cases h
    rw [h'.queue.expire_eq]
    exact hin.returned hs hlt t ((h'.queue.has t).mp ht)

/-- Timer 2 is started again by its own callback, which also stops timer 1. -/
def timerPassSampleCalls : List TimerCall :=
  [.start 1 10 7 0 100, .start 2 0 7 1 100, .start 3 0 7 2 100, .enter 100, .round,
    .start 2 0 7 1 101, .stop 1, .round, .round, .enter 120, .round, .round]

def timerPassSampleStart : SioTimers :=
  sioTimersNew (fun _ => 0) (fun _ => 0) (fun _ => 0) (fun _ => 0) 0

theorem timer_pass_in_order_sample : ∃ s' log,
    run sioTimersStep timerPassSampleStart timerPassSampleCalls = some (s', log) ∧
      FiresOnce ∅ log ∧ PassesInOrder ∅ log ∧
      ∀ l1 now p, log = l1 ++ .entered now :: (p ++ [.returned]) → .returned ∉ p →
        (firedExpires p).length < (armedAfter ∅ l1).card →
        ∀ t, s'.stMgr.Has t → now.toNat < s'.stMgr.expire t :=
  have hok : Along sioTimersStep TimerCallOk timerPassSampleStart timerPassSampleCalls := by
    decide +kernel
  timer_pass_in_order (timerNew_refines _ _) hok (by decide +kernel)

end SimpleKit
