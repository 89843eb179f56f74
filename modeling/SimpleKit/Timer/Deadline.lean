import SimpleKit.Timer.PassOrder

set_option autoImplicit false

namespace SimpleKit
open Runs

structure Arming where
  clock : UInt64
  timeoutMs : UInt64
  deriving DecidableEq, Repr

def Arming.deadline (a : Arming) : Nat := a.clock.toNat + a.timeoutMs.toNat

def TimerEvent.arming (armings : TimerRef → Option Arming) : TimerEvent → TimerRef → Option Arming
  | .started t now timeoutMs => Function.update armings t (some ⟨now, timeoutMs⟩)
  | .stopped t => Function.update armings t none
  | .fired t _ _ _ => Function.update armings t none
  | .entered _ => armings
  | .returned => armings

def armingAfter (log : List TimerEvent) : TimerRef → Option Arming :=
  log.foldl TimerEvent.arming fun _ => none

def TimerEvent.reading (now : Option UInt64) : TimerEvent → Option UInt64
  | .entered now => some now
  | .returned => none
  | _ => now

def readingAfter (log : List TimerEvent) : Option UInt64 := log.foldl TimerEvent.reading none

/-- No timer is fired before its deadline, nor while another has an earlier one. -/
def Punctual (log : List TimerEvent) : Prop :=
  ∀ l1 t e callback arg l2, log = l1 ++ .fired t e callback arg :: l2 →
    ∃ now a, readingAfter l1 = some now ∧ armingAfter l1 t = some a ∧
      a.deadline ≤ now.toNat ∧ ∀ u b, armingAfter l1 u = some b → a.deadline ≤ b.deadline

/-- Every timer that is fired was started with a sum of 64 bits. -/
def FiredFit (log : List TimerEvent) : Prop :=
  ∀ l1 t e callback arg l2 a, log = l1 ++ .fired t e callback arg :: l2 →
    armingAfter l1 t = some a → a.deadline < 2^64

variable {l l' : TimerLoop} {log : List TimerEvent} {e : TimerEvent} {t : TimerRef} {a : Arming}

theorem armingAfter_snoc (log : List TimerEvent) (e : TimerEvent) :
    armingAfter (log ++ [e]) = e.arming (armingAfter log) := by
  rw [armingAfter, List.foldl_append]
  rfl

theorem readingAfter_snoc (log : List TimerEvent) (e : TimerEvent) :
    readingAfter (log ++ [e]) = e.reading (readingAfter log) := by
  rw [readingAfter, List.foldl_append]
  rfl

theorem TimerEvent.arming_mem {armings : TimerRef → Option Arming}
    (h : e.arming armings t = some a) :
    armings t = some a ∨ e = .started t a.clock a.timeoutMs := by
  cases e with
  | started u now timeoutMs =>
    rw [TimerEvent.arming, Function.update_apply] at h
    split at h
    · next htu =>
      obtain rfl := Option.some.inj h
      exact Or.inr (by rw [htu])
    · exact Or.inl h
  | stopped u =>
    rw [TimerEvent.arming, Function.update_apply] at h
    split at h
    · exact absurd h (by simp)
    · exact Or.inl h
  | fired u expire callback arg =>
    rw [TimerEvent.arming, Function.update_apply] at h
    split at h
    · exact absurd h (by simp)
    · exact Or.inl h
  | entered now => exact Or.inl h
  | returned => exact Or.inl h

theorem armingAfter_mem (h : armingAfter log t = some a) :
    .started t a.clock a.timeoutMs ∈ log := by
  induction log using List.reverseRecOn with
  | nil => exact absurd h (by simp [armingAfter])
  | append_singleton log e ih =>
    rw [armingAfter_snoc] at h
    rcases TimerEvent.arming_mem h with h | rfl
    · exact List.mem_append_left _ (ih h)
    · simp

theorem firedFit_of_fits (h : ∀ e ∈ log, e.Fits) : FiredFit log := by
  rintro l1 t e callback arg l2 a rfl ha
  exact h _ (List.mem_append_left _ (armingAfter_mem ha))

structure Deadlines (l : TimerLoop) (log : List TimerEvent) : Prop where
  pass : l.pass.map TimerPass.now = readingAfter log
  known : ∀ t ∈ l.queue.armed, ∃ a, armingAfter log t = some a
  armed : ∀ t a, armingAfter log t = some a →
    t ∈ l.queue.armed ∧ l.queue.expire t = (a.clock + a.timeoutMs).toNat

theorem Deadlines.erase (h : Deadlines l log) {pass : Option TimerPass} {log' : List TimerEvent}
    (hpass : pass.map TimerPass.now = readingAfter log')
    (hlog : armingAfter log' = Function.update (armingAfter log) t none) :
    Deadlines ⟨⟨l.queue.armed.erase t, l.queue.expire⟩, l.clock, pass⟩ log' := by
  refine ⟨hpass, fun u hu => ?_, fun u b hb => ?_⟩
  · obtain ⟨hut, hu⟩ := Finset.mem_erase.mp hu
    rw [hlog, Function.update_of_ne hut]
    exact h.known u hu
  · rw [hlog, Function.update_apply] at hb
    split at hb
    · exact absurd hb (by simp)
    · next hut =>
      obtain ⟨harmed, hexpire⟩ := h.armed u b hb
      exact ⟨Finset.mem_erase.mpr ⟨hut, harmed⟩, hexpire⟩

theorem Deadlines.step (h : Deadlines l log) (hs : l.Step e l') : Deadlines l' (log ++ [e]) := by
  have harm := armingAfter_snoc log e
  have hread := readingAfter_snoc log e
  cases hs with
  | @started t now timeoutMs hno hclock =>
    refine ⟨h.pass.trans hread.symm, fun u hu => ?_, fun u b hb => ?_⟩
    · rw [harm, TimerEvent.arming, Function.update_apply]
      split
      · exact ⟨_, rfl⟩
      · next hut => exact h.known u ((Finset.mem_insert.mp hu).resolve_left hut)
    · rw [harm, TimerEvent.arming, Function.update_apply] at hb
      split at hb
      · next hut =>
        obtain rfl := Option.some.inj hb
        subst hut
        exact ⟨Finset.mem_insert_self _ _, Function.update_self ..⟩
      · next hut =>
        obtain ⟨harmed, hexpire⟩ := h.armed u b hb
        exact ⟨Finset.mem_insert_of_mem harmed, (Function.update_of_ne hut _ _).trans hexpire⟩
  | stopped ht => exact h.erase (h.pass.trans hread.symm) harm
  | entered hno hclock =>
    refine ⟨hread.symm, ?_, ?_⟩
    · rw [harm]
      exact h.known
    · rw [harm]
      exact h.armed
  | fired hp hlt hnext hdue =>
    have hpass := h.pass
    rw [hp] at hpass
    exact h.erase (hpass.trans hread.symm) harm
  | returned hp hdone =>
    refine ⟨hread.symm, ?_, ?_⟩
    · rw [harm]
      exact h.known
    · rw [harm]
      exact h.armed

theorem Arming.toNat_add (a : Arming) : (a.clock + a.timeoutMs).toNat = a.deadline % 2^64 :=
  UInt64.toNat_add _ _

/-- A timer that is fired is early just when its sum has more than 64 bits, and otherwise none
has an earlier deadline. -/
theorem Deadlines.fired (h : Deadlines l log) {expire callback arg : Nat}
    (hs : l.Step (.fired t expire callback arg) l') :
    ∃ now a, readingAfter log = some now ∧ armingAfter log t = some a ∧
      (a.deadline < 2^64 → a.deadline ≤ now.toNat ∧
        ∀ u b, armingAfter log u = some b → a.deadline ≤ b.deadline) := by
  have hpass := h.pass
  cases hs with
  | @fired p t callback arg hp hlt hnext hdue =>
    rw [hp] at hpass
    obtain ⟨a, ha⟩ := h.known t hnext.1
    have hexpire := (h.armed t a ha).2
    rw [a.toNat_add] at hexpire
    refine ⟨p.now, a, hpass.symm, ha, fun hfit => ?_⟩
    rw [Nat.mod_eq_of_lt hfit] at hexpire
    rw [hexpire] at hdue
    refine ⟨hdue, fun u b hb => ?_⟩
    obtain ⟨hu, hexpire'⟩ := h.armed u b hb
    have hle := hnext.2 u hu
    rw [hexpire, hexpire', b.toNat_add] at hle
    exact hle.trans (Nat.mod_le _ _)

theorem Deadlines.trace (h : Deadlines l []) (ht : Trace TimerLoop.Step l log l') :
    Deadlines l' log :=
  Trace.invariant Deadlines (fun _ => True) (fun _ _ _ _ hd _ hs => hd.step hs) h ht
    fun _ _ => trivial

theorem punctual_iff_firedFit (h : Deadlines l []) (ht : Trace TimerLoop.Step l log l') :
    Punctual log ↔ FiredFit log := by
  constructor
  · rintro hp l1 t e callback arg l2 a hlog ha
    obtain ⟨now, b, -, hb, hle, -⟩ := hp l1 t e callback arg l2 hlog
    obtain rfl := Option.some.inj (ha.symm.trans hb)
    exact lt_of_le_of_lt hle now.toNat_lt
  · rintro hf l1 t e callback arg l2 rfl
    obtain ⟨l3, h1, hrest⟩ := ht.of_append
    obtain ⟨l4, hs, -⟩ := hrest.of_cons
    obtain ⟨now, a, hnow, ha, hgood⟩ := (h.trace h1).fired hs
    exact ⟨now, a, hnow, ha, hgood (hf l1 t e callback arg l2 a rfl ha)⟩

/-- A run in which every timer is started with a sum of 64 bits is punctual; any other is so
just as long as it fires none of those that are not. -/
theorem timers_punctual (index expire userCallback userArg : TimerRef → Nat) (clock : UInt64)
    {calls : List TimerCall} (hok : Along sioTimersStep TimerCallOk
      (sioTimersNew index expire userCallback userArg clock) calls) :
    ∃ s log, run sioTimersStep (sioTimersNew index expire userCallback userArg clock) calls =
        some (s, log) ∧
      ((∀ c ∈ calls, c.Fits) → Punctual log) ∧ (Punctual log ↔ FiredFit log) := by
  obtain ⟨s, log, l', hrun, htrace, -, hfits⟩ := sioTimers_trace
    (l := ⟨⟨∅, expire⟩, clock, none⟩) ⟨timerNew_refines index expire, rfl, rfl⟩ hok
  have hstart : Deadlines ⟨⟨∅, expire⟩, clock, none⟩ [] :=
    ⟨rfl, fun t ht => absurd ht (Finset.notMem_empty t), nofun⟩
  have hiff := punctual_iff_firedFit hstart htrace
  exact ⟨s, log, hrun, fun hfit => hiff.mpr (firedFit_of_fits (hfits hfit)), hiff⟩

def timerDeadlineSampleStart : SioTimers :=
  sioTimersNew (fun _ => 0) (fun _ => 0) (fun _ => 0) (fun _ => 0) 0

theorem timers_punctual_sample : ∃ s log,
    run sioTimersStep timerDeadlineSampleStart timerPassSampleCalls = some (s, log) ∧
      Punctual log ∧ FiredFit log := by
  have hok : Along sioTimersStep TimerCallOk timerDeadlineSampleStart timerPassSampleCalls := by
    decide +kernel
  have hfits : ∀ c ∈ timerPassSampleCalls, c.Fits := by
    simp [timerPassSampleCalls, TimerCall.Fits]
  obtain ⟨s, log, hrun, hpunctual, hiff⟩ := timers_punctual _ _ _ _ _ hok
  exact ⟨s, log, hrun, hpunctual hfits, hiff.mp (hpunctual hfits)⟩

/-- A timer that is to wait for as long as possible is fired by the next pass. -/
theorem timer_fires_early : ∃ s log, Along sioTimersStep TimerCallOk timerDeadlineSampleStart
      [.start 1 18446744073709551615 7 0 1700000000000, .enter 1700000000000, .round] ∧
    run sioTimersStep timerDeadlineSampleStart
      [.start 1 18446744073709551615 7 0 1700000000000, .enter 1700000000000, .round] =
        some (s, log) ∧ ¬ Punctual log := by
  refine ⟨_, _, by decide +kernel, rfl, fun h => ?_⟩
  obtain ⟨now, a, hnow, ha, hle, -⟩ := h [_, _] 1 _ 7 0 [] rfl
  obtain rfl := Option.some.inj hnow
  obtain rfl := Option.some.inj ha
  exact absurd hle (by decide +kernel)

end SimpleKit
