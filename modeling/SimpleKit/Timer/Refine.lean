import Mathlib.Data.Finset.Card
import SimpleKit.Lib.Run
import SimpleKit.Timer.Heap

set_option autoImplicit false

namespace SimpleKit
open HeapOrder Runs

structure TimerQueue where
  armed : Finset TimerRef
  expire : TimerRef → Nat

def TimerQueue.IsNext (q : TimerQueue) : Option TimerRef → Prop
  | none => q.armed = ∅
  | some t => t ∈ q.armed ∧ ∀ u ∈ q.armed, q.expire t ≤ q.expire u

inductive TimerOp where
  | insert : TimerRef → Nat → TimerOp
  | remove : TimerRef → TimerOp
  | modify : TimerRef → Nat → TimerOp
  | pop : TimerOp
  | top : TimerOp

inductive TimerRet where
  | void : TimerRet
  | timer : Option TimerRef → TimerRet
  deriving DecidableEq, Repr

inductive TimerQueue.Step : TimerQueue → TimerOp × TimerRet → TimerQueue → Prop
  | insert {q : TimerQueue} {t : TimerRef} {e : Nat} : Step q (.insert t e, .void)
      ⟨insert t q.armed, Function.update q.expire t e⟩
  | remove {q : TimerQueue} {t : TimerRef} : Step q (.remove t, .void)
      ⟨q.armed.erase t, q.expire⟩
  | modify {q : TimerQueue} {t : TimerRef} {e : Nat} : Step q (.modify t e, .void)
      ⟨q.armed, Function.update q.expire t e⟩
  | popNone {q : TimerQueue} : q.IsNext none → Step q (.pop, .timer none) q
  | popSome {q : TimerQueue} {t : TimerRef} : q.IsNext (some t) →
      Step q (.pop, .timer (some t)) ⟨q.armed.erase t, q.expire⟩
  | top {q : TimerQueue} {r : Option TimerRef} : q.IsNext r → Step q (.top, .timer r) q

def TimerMgr.setExpire (m : TimerMgr) (timer : TimerRef) (expire : Nat) : TimerMgr :=
  { m with expire := Function.update m.expire timer expire }

def timerStep (m : TimerMgr) : TimerOp → Option (TimerMgr × TimerRet)
  | .insert t e => (timerInsert (m.setExpire t e) t).map fun m => (m, .void)
  | .remove t => (timerRemove m t).map fun m => (m, .void)
  | .modify t e => (timerModify (m.setExpire t e) t).map fun m => (m, .void)
  | .pop => (timerPop m).map fun x => (x.1, .timer x.2)
  | .top => (timerTop m).map fun r => (m, .timer r)

def TimerMgr.Has (m : TimerMgr) (t : TimerRef) : Prop :=
  ∃ i, 1 ≤ i ∧ i ≤ m.heapLength ∧ m.node i = some t

instance (m : TimerMgr) (t : TimerRef) : Decidable (m.Has t) :=
  decidable_of_iff (∃ i < m.heapLength + 1, 1 ≤ i ∧ m.node i = some t)
    ⟨fun ⟨i, hi, h1, ht⟩ => ⟨i, h1, Nat.le_of_lt_succ hi, ht⟩,
      fun ⟨i, h1, hi, ht⟩ => ⟨i, Nat.lt_succ_of_le hi, h1, ht⟩⟩

def TimerOk (m : TimerMgr) : TimerOp → Prop
  | .insert t _ => ¬ m.Has t
  | .remove t | .modify t _ => m.Has t
  | _ => True

instance (m : TimerMgr) : (op : TimerOp) → Decidable (TimerOk m op)
  | .insert t _ => inferInstanceAs (Decidable (¬ m.Has t))
  | .remove t => inferInstanceAs (Decidable (m.Has t))
  | .modify t _ => inferInstanceAs (Decidable (m.Has t))
  | .pop => .isTrue trivial
  | .top => .isTrue trivial

/-- The array holds the armed timers `f 1`, `f 2`, ... in heap order, and there is no more
of it than `heapSize + 1` slots. -/
structure TimerMgr.Rep (m : TimerMgr) (f : Nat → TimerRef) (q : TimerQueue) : Prop where
  holds : m.Holds f
  order : Ordered (m.expire ∘ f) m.heapLength
  armed : ∀ t, t ∈ q.armed ↔ ∃ i, 1 ≤ i ∧ i ≤ m.heapLength ∧ f i = t
  expire : m.expire = q.expire
  size : m.heapLength ≤ m.heapSize
  slots : m.heapNodes.length = if m.heapSize = 0 then 0 else m.heapSize + 1

variable {m m' : TimerMgr} {f f' : Nat → TimerRef} {q : TimerQueue}

theorem TimerMgr.Rep.inj (h : m.Rep f q) {i j : Nat} (hi : 1 ≤ i ∧ i ≤ m.heapLength)
    (hj : 1 ≤ j ∧ j ≤ m.heapLength) (he : f i = f j) : i = j := by
  rw [← h.holds.index i hi.1 hi.2, he, h.holds.index j hj.1 hj.2]

theorem TimerMgr.Rep.room (h : m.Rep f q) (h1 : 1 ≤ m.heapLength) :
    m.heapLength < m.heapNodes.length := by
  have hsize := h.size
  rw [h.slots, if_neg (by omega)]
  omega

theorem TimerMgr.Rep.has (h : m.Rep f q) (t : TimerRef) : m.Has t ↔ t ∈ q.armed := by
  rw [h.armed]
  constructor
  · rintro ⟨i, h1, hi, ht⟩
    rw [h.holds.node i h1 hi] at ht
    exact ⟨i, h1, hi, Option.some.inj ht⟩
  · rintro ⟨i, h1, hi, rfl⟩
    exact ⟨i, h1, hi, h.holds.node i h1 hi⟩

theorem TimerMgr.Rep.index (h : m.Rep f q) {t : TimerRef} (ht : t ∈ q.armed) :
    1 ≤ m.index t ∧ m.index t ≤ m.heapLength ∧ f (m.index t) = t := by
  obtain ⟨i, h1, hi, rfl⟩ := (h.armed t).mp ht
  rw [h.holds.index i h1 hi]
  exact ⟨h1, hi, rfl⟩

theorem TimerMgr.Settled.rep (hst : m.Settled m' f f')
    (harmed : ∀ t, t ∈ q.armed ↔ ∃ i, 1 ≤ i ∧ i ≤ m.heapLength ∧ f i = t)
    (hexpire : m.expire = q.expire) (hsize : m.heapLength ≤ m.heapSize)
    (hslots : m.heapNodes.length = if m.heapSize = 0 then 0 else m.heapSize + 1) :
    m'.Rep f' q := by
  have hl : m'.heapLength = m.heapLength := by rw [hst.frame]
  have he : m'.expire = m.expire := by rw [hst.frame]
  have hs : m'.heapSize = m.heapSize := by rw [hst.frame]
  refine ⟨hst.holds, by rw [he, hl]; exact hst.order, fun t => ?_, he.trans hexpire, ?_, ?_⟩
  · rw [harmed, hl, hst.same]
  · rw [hl, hs]
    exact hsize
  · rw [hst.slots, hs, hslots]

theorem TimerMgr.Rep.dropLast (h : m.Rep f q) (h1 : 1 ≤ m.heapLength) :
    ({ m with heapLength := m.heapLength - 1 } : TimerMgr).Rep f
      ⟨q.armed.erase (f m.heapLength), q.expire⟩ := by
  have hsize := h.size
  refine ⟨⟨fun i h1 hi => ?_, fun i h1 hi => ?_⟩, fun i h2 hi => ?_, fun t => ?_, h.expire, ?_,
    h.slots⟩
  · exact h.holds.node i h1 (by simp only at hi; omega)
  · exact h.holds.index i h1 (by simp only at hi; omega)
  · exact h.order i h2 (by simp only at hi; omega)
  · simp only [Finset.mem_erase, h.armed]
    constructor
    · rintro ⟨hne, i, h1, hi, rfl⟩
      have : i ≠ m.heapLength := fun he => hne (by rw [he])
      exact ⟨i, h1, by omega, rfl⟩
    · rintro ⟨i, hi1, hi, rfl⟩
      refine ⟨fun he => ?_, i, hi1, by omega, rfl⟩
      have := h.inj ⟨hi1, by omega⟩ ⟨h1, le_rfl⟩ he
      omega
  · show m.heapLength - 1 ≤ m.heapSize
    omega

theorem TimerMgr.Rep.mem_refill (h : m.Rep f q) {i : Nat} (h1 : 1 ≤ i) (hi : i < m.heapLength)
    (t : TimerRef) : t ∈ q.armed.erase (f i) ↔
      ∃ j, 1 ≤ j ∧ j ≤ m.heapLength - 1 ∧ Function.update f i (f m.heapLength) j = t := by
  rw [Finset.mem_erase, h.armed]
  constructor
  · rintro ⟨hne, j, j1, hj, rfl⟩
    by_cases hjl : j = m.heapLength
    · exact ⟨i, h1, by omega, by rw [Function.update_self, hjl]⟩
    · exact ⟨j, j1, by omega, Function.update_of_ne (fun he => hne (by rw [he])) _ _⟩
  · rintro ⟨j, j1, hj, rfl⟩
    by_cases hji : j = i
    · rw [hji, Function.update_self]
      refine ⟨fun he => ?_, m.heapLength, by omega, le_rfl, rfl⟩
      have := h.inj ⟨by omega, le_rfl⟩ ⟨h1, by omega⟩ he
      omega
    · rw [Function.update_of_ne hji]
      exact ⟨fun he => hji (h.inj ⟨j1, by omega⟩ ⟨h1, by omega⟩ he), j, j1, by omega, rfl⟩

theorem TimerMgr.refill_eq {i : Nat} {last : TimerRef} (hlast : m.node m.heapLength = some last)
    (hi : i < m.heapNodes.length) : m.refill i = timerAdjustHeap last { m with
      heapLength := m.heapLength - 1
      heapNodes := m.heapNodes.set i (some last)
      index := Function.update m.index last i } := by
  have hstore : ({ m with heapLength := m.heapLength - 1 } : TimerMgr).store i last =
      some { m with
        heapLength := m.heapLength - 1
        heapNodes := m.heapNodes.set i (some last) } := if_pos hi
  rw [TimerMgr.refill, hlast, Option.bind_eq_bind, Option.bind_some, hstore, Option.bind_eq_bind,
    Option.bind_some]
  rfl

/-- The last timer goes to slot `i`, and the one that was there goes. -/
theorem TimerMgr.Rep.refill (h : m.Rep f q) {i : Nat} (h1 : 1 ≤ i) (hi : i < m.heapLength) :
    ∃ m' f', m.refill i = some m' ∧ m'.Rep f' ⟨q.armed.erase (f i), q.expire⟩ := by
  have hsize := h.size
  have hroom := h.room (by omega)
  have hlt : i < m.heapNodes.length := by omega
  rw [TimerMgr.refill_eq (h.holds.node _ (by omega) le_rfl) hlt]
  generalize hm1 : ({ m with
    heapLength := m.heapLength - 1
    heapNodes := m.heapNodes.set i (some (f m.heapLength))
    index := Function.update m.index (f m.heapLength) i } : TimerMgr) = m1
  have hl1 : m1.heapLength = m.heapLength - 1 := by rw [← hm1]
  have hs : m1.Sifts (Function.update f i (f m.heapLength)) i := by
    refine ⟨by omega, by rw [← hm1]; simp only [List.length_set]; omega, ?_, ?_⟩
    · intro j j1 hj hji
      rw [Function.update_of_ne hji, ← h.holds.node j j1 (by omega), ← hm1]
      exact (TimerMgr.node_set (m := m) hlt).trans (if_neg hji)
    · intro j j1 hj
      by_cases hji : j = i
      · rw [hji, Function.update_self, ← hm1]
        exact Function.update_self ..
      · have hne : f j ≠ f m.heapLength := fun he => by
          have := h.inj ⟨j1, by omega⟩ ⟨by omega, le_rfl⟩ he
          omega
        rw [Function.update_of_ne hji, ← hm1]
        exact (Function.update_of_ne hne _ _).trans (h.holds.index j j1 (by omega))
  have ha : Around (m1.expire ∘ Function.update f i (f m.heapLength)) m1.heapLength i := by
    refine h.order.around (by omega) fun j _ _ hji => ?_
    rw [Function.comp_apply, Function.update_of_ne hji, ← hm1]
    rfl
  obtain ⟨m', f', hrun, hst⟩ := timerAdjustHeap_spec hs ha
  rw [Function.update_self] at hrun
  refine ⟨m', f', hrun, hst.rep (fun t => ?_) (by rw [← hm1]; exact h.expire) ?_ ?_⟩
  · rw [hl1]
    exact h.mem_refill h1 hi t
  · rw [hl1, ← hm1]
    simp only
    omega
  · rw [← hm1]
    simp only [List.length_set]
    exact h.slots

theorem TimerMgr.Rep.remove (h : m.Rep f q) {t : TimerRef} (ht : t ∈ q.armed) :
    ∃ m' f', timerRemove m t = some m' ∧ m'.Rep f' ⟨q.armed.erase t, q.expire⟩ := by
  obtain ⟨h1, hi, hft⟩ := h.index ht
  rw [timerRemove]
  split
  · next hlast =>
    rw [hlast] at hft h1
    refine ⟨_, f, rfl, ?_⟩
    rw [← hft]
    exact h.dropLast h1
  · next hne =>
    obtain ⟨m', f', hrun, h'⟩ := h.refill h1 (lt_of_le_of_ne hi hne)
    rw [hft] at h'
    exact ⟨m', f', hrun, h'⟩

theorem TimerMgr.Rep.isNext (h : m.Rep f q) (h1 : 1 ≤ m.heapLength) : q.IsNext (some (f 1)) := by
  refine ⟨(h.armed _).mpr ⟨1, le_rfl, h1, rfl⟩, fun u hu => ?_⟩
  obtain ⟨i, hi1, hi, rfl⟩ := (h.armed u).mp hu
  rw [← h.expire]
  exact h.order.first_le hi1 hi

theorem TimerMgr.Rep.isNext_none (h : m.Rep f q) (h0 : m.heapLength = 0) : q.IsNext none := by
  refine Finset.eq_empty_of_forall_notMem fun t ht => ?_
  obtain ⟨i, h1, hi, -⟩ := (h.armed t).mp ht
  omega

theorem TimerMgr.Rep.pop (h : m.Rep f q) : ∃ m' f' r q', timerPop m = some (m', r) ∧
    q.Step (.pop, .timer r) q' ∧ m'.Rep f' q' := by
  rw [timerPop]
  split
  · next h0 => exact ⟨m, f, none, q, rfl, .popNone (h.isNext_none h0), h⟩
  · next h0 =>
    have hstep := TimerQueue.Step.popSome (h.isNext (by omega))
    rw [h.holds.node 1 le_rfl (by omega), Option.bind_eq_bind, Option.bind_some]
    split
    · next hone =>
      refine ⟨_, f, some (f 1), _, rfl, hstep, ?_⟩
      have h' := h.dropLast (by omega)
      rwa [hone] at h'
    · next hone =>
      obtain ⟨m', f', hrun, h'⟩ := h.refill (i := 1) le_rfl (by omega)
      refine ⟨m', f', some (f 1), _, ?_, hstep, h'⟩
      rw [hrun]
      rfl

theorem TimerMgr.Rep.top (h : m.Rep f q) : ∃ r, timerTop m = some r ∧ q.IsNext r := by
  rw [timerTop]
  split
  · next h0 => exact ⟨none, rfl, h.isNext_none h0⟩
  · next h0 =>
    rw [h.holds.node 1 le_rfl (by omega)]
    exact ⟨some (f 1), rfl, h.isNext (by omega)⟩

theorem TimerMgr.Rep.modify (h : m.Rep f q) {t : TimerRef} (ht : t ∈ q.armed) (e : Nat) :
    ∃ m' f', timerModify (m.setExpire t e) t = some m' ∧
      m'.Rep f' ⟨q.armed, Function.update q.expire t e⟩ := by
  obtain ⟨h1, hi, hft⟩ := h.index ht
  have hs : (m.setExpire t e).Sifts f (m.index t) :=
    ⟨⟨h1, hi⟩, h.room (by omega), fun i i1 hi _ => h.holds.node i i1 hi, h.holds.index⟩
  have ha : Around ((m.setExpire t e).expire ∘ f) (m.setExpire t e).heapLength (m.index t) := by
    refine h.order.around le_rfl fun i i1 hil hne => ?_
    have hfi : f i ≠ t := fun he => hne (h.inj ⟨i1, hil⟩ ⟨h1, hi⟩ (he.trans hft.symm))
    exact Function.update_of_ne hfi _ _
  obtain ⟨m', f', hrun, hst⟩ := timerAdjustHeap_spec hs ha
  rw [hft] at hrun
  refine ⟨m', f', hrun, hst.rep h.armed ?_ h.size h.slots⟩
  rw [← h.expire]
  rfl

theorem TimerMgr.node_append {i : Nat} {t : TimerRef} (hi : m.node i = some t)
    (more : List (Option TimerRef)) : (m.heapNodes ++ more)[i]?.join = some t := by
  have hlt : i < m.heapNodes.length := by
    by_contra hge
    rw [TimerMgr.node, List.getElem?_eq_none (not_lt.mp hge)] at hi
    exact absurd hi (by simp)
  rw [List.getElem?_append_left hlt]
  exact hi

theorem TimerMgr.Rep.grow (h : m.Rep f q) :
    ∃ nodes size, m.grow = { m with heapNodes := nodes, heapSize := size } ∧
      m.heapLength < size ∧ nodes.length = size + 1 ∧
      ∀ i, 1 ≤ i → i ≤ m.heapLength → nodes[i]?.join = some (f i) := by
  have hsize := h.size
  have hslots := h.slots
  rw [TimerMgr.grow]
  split
  · next hfull =>
    refine ⟨_, _, rfl, by omega, ?_, fun i h1 hi => TimerMgr.node_append (h.holds.node i h1 hi) _⟩
    rw [List.length_append, List.length_replicate]
    split at hslots <;> omega
  · next hfull =>
    rw [if_neg (by omega)] at hslots
    exact ⟨_, _, rfl, by omega, hslots, h.holds.node⟩

theorem TimerMgr.Rep.insert (h : m.Rep f q) {t : TimerRef} (ht : t ∉ q.armed) (e : Nat) :
    ∃ m' f', timerInsert (m.setExpire t e) t = some m' ∧
      m'.Rep f' ⟨insert t q.armed, Function.update q.expire t e⟩ := by
  obtain ⟨nodes, size, hgrow, hlt, hlen, hnodes⟩ := h.grow
  have hgrow' : (m.setExpire t e).grow = (m.grow).setExpire t e := by
    rw [TimerMgr.grow, TimerMgr.grow]
    split
    · next hl => rw [if_pos (by exact hl)]; rfl
    · next hl => rw [if_neg (by exact hl)]
  have hft : ∀ i, 1 ≤ i → i ≤ m.heapLength → f i ≠ t := fun i h1 hi he =>
    ht ((h.armed t).mpr ⟨i, h1, hi, he⟩)
  rw [timerInsert]
  simp only [hgrow', hgrow]
  generalize hm1 : TimerMgr.setIndex _ t _ = m1
  have hl1 : m1.heapLength = m.heapLength + 1 := by rw [← hm1]; rfl
  have hs : m1.Sifts (Function.update f (m.heapLength+1) t) (m.heapLength+1) := by
    refine ⟨by omega, by rw [← hm1]; simp only [TimerMgr.setIndex, TimerMgr.setExpire]; omega,
      ?_, ?_⟩
    · intro i h1 hi hne
      rw [Function.update_of_ne hne, ← hm1]
      exact hnodes i h1 (by omega)
    · intro i h1 hi
      by_cases hie : i = m.heapLength+1
      · rw [hie, Function.update_self, ← hm1]
        exact Function.update_self ..
      · rw [Function.update_of_ne hie, ← hm1]
        exact (Function.update_of_ne (hft i h1 (by omega)) _ _).trans
          (h.holds.index i h1 (by omega))
  have ha : Around (m1.expire ∘ Function.update f (m.heapLength+1) t) m1.heapLength
      (m.heapLength+1) := by
    rw [hl1]
    refine h.order.around_succ fun i h1 hi => ?_
    rw [Function.comp_apply, Function.update_of_ne (by omega), ← hm1]
    exact Function.update_of_ne (hft i h1 hi) _ _
  obtain ⟨m', f', hrun, hst⟩ := timerAdjustHeap_spec hs ha
  rw [Function.update_self] at hrun
  refine ⟨m', f', hrun, hst.rep (fun u => ?_) ?_ ?_ ?_⟩
  · rw [hl1, Finset.mem_insert, h.armed]
    constructor
    · rintro (rfl | ⟨i, h1, hi, rfl⟩)
      · exact ⟨m.heapLength+1, by omega, le_rfl, Function.update_self ..⟩
      · exact ⟨i, h1, by omega, Function.update_of_ne (by omega) _ _⟩
    · rintro ⟨i, h1, hi, rfl⟩
      by_cases hie : i = m.heapLength+1
      · rw [hie, Function.update_self]
        exact Or.inl rfl
      · rw [Function.update_of_ne hie]
        exact Or.inr ⟨i, h1, by omega, rfl⟩
  · rw [← hm1, ← h.expire]
    rfl
  · rw [hl1, ← hm1]
    exact hlt
  · rw [← hm1]
    refine hlen.trans (if_neg ?_).symm
    show size ≠ 0
    omega

def TimerMgr.Refines (m : TimerMgr) (q : TimerQueue) : Prop := ∃ f, m.Rep f q

theorem timerNew_refines (index expire : TimerRef → Nat) :
    (timerNew index expire).Refines ⟨∅, expire⟩ := by
  have hno : ∀ {i : Nat}, 1 ≤ i → ¬ i ≤ 0 := by omega
  refine ⟨fun _ => 0, ⟨fun i h1 hi => absurd hi (hno h1), fun i h1 hi => absurd hi (hno h1)⟩,
    fun i h2 hi => absurd hi (hno (by omega)), fun t => ?_, rfl, le_rfl, rfl⟩
  exact ⟨fun ht => absurd ht (Finset.notMem_empty t), fun ⟨i, h1, hi, _⟩ => absurd hi (hno h1)⟩

theorem timerStep_refines (op : TimerOp) (h : m.Refines q) (hop : TimerOk m op) :
    ∃ m' r q', timerStep m op = some (m', r) ∧ q.Step (op, r) q' ∧ m'.Refines q' := by
  obtain ⟨f, h⟩ := h
  cases op with
  | insert t e =>
    obtain ⟨m', f', hrun, h'⟩ := h.insert (mt (h.has t).mpr hop) e
    exact ⟨m', .void, _, by rw [timerStep, hrun]; rfl, .insert, f', h'⟩
  | remove t =>
    obtain ⟨m', f', hrun, h'⟩ := h.remove ((h.has t).mp hop)
    exact ⟨m', .void, _, by rw [timerStep, hrun]; rfl, .remove, f', h'⟩
  | modify t e =>
    obtain ⟨m', f', hrun, h'⟩ := h.modify ((h.has t).mp hop) e
    exact ⟨m', .void, _, by rw [timerStep, hrun]; rfl, .modify, f', h'⟩
  | pop =>
    obtain ⟨m', f', r, q', hrun, hstep, h'⟩ := h.pop
    exact ⟨m', .timer r, q', by rw [timerStep, hrun]; rfl, hstep, f', h'⟩
  | top =>
    obtain ⟨r, hrun, hnext⟩ := h.top
    exact ⟨m, .timer r, q, by rw [timerStep, hrun]; rfl, .top hnext, f, h⟩

/-- Popping as many timers as are armed gives them in the order in which they expire. -/
theorem TimerQueue.drain {n : Nat} (hn : q.armed.card = n) {rs : List TimerRet} {q' : TimerQueue}
    (hlen : rs.length = n)
    (ht : Trace TimerQueue.Step q ((List.replicate n TimerOp.pop).zipWith Prod.mk rs) q') :
    ∃ l : List TimerRef, rs = l.map (fun t => .timer (some t)) ∧ l.Nodup ∧
      (∀ t, t ∈ l ↔ t ∈ q.armed) ∧ l.Pairwise (fun t u => q.expire t ≤ q.expire u) ∧
      q'.armed = ∅ := by
  induction n generalizing q rs with
  | zero =>
    obtain rfl := List.length_eq_zero_iff.mp hlen
    have hempty := Finset.card_eq_zero.mp hn
    cases ht
    exact ⟨[], rfl, List.nodup_nil, by simp [hempty], List.Pairwise.nil, hempty⟩
  | succ n ih =>
    obtain ⟨r, rs, rfl⟩ := List.exists_cons_of_length_eq_add_one hlen
    rw [List.replicate_succ, List.zipWith_cons_cons] at ht
    cases ht with
    | cons hstep htail =>
      cases hstep with
      | popNone hno =>
        rw [show q.armed = ∅ from hno, Finset.card_empty] at hn
        omega
      | popSome hnext =>
        next t =>
        obtain ⟨ht, hmin⟩ := hnext
        have hcard : (q.armed.erase t).card = n := by
          rw [Finset.card_erase_of_mem ht, hn]
          rfl
        obtain ⟨l, rfl, hnodup, hmem, hsorted, hempty⟩ :=
          ih hcard (Nat.succ.inj hlen) htail
        simp only [Finset.mem_erase] at hmem
        refine ⟨t :: l, rfl, List.nodup_cons.mpr ⟨fun hl => ((hmem t).mp hl).1 rfl, hnodup⟩,
          fun u => ?_, List.pairwise_cons.mpr ⟨fun u hu => ?_, hsorted⟩, hempty⟩
        · rw [List.mem_cons, hmem]
          constructor
          · rintro (rfl | ⟨-, hu⟩)
            · exact ht
            · exact hu
          · intro hu
            by_cases hut : u = t
            · exact Or.inl hut
            · exact Or.inr ⟨hut, hu⟩
        · exact hmin u ((hmem u).mp hu).2

/-- After any calls the array is a heap of the armed timers, what the calls returned is
what the queue returns, and popping everything sorts the timers. -/
theorem timer_refines_queue (index expire : TimerRef → Nat) {ops : List TimerOp}
    (hops : Along timerStep TimerOk (timerNew index expire) ops) :
    ∃ m rs q, run timerStep (timerNew index expire) ops = some (m, rs) ∧
      Trace TimerQueue.Step ⟨∅, expire⟩ (ops.zipWith Prod.mk rs) q ∧ m.Refines q ∧
      ∃ m', ∃ l : List TimerRef, run timerStep m (List.replicate q.armed.card TimerOp.pop) =
          some (m', l.map fun t => .timer (some t)) ∧
        l.Nodup ∧ (∀ t, t ∈ l ↔ t ∈ q.armed) ∧
        l.Pairwise (fun t u => q.expire t ≤ q.expire u) ∧ timerTop m' = some none := by
  have hstep := fun m q op h hop => timerStep_refines (m := m) (q := q) op h hop
  obtain ⟨m, rs, q, hrun, htrace, h⟩ := run_refines TimerMgr.Refines TimerQueue.Step Prod.mk
    hstep (timerNew_refines index expire) hops
  refine ⟨m, rs, q, hrun, htrace, h, ?_⟩
  have hpops : Along timerStep TimerOk m (List.replicate q.armed.card TimerOp.pop) := by
    generalize q.armed.card = n
    clear hrun h
    induction n generalizing m with
    | zero => trivial
    | succ n ih => exact ⟨trivial, fun m' _ _ => ih m'⟩
  obtain ⟨m', ps, q', hdrain, hdtrace, f', h'⟩ := run_refines TimerMgr.Refines TimerQueue.Step
    Prod.mk hstep h hpops
  have hlen := (run_length hdrain).trans (List.length_replicate ..)
  obtain ⟨l, rfl, hnodup, hmem, hsorted, hempty⟩ := TimerQueue.drain rfl hlen hdtrace
  obtain ⟨r, htop, hnext⟩ := h'.top
  cases r with
  | none => exact ⟨m', l, hdrain, hnodup, hmem, hsorted, htop⟩
  | some t =>
    rw [TimerQueue.IsNext, hempty] at hnext
    exact absurd hnext.1 (Finset.notMem_empty t)

def timerSampleCalls : List TimerOp :=
  [.insert 7 30, .insert 8 20, .insert 9 10, .modify 8 5, .remove 9, .pop]

theorem timer_refines_queue_sample : ∃ m rs q,
    run timerStep (timerNew (fun _ => 0) fun _ => 0) timerSampleCalls = some (m, rs) ∧
      Trace TimerQueue.Step ⟨∅, fun _ => 0⟩ (timerSampleCalls.zipWith Prod.mk rs) q ∧
      m.Refines q ∧
      ∃ m', ∃ l : List TimerRef, run timerStep m (List.replicate q.armed.card TimerOp.pop) =
          some (m', l.map fun t => .timer (some t)) ∧
        l.Nodup ∧ (∀ t, t ∈ l ↔ t ∈ q.armed) ∧
        l.Pairwise (fun t u => q.expire t ≤ q.expire u) ∧ timerTop m' = some none :=
  timer_refines_queue _ _ (by decide)

end SimpleKit
