import SimpleKit.Lib.HeapOrder
import SimpleKit.Timer.Model

/-!
The sifts keep the heap. While a timer is on its way its slot is stale, so the heap is
described by the timers `f` that belong in the slots, and one slot `h` may be excepted.
-/
set_option autoImplicit false

namespace SimpleKit
open HeapOrder

variable {m m' : TimerMgr} {f : Nat → TimerRef} {h : Nat}

/-- Every slot but `h` holds the timer that belongs there; every timer knows its slot. -/
structure TimerMgr.Sifts (m : TimerMgr) (f : Nat → TimerRef) (h : Nat) : Prop where
  hole : 1 ≤ h ∧ h ≤ m.heapLength
  room : m.heapLength < m.heapNodes.length
  node : ∀ i, 1 ≤ i → i ≤ m.heapLength → i ≠ h → m.node i = some (f i)
  index : ∀ i, 1 ≤ i → i ≤ m.heapLength → m.index (f i) = i

structure TimerMgr.Holds (m : TimerMgr) (f : Nat → TimerRef) : Prop where
  node : ∀ i, 1 ≤ i → i ≤ m.heapLength → m.node i = some (f i)
  index : ∀ i, 1 ≤ i → i ≤ m.heapLength → m.index (f i) = i

structure TimerMgr.Settled (m m' : TimerMgr) (f f' : Nat → TimerRef) : Prop where
  holds : m'.Holds f'
  order : Ordered (m.expire ∘ f') m.heapLength
  frame : m' = { m with heapNodes := m'.heapNodes, index := m'.index }
  slots : m'.heapNodes.length = m.heapNodes.length
  same : ∀ t, (∃ i, 1 ≤ i ∧ i ≤ m.heapLength ∧ f' i = t) ↔
    ∃ i, 1 ≤ i ∧ i ≤ m.heapLength ∧ f i = t

theorem TimerMgr.node_set {i j : Nat} {t : TimerRef} (hi : i < m.heapNodes.length) :
    ({ m with heapNodes := m.heapNodes.set i (some t) } : TimerMgr).node j =
      if j = i then some t else m.node j := by
  rw [TimerMgr.node, List.getElem?_set]
  by_cases hj : j = i
  · simp [hj, hi]
  · rw [if_neg (Ne.symm hj), if_neg hj]
    rfl

theorem TimerMgr.Sifts.inj (hs : m.Sifts f h) {i j : Nat} (hi : 1 ≤ i ∧ i ≤ m.heapLength)
    (hj : 1 ≤ j ∧ j ≤ m.heapLength) (he : f i = f j) : i = j := by
  rw [← hs.index i hi.1 hi.2, he, hs.index j hj.1 hj.2]

theorem TimerMgr.Sifts.settle (hs : m.Sifts f h) (ho : Ordered (m.expire ∘ f) m.heapLength) :
    ∃ m', m.store (m.index (f h)) (f h) = some m' ∧ m.Settled m' f f := by
  have hlt : h < m.heapNodes.length := lt_of_le_of_lt hs.hole.2 hs.room
  rw [hs.index h hs.hole.1 hs.hole.2, TimerMgr.store, if_pos hlt]
  refine ⟨_, rfl, ⟨fun i h1 hi => ?_, hs.index⟩, ho, rfl, by simp, fun t => Iff.rfl⟩
  rw [TimerMgr.node_set hlt]
  split
  · next he => rw [he]
  · next hne => exact hs.node i h1 hi hne

theorem TimerMgr.shift_eq {timer other : TimerRef} (hlt : m.index timer < m.heapNodes.length)
    (hne : timer ≠ other) (i : Nat) : m.shift timer other i = some { m with
      heapNodes := m.heapNodes.set (m.index timer) (some other)
      index := Function.update (Function.update m.index other (m.index timer)) timer i } := by
  have hidx : (m.setIndex other (m.index timer)).index timer = m.index timer :=
    Function.update_of_ne hne _ _
  have hstore : (m.setIndex other (m.index timer)).store (m.index timer) other =
      some { m.setIndex other (m.index timer) with
        heapNodes := m.heapNodes.set (m.index timer) (some other) } := if_pos hlt
  rw [TimerMgr.shift, hidx, hstore]
  rfl

theorem TimerMgr.Sifts.shift (hs : m.Sifts f h) {j : Nat} (hj : 1 ≤ j ∧ j ≤ m.heapLength)
    (hne : h ≠ j) :
    ∃ m', m.shift (f h) (f j) j = some m' ∧ m'.Sifts (swap f h j) j ∧
      m' = { m with heapNodes := m'.heapNodes, index := m'.index } ∧
      m'.heapNodes.length = m.heapNodes.length := by
  have hlt : h < m.heapNodes.length := lt_of_le_of_lt hs.hole.2 hs.room
  have hfne : f h ≠ f j := fun he => hne (hs.inj hs.hole hj he)
  have hidx := hs.index h hs.hole.1 hs.hole.2
  rw [TimerMgr.shift_eq (by rwa [hidx]) hfne, hidx]
  refine ⟨_, rfl, ⟨hj, by simpa using hs.room, ?_, ?_⟩, rfl, by simp⟩
  · intro i h1 hi hij
    refine (TimerMgr.node_set (m := m) hlt).trans ?_
    split
    · next he => rw [he, swap_left hne]
    · next hih => rw [swap_of_ne hih hij, hs.node i h1 hi hih]
  · intro i h1 hi
    simp only
    by_cases hij : i = j
    · rw [hij, swap_right, Function.update_self]
    · by_cases hih : i = h
      · rw [hih, swap_left hne, Function.update_of_ne hfne.symm, Function.update_self]
      · have hfi : f i ≠ f h := fun he => hih (hs.inj ⟨h1, hi⟩ hs.hole he)
        have hfj : f i ≠ f j := fun he => hij (hs.inj ⟨h1, hi⟩ hj he)
        rw [swap_of_ne hih hij, Function.update_of_ne hfi, Function.update_of_ne hfj]
        exact hs.index i h1 hi

theorem swap_mem {n i j : Nat} (hi : 1 ≤ i ∧ i ≤ n) (hj : 1 ≤ j ∧ j ≤ n) (t : TimerRef) :
    (∃ k, 1 ≤ k ∧ k ≤ n ∧ swap f i j k = t) ↔ ∃ k, 1 ≤ k ∧ k ≤ n ∧ f k = t := by
  by_cases hij : i = j
  · subst hij
    simp [swap]
  constructor
  · rintro ⟨k, h1, hk, rfl⟩
    by_cases hki : k = i
    · exact ⟨j, hj.1, hj.2, by rw [hki, swap_left hij]⟩
    · by_cases hkj : k = j
      · exact ⟨i, hi.1, hi.2, by rw [hkj, swap_right]⟩
      · exact ⟨k, h1, hk, (swap_of_ne hki hkj).symm⟩
  · rintro ⟨k, h1, hk, rfl⟩
    by_cases hki : k = i
    · exact ⟨j, hj.1, hj.2, by rw [hki, swap_right]⟩
    · by_cases hkj : k = j
      · exact ⟨i, hi.1, hi.2, by rw [hkj, swap_left hij]⟩
      · exact ⟨k, h1, hk, swap_of_ne hki hkj⟩

/-- A sift after an exchange settles what the sift before it had. -/
theorem TimerMgr.Settled.after_shift {m1 : TimerMgr} {f' : Nat → TimerRef} {j : Nat}
    (hst : m1.Settled m' (swap f h j) f')
    (hframe : m1 = { m with heapNodes := m1.heapNodes, index := m1.index })
    (hlen : m1.heapNodes.length = m.heapNodes.length) (hh : 1 ≤ h ∧ h ≤ m.heapLength)
    (hj : 1 ≤ j ∧ j ≤ m.heapLength) : m.Settled m' f f' := by
  have hlength : m1.heapLength = m.heapLength := by rw [hframe]
  have hexpire : m1.expire = m.expire := by rw [hframe]
  have hsize : m1.heapSize = m.heapSize := by rw [hframe]
  obtain ⟨holds, order, frame, slots, same⟩ := hst
  rw [hlength] at order same
  rw [hexpire] at order
  refine ⟨holds, order, ?_, slots.trans hlen, fun t => (same t).trans (swap_mem hh hj t)⟩
  rw [frame, hlength, hexpire, hsize]

theorem shiftRight_one (i : Nat) : i >>> 1 = i/2 := Nat.shiftRight_eq_div_pow i 1

theorem shiftLeft_one (i : Nat) : i <<< 1 = 2*i := by
  rw [Nat.shiftLeft_eq, Nat.mul_comm, Nat.pow_one]

theorem timerUpheap_spec {fuel : Nat} (hs : m.Sifts f h)
    (hr : Rising (m.expire ∘ f) m.heapLength h) (hf : h < fuel) :
    ∃ m' f', timerUpheap (f h) fuel m = some m' ∧ m.Settled m' f f' := by
  induction fuel generalizing m f h with
  | zero => omega
  | succ fuel ih =>
    have hidx := hs.index h hs.hole.1 hs.hole.2
    simp only [timerUpheap, hidx, shiftRight_one]
    have hstop : (2 ≤ h → ¬ m.expire (f h) < m.expire (f (h/2))) →
        ∃ m' f', m.store h (f h) = some m' ∧ m.Settled m' f f' := by
      intro hno
      obtain ⟨m', hrun, hset⟩ := hs.settle (hr.done fun h2 => not_lt.mp (hno h2))
      rw [hidx] at hrun
      exact ⟨m', f, hrun, hset⟩
    have hhole := hs.hole
    split
    · next h0 => exact hstop fun h2 => by omega
    · next h0 =>
      have hpar : 1 ≤ h/2 ∧ h/2 ≤ m.heapLength := by omega
      rw [hs.node (h/2) hpar.1 hpar.2 (by omega), Option.bind_eq_bind, Option.bind_some]
      split
      · next hlt =>
        obtain ⟨m1, hshift, hs1, hframe, hlen⟩ := hs.shift hpar (by omega)
        have hlength : m1.heapLength = m.heapLength := by rw [hframe]
        have hexpire : m1.expire = m.expire := by rw [hframe]
        have hr1 := hr.step (by omega) hhole.2 (le_of_lt hlt)
        rw [← comp_swap, ← hexpire, ← hlength] at hr1
        obtain ⟨m', f', hrun, hset⟩ := ih hs1 hr1 (by omega)
        rw [swap_right] at hrun
        refine ⟨m', f', ?_, hset.after_shift hframe hlen hhole hpar⟩
        rw [hshift, Option.bind_eq_bind, Option.bind_some, hrun]
      · next hlt => exact hstop fun _ => hlt

theorem TimerMgr.Sifts.minIndex (hs : m.Sifts f h) : ∃ c, m.minIndex (f h) = some c ∧
    (c = h ∧ (∀ i, 2 ≤ i → i ≤ m.heapLength → i/2 = h → m.expire (f h) ≤ m.expire (f i)) ∨
      (c/2 = h ∧ 2 ≤ c ∧ c ≤ m.heapLength ∧ m.expire (f c) < m.expire (f h) ∧
        ∀ i, 2 ≤ i → i ≤ m.heapLength → i/2 = h → m.expire (f c) ≤ m.expire (f i))) := by
  have hhole := hs.hole
  have hsmaller : ∀ i e, 2*h ≤ i → m.smaller i e = some
      (if i ≤ m.heapLength ∧ m.expire (f i) < e then some (m.expire (f i)) else none) := by
    intro i e hi
    rw [TimerMgr.smaller]
    split
    · next hl =>
      rw [hs.node i (by omega) hl (by omega)]
      simp [hl]
    · next hl => simp [hl]
  have hchild : ∀ i, i/2 = h → i = 2*h ∨ i = 2*h+1 := by omega
  rw [TimerMgr.minIndex, hs.index h hhole.1 hhole.2, shiftLeft_one]
  simp only [hsmaller _ _ (le_refl _), hsmaller _ _ (Nat.le_succ _), Option.bind_eq_bind,
    Option.bind_some]
  by_cases hl : 2*h ≤ m.heapLength ∧ m.expire (f (2*h)) < m.expire (f h)
  · by_cases hr : 2*h+1 ≤ m.heapLength ∧ m.expire (f (2*h+1)) < m.expire (f (2*h))
    · refine ⟨2*h+1, by simp only [if_pos hl, Option.getD_some, if_pos hr]; rfl,
        Or.inr ⟨by omega, by omega, hr.1, by omega, ?_⟩⟩
      intro i _ hi hpar
      rcases hchild i hpar with rfl | rfl <;> omega
    · refine ⟨2*h, by simp only [if_pos hl, Option.getD_some, if_neg hr]; rfl,
        Or.inr ⟨by omega, by omega, hl.1, hl.2, ?_⟩⟩
      intro i _ hi hpar
      rcases hchild i hpar with rfl | rfl <;> omega
  · by_cases hr : 2*h+1 ≤ m.heapLength ∧ m.expire (f (2*h+1)) < m.expire (f h)
    · refine ⟨2*h+1, by simp only [if_neg hl, Option.getD_none, if_pos hr]; rfl,
        Or.inr ⟨by omega, by omega, hr.1, hr.2, ?_⟩⟩
      intro i _ hi hpar
      rcases hchild i hpar with rfl | rfl <;> omega
    · refine ⟨h, by simp only [if_neg hl, Option.getD_none, if_neg hr]; rfl,
        Or.inl ⟨rfl, fun i _ hi hpar => ?_⟩⟩
      rcases hchild i hpar with rfl | rfl <;> omega

theorem timerDownheap_spec {fuel : Nat} (hs : m.Sifts f h)
    (hd : Sinking (m.expire ∘ f) m.heapLength h) (hf : m.heapLength < h + fuel) :
    ∃ m' f', timerDownheap (f h) fuel m = some m' ∧ m.Settled m' f f' := by
  have hhole := hs.hole
  induction fuel generalizing m f h with
  | zero => omega
  | succ fuel ih =>
    have hidx := hs.index h hhole.1 hhole.2
    obtain ⟨c, hmin, hc⟩ := hs.minIndex
    rw [timerDownheap, hmin, Option.bind_eq_bind, Option.bind_some, hidx]
    rcases hc with ⟨rfl, hstop⟩ | ⟨hpar, h2, hle, hlt, hleast⟩
    · obtain ⟨m', hrun, hset⟩ := hs.settle (hd.done hstop)
      rw [hidx] at hrun
      exact ⟨m', f, by simpa using hrun, hset⟩
    · have hch : 1 ≤ c ∧ c ≤ m.heapLength := by omega
      have hne : h ≠ c := by omega
      obtain ⟨m1, hshift, hs1, hframe, hlen⟩ := hs.shift hch hne
      have hlength : m1.heapLength = m.heapLength := by rw [hframe]
      have hexpire : m1.expire = m.expire := by rw [hframe]
      have hd1 := hd.step h2 hle hpar (le_of_lt hlt) hleast
      rw [← comp_swap, ← hexpire, ← hlength] at hd1
      obtain ⟨m', f', hrun, hset⟩ := ih hs1 hd1 (by omega) hs1.hole
      rw [swap_right] at hrun
      refine ⟨m', f', ?_, hset.after_shift hframe hlen hhole hch⟩
      rw [if_pos hne.symm, hs.node c hch.1 hch.2 hne.symm, Option.bind_eq_bind,
        Option.bind_some, hshift, Option.bind_some, hrun]

/-- One timer that may be anywhere in the order is put in its place. -/
theorem timerAdjustHeap_spec (hs : m.Sifts f h) (ha : Around (m.expire ∘ f) m.heapLength h) :
    ∃ m' f', timerAdjustHeap (f h) m = some m' ∧ m.Settled m' f f' := by
  have hhole := hs.hole
  have hidx := hs.index h hhole.1 hhole.2
  simp only [timerAdjustHeap, hidx, shiftRight_one]
  split
  · exact timerDownheap_spec hs (ha.sinking fun h2 => by omega) (by omega)
  · next h0 =>
    rw [hs.node (h/2) (by omega) (by omega) (by omega), Option.bind_eq_bind, Option.bind_some]
    split
    · next hlt => exact timerUpheap_spec hs (ha.rising (by omega) hlt) (Nat.lt_succ_self h)
    · next hlt =>
      exact timerDownheap_spec hs (ha.sinking fun _ => not_lt.mp hlt) (by omega)

end SimpleKit
