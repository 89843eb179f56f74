import Mathlib.Logic.Function.Basic

/-!
A directory binds names to files. A file is what was appended to it, and stays when it has no
name left, since there may be descriptors of it.
-/
set_option autoImplicit false

structure Directory (N L : Type) where
  names : N → Option Nat
  files : Nat → List L
  next : Nat
  bound : ∀ n i, names n = some i → i < next

namespace Directory
variable {N L : Type}

def empty : Directory N L := ⟨fun _ => none, fun _ => [], 0, fun _ _ h => by cases h⟩

def Named (d : Directory N L) (i : Nat) : Prop := ∃ n, d.names n = some i

def Single (d : Directory N L) : Prop :=
  ∀ m n i, d.names m = some i → d.names n = some i → m = n

def append (d : Directory N L) (i : Nat) (l : L) : Directory N L :=
  { d with files := Function.update d.files i (d.files i ++ [l]) }

theorem Named.lt {d : Directory N L} {i : Nat} (h : d.Named i) : i < d.next :=
  h.elim fun n hn => d.bound n i hn

theorem append_files (d : Directory N L) (i j : Nat) (l : L) :
    (d.append i l).files j = d.files j ++ if j = i then [l] else [] := by
  by_cases hj : j = i
  · rw [if_pos hj, hj]
    exact Function.update_self ..
  · rw [if_neg hj, List.append_nil]
    exact Function.update_of_ne hj ..

def replaced (d : Directory N L) (a b : N) : Option Nat :=
  if d.names a = none ∨ d.names a = d.names b then none else d.names b

theorem replaced_eq_none {d : Directory N L} {a b : N} :
    d.replaced a b = none ↔ d.names a = none ∨ d.names b = none ∨ d.names b = d.names a := by
  rw [replaced]
  split
  · next h => exact iff_of_true rfl (h.imp_right fun he => Or.inr he.symm)
  · next h =>
    rw [not_or] at h
    rw [or_iff_right h.1, or_iff_left (Ne.symm h.2)]

theorem replaced_ne {d : Directory N L} {a b : N} {i : Nat} (h : d.names a = some i) :
    d.replaced a b ≠ some i := by
  rw [replaced]
  split
  · exact nofun
  · next hmove =>
    rw [not_or] at hmove
    exact fun hb => hmove.2 (h.trans hb.symm)

/-- From `d` to `d'` files have only grown, and only file `r`, if any, has lost a name. -/
structure Moves (d d' : Directory N L) (r : Option Nat) : Prop where
  next : d.next ≤ d'.next
  files : ∀ i < d.next, d.files i <+: d'.files i
  named : ∀ i, d.Named i → r ≠ some i → d'.Named i
  back : ∀ i < d.next, d'.Named i → d.Named i
  single : d.Single → d'.Single
  lost : ∀ i, r = some i → i < d.next ∧ (d.Single → ¬ d'.Named i)

theorem Moves.refl (d : Directory N L) : d.Moves d none where
  next := Nat.le_refl _
  files _ _ := List.prefix_refl _
  named _ h _ := h
  back _ _ h := h
  single h := h
  lost _ h := by cases h

theorem Moves.trans {d1 d2 d3 : Directory N L} {r : Option Nat} (h : d1.Moves d2 r)
    (h' : d2.Moves d3 none) : d1.Moves d3 r where
  next := Nat.le_trans h.next h'.next
  files i hi := (h.files i hi).trans (h'.files i (Nat.lt_of_lt_of_le hi h.next))
  named i hi hr := h'.named i (h.named i hi hr) nofun
  back i hi hn := h.back i hi (h'.back i (Nat.lt_of_lt_of_le hi h.next) hn)
  single hs := h'.single (h.single hs)
  lost i hr := by
    obtain ⟨hi, hlost⟩ := h.lost i hr
    exact ⟨hi, fun hs hn => hlost hs (h'.back i (Nat.lt_of_lt_of_le hi h.next) hn)⟩

theorem append_moves (d : Directory N L) (i : Nat) (l : L) : d.Moves (d.append i l) none :=
  { Moves.refl d with
    files := fun j _ => by
      rw [append_files]
      exact List.prefix_append _ _ }

variable [DecidableEq N]

/-- Opens the file of a name, which is created if there is none. -/
def openCreate (d : Directory N L) (n : N) : Directory N L × Nat :=
  match d.names n with
  | some i => (d, i)
  | none =>
    ({ names := Function.update d.names n (some d.next)
       files := Function.update d.files d.next []
       next := d.next + 1
       bound := fun m i h => by
        by_cases hm : m = n
        · rw [hm, Function.update_self, Option.some.injEq] at h
          omega
        · rw [Function.update_of_ne hm] at h
          exact Nat.lt_succ_of_lt (d.bound m i h) }, d.next)

/-- Gives the file of `a` the name `b`, which is taken from the file that had it. Two names of
one file are left alone. -/
def rename (d : Directory N L) (a b : N) : Directory N L :=
  if d.names a = none ∨ d.names a = d.names b then d
  else
    { d with
      names := Function.update (Function.update d.names a none) b (d.names a)
      bound := fun m i h => by
        by_cases hb : m = b
        · rw [hb, Function.update_self] at h
          exact d.bound a i h
        · rw [Function.update_of_ne hb] at h
          by_cases ha : m = a
          · rw [ha, Function.update_self] at h
            cases h
          · rw [Function.update_of_ne ha] at h
            exact d.bound m i h }

theorem openCreate_of_bound {d : Directory N L} {n : N} {i : Nat} (h : d.names n = some i) :
    d.openCreate n = (d, i) := by
  rw [openCreate, h]

theorem openCreate_named (d : Directory N L) (n : N) :
    (d.openCreate n).1.Named (d.openCreate n).2 := by
  rw [openCreate]
  split
  · next i hn => exact ⟨n, hn⟩
  · exact ⟨n, Function.update_self ..⟩

theorem update_some {f : N → Option Nat} {n m : N} {v : Option Nat} {i : Nat}
    (h : Function.update f n v m = some i) : m = n ∧ v = some i ∨ m ≠ n ∧ f m = some i := by
  by_cases hm : m = n
  · rw [hm, Function.update_self] at h
    exact Or.inl ⟨hm, h⟩
  · rw [Function.update_of_ne hm] at h
    exact Or.inr ⟨hm, h⟩

theorem openCreate_moves (d : Directory N L) (n : N) : d.Moves (d.openCreate n).1 none := by
  cases hn : d.names n with
  | some i =>
    rw [openCreate_of_bound hn]
    exact Moves.refl d
  | none =>
    rw [openCreate]
    split
    · next hsome => rw [hn] at hsome; cases hsome
    · refine ⟨Nat.le_succ _, fun i hi => ?_, fun i ⟨m, hm⟩ _ => ⟨m, ?_⟩, fun i hi ⟨m, hm⟩ => ?_,
        fun hs m1 m2 i h1 h2 => ?_, fun _ h => by cases h⟩
      · have hold : Function.update d.files d.next [] i = d.files i :=
          Function.update_of_ne (Nat.ne_of_lt hi) ..
        exact hold.symm ▸ List.prefix_refl _
      · have hne : m ≠ n := fun he => by
          rw [he, hn] at hm
          cases hm
        exact (Function.update_of_ne hne ..).trans hm
      · rcases update_some hm with ⟨-, he⟩ | ⟨-, hm⟩
        · exact absurd (Option.some.inj he) (Nat.ne_of_gt hi)
        · exact ⟨m, hm⟩
      · rcases update_some h1 with ⟨e1, v1⟩ | ⟨-, o1⟩ <;>
          rcases update_some h2 with ⟨e2, v2⟩ | ⟨-, o2⟩
        · rw [e1, e2]
        · exact absurd (Option.some.inj v1) (Nat.ne_of_gt (d.bound m2 i o2))
        · exact absurd (Option.some.inj v2) (Nat.ne_of_gt (d.bound m1 i o1))
        · exact hs m1 m2 i o1 o2

theorem rename_moves (d : Directory N L) (a b : N) :
    d.Moves (d.rename a b) (d.replaced a b) := by
  rw [rename, replaced]
  split
  · exact Moves.refl d
  · next hmove =>
    rw [not_or] at hmove
    have hab : a ≠ b := fun he => hmove.2 (by rw [he])
    refine ⟨Nat.le_refl _, fun i _ => List.prefix_refl _, fun i ⟨m, hm⟩ hr => ?_,
      fun i _ ⟨m, hm⟩ => ?_, fun hs m1 m2 i h1 h2 => ?_, fun i hr => ⟨d.bound b i hr, ?_⟩⟩
    · have hmb : m ≠ b := fun he => hr (he ▸ hm)
      by_cases ha : m = a
      · exact ⟨b, (Function.update_self ..).trans (ha ▸ hm)⟩
      · exact ⟨m, (Function.update_of_ne hmb ..).trans ((Function.update_of_ne ha ..).trans hm)⟩
    · rcases update_some hm with ⟨-, ha⟩ | ⟨-, hm⟩
      · exact ⟨a, ha⟩
      · rcases update_some hm with ⟨-, hv⟩ | ⟨-, hm⟩
        · cases hv
        · exact ⟨m, hm⟩
    · have hold : ∀ m i, Function.update d.names a none m = some i →
          m ≠ a ∧ d.names m = some i := by
        intro m i hm
        rcases update_some hm with ⟨-, hv⟩ | hm
        · cases hv
        · exact hm
      rcases update_some h1 with ⟨e1, v1⟩ | ⟨-, o1⟩ <;>
        rcases update_some h2 with ⟨e2, v2⟩ | ⟨-, o2⟩
      · rw [e1, e2]
      · exact absurd (hs m2 a i (hold m2 i o2).2 v1) (hold m2 i o2).1
      · exact absurd (hs m1 a i (hold m1 i o1).2 v2) (hold m1 i o1).1
      · exact hs m1 m2 i (hold m1 i o1).2 (hold m2 i o2).2
    · rintro hs ⟨m, hm⟩
      rcases update_some hm with ⟨-, ha⟩ | ⟨hmb, hm⟩
      · exact hab (hs a b i ha hr)
      · rcases update_some hm with ⟨-, hv⟩ | ⟨-, hm⟩
        · cases hv
        · exact hmb (hs m b i hm hr)

end Directory
