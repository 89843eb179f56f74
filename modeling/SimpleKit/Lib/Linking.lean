import Mathlib.Logic.Function.Basic

/-!
Two-way references: tables that name their members, and members that name their table and
their key in it. While a member is moved, what it says is not valid; it is `loose` then,
and in no table.
-/
set_option autoImplicit false

namespace Linking
variable {U K R : Type}

def Linked (table : U → K → Option R) (link : R → Option (U × K)) (loose : R → Prop) : Prop :=
  ∀ u k r, table u k = some r ↔ ¬ loose r ∧ link r = some (u, k)

variable {table table' : U → K → Option R} {link link' : R → Option (U × K)}
  {loose loose' : R → Prop}

theorem Linked.inj (h : Linked table link loose) {u u' : U} {k k' : K} {r : R}
    (h1 : table u k = some r) (h2 : table u' k' = some r) : u = u' ∧ k = k' := by
  have he := ((h u k r).mp h1).2.symm.trans ((h u' k' r).mp h2).2
  simpa using he

theorem Linked.pull [DecidableEq U] [DecidableEq K] (h : Linked table link loose) {u : U} {k : K}
    {r : R}
    (hr : table u k = some r)
    (htable : ∀ v l, table' v l = if v = u ∧ l = k then none else table v l)
    (hloose : ∀ x, loose' x ↔ x = r ∨ loose x) : Linked table' link loose' := by
  intro v l x
  rw [htable, hloose]
  split
  · next he =>
    obtain ⟨rfl, rfl⟩ := he
    refine ⟨nofun, fun hx => absurd ?_ hx.1⟩
    have hx' := (h v l x).mpr ⟨fun hl => hx.1 (Or.inr hl), hx.2⟩
    exact Or.inl (Option.some.inj (hx'.symm.trans hr))
  · next hne =>
    rw [h]
    refine ⟨fun hx => ⟨?_, hx.2⟩, fun hx => ⟨fun hl => hx.1 (Or.inr hl), hx.2⟩⟩
    rintro (rfl | hl)
    · have := ((h u k x).mp hr).2.symm.trans hx.2
      simp only [Option.some.injEq, Prod.mk.injEq] at this
      exact hne ⟨this.1.symm, this.2.symm⟩
    · exact hx.1 hl

theorem Linked.put [DecidableEq U] [DecidableEq K] [DecidableEq R]
    (h : Linked table link loose) {u : U} {k : K} {r : R} (hr : loose r)
    (hfree : table u k = none)
    (htable : ∀ v l, table' v l = if v = u ∧ l = k then some r else table v l)
    (hlink : ∀ x, link' x = if x = r then some (u, k) else link x)
    (hloose : ∀ x, loose' x ↔ x ≠ r ∧ loose x) : Linked table' link' loose' := by
  intro v l x
  rw [htable, hloose, hlink]
  by_cases hx : x = r
  · subst hx
    have hno : table v l ≠ some x := fun ht => ((h v l x).mp ht).1 hr
    split
    · next he =>
      obtain ⟨rfl, rfl⟩ := he
      simp
    · next hne =>
      refine ⟨fun ht => absurd ht hno, fun hl => absurd ?_ hne⟩
      simpa [eq_comm] using hl.2
  · rw [if_neg hx]
    split
    · next he =>
      obtain ⟨rfl, rfl⟩ := he
      have hno : table v l ≠ some x := by
        rw [hfree]
        nofun
      refine ⟨fun hr' => absurd (Option.some.inj hr').symm hx, fun hl => absurd ?_ hno⟩
      exact (h v l x).mpr ⟨fun hlx => hl.1 ⟨hx, hlx⟩, hl.2⟩
    · rw [h]
      exact ⟨fun hl => ⟨fun hlx => hl.1 hlx.2, hl.2⟩,
        fun hl => ⟨fun hlx => hl.1 ⟨hx, hlx⟩, hl.2⟩⟩

/-- What a loose member says may change, and so may it stop to be loose when it names
no table. -/
theorem Linked.settle (h : Linked table link loose) {r : R} (hr : loose r)
    (hlink : ∀ x, x ≠ r → link' x = link x)
    (hloose : ∀ x, x ≠ r → (loose' x ↔ loose x)) (hnone : loose' r ∨ link' r = none) :
    Linked table link' loose' := by
  intro v l x
  by_cases hx : x = r
  · subst hx
    refine ⟨fun ht => absurd hr ((h v l x).mp ht).1, fun hl => ?_⟩
    rcases hnone with hl' | hnone
    · exact absurd hl' hl.1
    · rw [hnone] at hl
      cases hl.2
  · rw [h, hlink x hx, hloose x hx]

theorem Linked.loosen (h : Linked table link loose) {r : R} (hr : link r = none)
    (hlink : ∀ x, x ≠ r → link' x = link x)
    (hloose : ∀ x, loose' x ↔ x = r ∨ loose x) : Linked table link' loose' := by
  intro v l x
  rw [hloose]
  by_cases hx : x = r
  · subst hx
    refine ⟨fun ht => ?_, fun hl => absurd (Or.inl rfl) hl.1⟩
    have := ((h v l x).mp ht).2
    rw [hr] at this
    cases this
  · rw [h, hlink x hx]
    exact ⟨fun hl => ⟨fun ho => ho.elim hx hl.1, hl.2⟩,
      fun hl => ⟨fun hlx => hl.1 (Or.inr hlx), hl.2⟩⟩

theorem Linked.clear [DecidableEq U] (h : Linked table link loose) {u : U}
    (htable : ∀ v l, table' v l = if v = u then none else table v l)
    (hlink : ∀ x, (∃ k, table u k = some x) → link' x = none)
    (hother : ∀ x, (¬ ∃ k, table u k = some x) → link' x = link x) :
    Linked table' link' loose := by
  intro v l x
  rw [htable]
  by_cases hx : ∃ k, table u k = some x
  · obtain ⟨k, hk⟩ := hx
    rw [hlink x ⟨k, hk⟩]
    refine ⟨fun ht => ?_, fun hl => by cases hl.2⟩
    split at ht
    · cases ht
    · next hne => exact absurd (h.inj ht hk).1 hne
  · rw [hother x hx, ← h]
    split
    · next he =>
      subst he
      exact ⟨nofun, fun ht => absurd ⟨l, ht⟩ hx⟩
    · exact Iff.rfl

end Linking
