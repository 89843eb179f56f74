import Mathlib.Data.Finmap
import SimpleKit.Lib.Linked
import SimpleKit.Lib.Sorted
import SimpleKit.Shash.Model

/-!
What the bucket chains look like, and what the searches and the linking of a node
do to them. `home` says in which bucket a key belongs; the bucket named by `skip`
is in the middle of a migration and its own `next` field is stale.
-/
set_option autoImplicit false

namespace SimpleKit
open Linked SortedBy

variable {V : Type} {s : Shash V} {home : Key → ShashPtr}
  {skip : Option ShashPtr} {chain : ShashPtr → List ShashPtr}

structure Shash.Chains (s : Shash V) (home : Key → ShashPtr) (skip : Option ShashPtr)
    (chain : ShashPtr → List ShashPtr) : Prop where
  next : ∀ t b, skip ≠ some (.bucket t b) → Chain s.next (.bucket t b) (chain (.bucket t b))
  prev : ∀ t b, Back s.prev (.bucket t b) (chain (.bucket t b))
  node : ∀ t b, ∀ p ∈ chain (.bucket t b), ∃ n < s.freshNode, p = .node n
  home : ∀ t b, ∀ p ∈ chain (.bucket t b), home (s.key p) = .bucket t b
  short : ∀ t b, ∀ p ∈ chain (.bucket t b), (s.key p).length < 2^31
  sorted : ∀ t b, Sorted s.key (chain (.bucket t b))

theorem Shash.Chains.same (h : s.Chains home skip chain) {t b t' b' : Nat} {p : ShashPtr}
    (hp : p ∈ chain (.bucket t b)) (hp' : p ∈ chain (.bucket t' b')) :
    ShashPtr.bucket t b = .bucket t' b' :=
  (h.home t b p hp).symm.trans (h.home t' b' p hp')

theorem Shash.Chains.key_inj (h : s.Chains home skip chain) {t b t' b' : Nat} {p q : ShashPtr}
    (hp : p ∈ chain (.bucket t b)) (hq : q ∈ chain (.bucket t' b')) (he : s.key p = s.key q) :
    p = q := by
  have hb : ShashPtr.bucket t b = .bucket t' b' := by
    rw [← h.home t b p hp, he, h.home t' b' q hq]
  exact (h.sorted t' b').key_inj (hb ▸ hp) hq he

theorem Shash.Chains.bucket_notMem (h : s.Chains home skip chain) (t b t' b' : Nat) :
    ShashPtr.bucket t b ∉ chain (.bucket t' b') := by
  intro hp
  obtain ⟨n, -, hn⟩ := h.node t' b' _ hp
  exact ShashPtr.noConfusion hn

theorem Shash.Chains.nodup (h : s.Chains home skip chain) (t b : Nat) :
    (ShashPtr.bucket t b :: chain (.bucket t b)).Nodup :=
  List.nodup_cons.mpr ⟨h.bucket_notMem t b t b, (h.sorted t b).nodup⟩

theorem Shash.Chains.apart (h : s.Chains home skip chain) {t b t' b' : Nat}
    (hne : ShashPtr.bucket t' b' ≠ .bucket t b) {y : ShashPtr}
    (hy : y ∈ ShashPtr.bucket t' b' :: chain (.bucket t' b')) :
    y ∉ ShashPtr.bucket t b :: chain (.bucket t b) := by
  intro hy'
  rcases List.mem_cons.mp hy with rfl | hy <;> rcases List.mem_cons.mp hy' with he | hy'
  · exact hne he
  · exact h.bucket_notMem _ _ _ _ hy'
  · exact h.bucket_notMem _ _ _ _ (he ▸ hy)
  · exact hne (h.same hy hy')

theorem Shash.Chains.replace (h : s.Chains home skip chain) {s' : Shash V} {t b : Nat}
    {l : List ShashPtr} (hnext : Chain s'.next (.bucket t b) l)
    (hprev : Back s'.prev (.bucket t b) l) (hfresh : s.freshNode ≤ s'.freshNode)
    (hnode : ∀ p ∈ l, (∃ n < s'.freshNode, p = .node n) ∧ home (s'.key p) = .bucket t b ∧
      (s'.key p).length < 2^31)
    (hsorted : Sorted s'.key l)
    (hframe : ∀ t' b', ShashPtr.bucket t' b' ≠ .bucket t b →
      ∀ y ∈ ShashPtr.bucket t' b' :: chain (.bucket t' b'),
        s'.next y = s.next y ∧ s'.prev y = s.prev y ∧ s'.key y = s.key y) :
    s'.Chains home skip (Function.update chain (.bucket t b) l) := by
  have hkey : ∀ t' b', ShashPtr.bucket t' b' ≠ .bucket t b →
      ∀ y ∈ chain (.bucket t' b'), s'.key y = s.key y :=
    fun t' b' hne y hy => (hframe t' b' hne y (List.mem_cons_of_mem _ hy)).2.2
  have hall : ∀ t' b', ∀ p ∈ Function.update chain (.bucket t b) l (.bucket t' b'),
      (∃ n < s'.freshNode, p = .node n) ∧ home (s'.key p) = .bucket t' b' ∧
        (s'.key p).length < 2^31 := by
    intro t' b' p hp
    by_cases hne : ShashPtr.bucket t' b' = .bucket t b
    · rw [hne, Function.update_self] at hp
      rw [hne]
      exact hnode p hp
    · rw [Function.update_of_ne hne] at hp
      obtain ⟨n, hn, rfl⟩ := h.node t' b' p hp
      rw [hkey t' b' hne _ hp]
      exact ⟨⟨n, Nat.lt_of_lt_of_le hn hfresh, rfl⟩, h.home t' b' _ hp, h.short t' b' _ hp⟩
  refine ⟨fun t' b' hs => ?_, fun t' b' => ?_, fun t' b' p hp => (hall t' b' p hp).1,
    fun t' b' p hp => (hall t' b' p hp).2.1, fun t' b' p hp => (hall t' b' p hp).2.2,
    fun t' b' => ?_⟩
  · by_cases hne : ShashPtr.bucket t' b' = .bucket t b
    · rw [hne, Function.update_self]
      exact hnext
    · rw [Function.update_of_ne hne]
      exact chain_congr (fun y hy => (hframe t' b' hne y hy).1) (h.next t' b' hs)
  · by_cases hne : ShashPtr.bucket t' b' = .bucket t b
    · rw [hne, Function.update_self]
      exact hprev
    · rw [Function.update_of_ne hne]
      exact back_congr (fun y hy => (hframe t' b' hne y (List.mem_cons_of_mem _ hy)).2.1)
        (h.prev t' b')
  · by_cases hne : ShashPtr.bucket t' b' = .bucket t b
    · rw [hne, Function.update_self]
      exact hsorted
    · rw [Function.update_of_ne hne]
      exact (h.sorted t' b').congr (hkey t' b' hne)

theorem length_le_card {key : ShashPtr → Key} {l : List ShashPtr} {keys : Finset Key}
    (hs : Sorted key l) (hk : ∀ p ∈ l, key p ∈ keys) : l.length ≤ keys.card := by
  have hsub : (l.map key).toFinset ⊆ keys := by
    intro k hmem
    obtain ⟨p, hp, rfl⟩ := List.mem_map.mp (List.mem_toFinset.mp hmem)
    exact hk p hp
  have hcard := Finset.card_le_card hsub
  rwa [List.toFinset_card_of_nodup hs.nodup_keys, List.length_map] at hcard

theorem bucketIndex_eq (hash n : Nat) : bucketIndex hash n = hash % 2^n := by
  rw [bucketIndex, Nat.one_shiftLeft, Nat.and_two_pow_sub_one_eq_mod]

theorem Shash.bucketFor_bucket (s : Shash V) (key : Key) :
    ∃ t b, s.bucketFor key = .bucket t b := by
  simp only [Shash.bucketFor]
  split
  · split <;> exact ⟨_, _, rfl⟩
  · exact ⟨_, _, rfl⟩

section Search
variable {key : Key} {a : ShashPtr} {lo hi : List ShashPtr}

theorem Shash.placeLoop_path (hc : Chain s.next a (lo ++ hi)) (hlo : ∀ p ∈ lo, s.key p < key)
    (hhi : ∀ p ∈ hi, key ≤ s.key p) (hk : key.length < 2^31) {fuel : Nat}
    (hf : lo.length < fuel) : s.placeLoop key fuel a = some (last a lo) := by
  have hcmp : ∀ p, shashKeyCompare key (s.key p) ≤ 0 ↔ key ≤ s.key p := by
    intro p
    have hlen : min key.length (s.key p).length < 2^31 := by omega
    rw [Int.le_iff_lt_or_eq, shashKeyCompare_lt hlen, shashKeyCompare_eq hlen, ← le_iff_lt_or_eq]
  induction lo generalizing a fuel with
  | nil =>
    obtain ⟨fuel, rfl⟩ : ∃ n, fuel = n+1 := ⟨fuel-1, by simp at hf; omega⟩
    have hn := chain_next hc
    cases hi with
    | nil => simp [placeLoop, hn]
    | cons n hi => simp [placeLoop, hn, hcmp, hhi n (by simp)]
  | cons n lo ih =>
    obtain ⟨fuel, rfl⟩ : ∃ n, fuel = n+1 := ⟨fuel-1, by simp at hf; omega⟩
    have hn : ¬ key ≤ s.key n := not_le.mpr (hlo n (by simp))
    have hrec := ih hc.2 (fun p hp => hlo p (by simp [hp])) 
      (show lo.length < fuel by simpa using hf)
    simp [placeLoop, hc.1, hcmp, hn, hrec, last_cons]

theorem Shash.findLoop_path (hc : Chain s.next a (lo ++ hi)) (hlo : ∀ p ∈ lo, s.key p < key)
    (hhi : ∀ p ∈ hi, key ≤ s.key p) (hk : key.length < 2^31) {fuel : Nat}
    (hf : lo.length < fuel) :
    s.findLoop key fuel a = some (hi.head?.filter fun p => s.key p = key) ∧
      s.insertLoop key fuel a =
        some (if (hi.head?.filter fun p => s.key p = key).isSome then none
          else some (last a lo)) := by
  have hlt : ∀ p, shashKeyCompare key (s.key p) < 0 ↔ key < s.key p := fun p =>
    shashKeyCompare_lt (by omega)
  have heq : ∀ p, shashKeyCompare key (s.key p) = 0 ↔ key = s.key p := fun p =>
    shashKeyCompare_eq (by omega)
  induction lo generalizing a fuel with
  | nil =>
    obtain ⟨fuel, rfl⟩ : ∃ n, fuel = n+1 := ⟨fuel-1, by simp at hf; omega⟩
    have hn := chain_next hc
    cases hi with
    | nil => simp [findLoop, insertLoop, hn]
    | cons n hi =>
      have hle := hhi n (by simp)
      by_cases he : s.key n = key
      · subst he
        simp [findLoop, insertLoop, hn, heq, Option.filter]
      · have hl : key < s.key n := lt_of_le_of_ne hle (Ne.symm he)
        simp [findLoop, insertLoop, hn, heq, hlt, he, Ne.symm he, hl, Option.filter]
  | cons n lo ih =>
    obtain ⟨fuel, rfl⟩ : ∃ n, fuel = n+1 := ⟨fuel-1, by simp at hf; omega⟩
    have hn := hlo n (by simp)
    have hrec := ih hc.2 (fun p hp => hlo p (by simp [hp])) 
      (show lo.length < fuel by simpa using hf)
    simp only [findLoop, insertLoop, hc.1, heq, hlt, ne_of_gt hn, not_lt_of_gt hn, if_false,
      hrec, last_cons, and_self]

end Search

section Spec
variable {t b : Nat} {key : Key} {keys : Finset Key}

theorem Shash.Chains.placeLoop (h : s.Chains home skip chain) (hskip : skip ≠ some (.bucket t b))
    (hk : key.length < 2^31) {fuel : Nat} (hf : (chain (.bucket t b)).length < fuel) :
    s.placeLoop key fuel (.bucket t b) =
      some (last (.bucket t b) (below s.key key (chain (.bucket t b)))) := by
  have hc := h.next t b hskip
  have hsplit := below_append_above (h.sorted t b) key
  have hlen := congrArg List.length hsplit
  rw [← hsplit] at hc
  refine Shash.placeLoop_path hc (by simp) (by simp) hk ?_
  rw [List.length_append] at hlen
  omega

theorem Shash.Chains.findLoop (h : s.Chains home skip chain) (hskip : skip ≠ some (.bucket t b))
    (hk : key.length < 2^31) {fuel : Nat} (hf : (chain (.bucket t b)).length < fuel) :
    s.findLoop key fuel (.bucket t b) =
        some ((chain (.bucket t b)).find? fun p => s.key p = key) ∧
      s.insertLoop key fuel (.bucket t b) =
        some (if ((chain (.bucket t b)).find? fun p => s.key p = key).isSome then none
          else some (last (.bucket t b) (below s.key key (chain (.bucket t b))))) := by
  have hc := h.next t b hskip
  have hsplit := below_append_above (h.sorted t b) key
  have hlen := congrArg List.length hsplit
  rw [find_eq_head_above (h.sorted t b)]
  rw [← hsplit] at hc
  refine Shash.findLoop_path hc (by simp) (by simp) hk ?_
  rw [List.length_append] at hlen
  omega

/-- Linking a node in at the place the search found keeps all chains. -/
theorem Shash.Chains.link (h : s.Chains home skip chain) {n : Nat}
    (hfresh : n < s.freshNode) (hnot : ∀ t b, ShashPtr.node n ∉ chain (.bucket t b))
    (hlen : (s.key (.node n)).length < 2^31) (hhome : home (s.key (.node n)) = .bucket t b)
    (hskip : skip ≠ some (.bucket t b))
    (hnew : ∀ p ∈ chain (.bucket t b), s.key p ≠ s.key (.node n)) :
    (s.link (.node n) (last (.bucket t b)
        (below s.key (s.key (.node n)) (chain (.bucket t b))))).Chains home skip
      (Function.update chain (.bucket t b)
        (below s.key (s.key (.node n)) (chain (.bucket t b)) ++
          .node n :: above s.key (s.key (.node n)) (chain (.bucket t b)))) := by
  have hsplit := below_append_above (h.sorted t b) (s.key (.node n))
  have hinsert := sorted_insert (h.sorted t b) rfl hnew
  generalize hlo : below s.key (s.key (.node n)) (chain (.bucket t b)) = lo at *
  generalize hhi : above s.key (s.key (.node n)) (chain (.bucket t b)) = hi at *
  have hnd : (ShashPtr.bucket t b :: (lo ++ hi)).Nodup := by
    rw [hsplit]
    exact h.nodup t b
  have hc : Chain s.next (.bucket t b) (lo ++ hi) := by
    rw [hsplit]
    exact h.next t b hskip
  have hb : Back s.prev (.bucket t b) (lo ++ hi) := by
    rw [hsplit]
    exact h.prev t b
  have hlast : last (.bucket t b) lo ∈ ShashPtr.bucket t b :: chain (.bucket t b) := by
    rw [← hlo]
    exact last_mem_of_subset _ (List.filter_sublist.subset)
  have hsucc : s.next (last (.bucket t b) lo) = hi.head? :=
    chain_next ((chain_append _ lo hi).mp hc).2
  have hhead : ∀ p, hi.head? = some p → p ∈ chain (.bucket t b) := by
    intro p hp
    rw [← hsplit]
    exact List.mem_append_right lo (List.mem_of_mem_head? hp)
  have hfar : ∀ t' b', ∀ y ∈ ShashPtr.bucket t' b' :: chain (.bucket t' b'), y ≠ .node n := by
    rintro t' b' y hy rfl
    rcases List.mem_cons.mp hy with he | hy
    · exact ShashPtr.noConfusion he
    · exact hnot t' b' hy
  have hnl : last (.bucket t b) lo ≠ .node n := hfar t b _ hlast
  have hnext : ∀ y, y ≠ .node n → y ≠ last (.bucket t b) lo →
      (s.link (.node n) (last (.bucket t b) lo)).next y = s.next y := by
    intro y hyn hyl
    simp [Shash.link, Function.update_of_ne hyl, Function.update_of_ne hyn]
  have hprev : ∀ y, y ≠ .node n → hi.head? ≠ some y →
      (s.link (.node n) (last (.bucket t b) lo)).prev y = s.prev y := by
    intro y hyn hyh
    simp only [Shash.link, Function.update_of_ne hyn, hsucc]
    cases hi with
    | nil => rfl
    | cons x hi => exact Function.update_of_ne (fun he => hyh (by simp [he])) _ _
  refine h.replace ?_ ?_ (Nat.le_refl _) (fun p hp => ?_) hinsert fun t' b' hne y hy => ?_
  · refine chain_insert hnd ?_ hc ?_ ?_ fun y hy hyl => ?_
    · rw [hsplit]
      exact fun hn => hfar t b _ hn rfl
    · simp [Shash.link]
    · simp [Shash.link, Function.update_of_ne (Ne.symm hnl)]
    · rw [hsplit] at hy
      exact hnext y (hfar t b y hy) hyl
  · refine back_insert hnd hb ?_ (fun y hy => ?_) fun y hy hyh => ?_
    · simp [Shash.link]
    · have hyn := hfar t b y (List.mem_cons_of_mem _ (hhead y hy))
      simp [Shash.link, Function.update_of_ne hyn, hsucc, hy]
    · rw [hsplit] at hy
      exact hprev y (hfar t b y (List.mem_cons_of_mem _ hy)) hyh
  · have hp' : p = .node n ∨ p ∈ chain (.bucket t b) := by
      rw [← hsplit, List.mem_append]
      rw [List.mem_append, List.mem_cons] at hp
      tauto
    rcases hp' with rfl | hp
    · exact ⟨⟨n, hfresh, rfl⟩, hhome, hlen⟩
    · exact ⟨h.node t b p hp, h.home t b p hp, h.short t b p hp⟩
  · have hy' := h.apart hne hy
    exact ⟨hnext y (hfar t' b' y hy) (fun he => hy' (he ▸ hlast)),
      hprev y (hfar t' b' y hy) (fun he => hy' (List.mem_cons_of_mem _ (hhead y he))), rfl⟩

end Spec

end SimpleKit
