import SimpleKit.Lib.Run
import SimpleKit.Shash.Iterate

set_option autoImplicit false

namespace SimpleKit
open Linked SortedBy Runs

variable {V : Type} {s : Shash V} {chain : ShashPtr → List ShashPtr} {m : KeyMap V}

def Shash.place (s : Shash V) (chain : ShashPtr → List ShashPtr) (key : Key) : ShashPtr :=
  last (s.bucketFor key) (below s.key key (chain (s.bucketFor key)))

theorem Shash.Rep.search (h : s.Rep chain m) {key : Key} (hk : key.length < 2^31) :
    shashFindNode s key = some ((chain (s.bucketFor key)).find? fun p => s.key p = key) ∧
      s.insertLoop key s.fuel (s.bucketFor key) =
        some (if key ∈ m then none else some (s.place chain key)) := by
  obtain ⟨t, b, hb⟩ := s.bucketFor_bucket key
  have hlen : (chain (.bucket t b)).length < s.fuel := Nat.lt_succ_of_le (h.length_le t b)
  obtain ⟨hf, hi⟩ := h.chains.findLoop (by simp) hk hlen
  have hmem : ((chain (.bucket t b)).find? fun p => s.key p = key).isSome = true ↔ key ∈ m := by
    rw [List.find?_isSome, ← Finmap.lookup_isSome, Option.isSome_iff_exists]
    simp only [h.lookup, hb, decide_eq_true_eq]
    exact ⟨fun ⟨p, hp, hpk⟩ => ⟨_, p, hp, hpk, rfl⟩, fun ⟨_, p, hp, hpk, _⟩ => ⟨p, hp, hpk⟩⟩
  rw [shashFindNode, Shash.place, hb]
  exact ⟨hf, by rw [hi]; exact congrArg some (if_congr hmem rfl rfl)⟩

theorem Shash.Rep.find_node (h : s.Rep chain m) (key : Key) :
    (match (chain (s.bucketFor key)).find? fun p => s.key p = key with
      | some p => p ∈ chain (s.bucketFor key) ∧ s.key p = key ∧ m.lookup key = some (s.value p)
      | none => m.lookup key = none) := by
  cases hf : (chain (s.bucketFor key)).find? fun p => s.key p = key with
  | some p =>
    have hp := List.mem_of_find?_eq_some hf
    have hk : s.key p = key := by simpa using List.find?_some hf
    exact ⟨hp, hk, (h.lookup key _).mpr ⟨p, hp, hk, rfl⟩⟩
  | none =>
    refine Option.eq_none_iff_forall_ne_some.mpr fun v hv => ?_
    obtain ⟨p, hp, hk, -⟩ := (h.lookup key v).mp hv
    exact absurd hk (by simpa using List.find?_eq_none.mp hf p hp)

def Shash.added (s : Shash V) (key : Key) (value : V) (dst : ShashPtr) : Shash V :=
  let s1 := (shashNewNode s key value).link (.node s.freshNode) dst
  { s1 with numNode := s1.numNode + 1 }

def Shash.addedChain (s : Shash V) (chain : ShashPtr → List ShashPtr) (key : Key) :
    ShashPtr → List ShashPtr :=
  Function.update chain (s.bucketFor key) (below s.key key (chain (s.bucketFor key)) ++
    .node s.freshNode :: above s.key key (chain (s.bucketFor key)))

theorem Shash.Chains.fresh_notMem {home : Key → ShashPtr} {skip : Option ShashPtr}
    (h : s.Chains home skip chain) (t b : Nat) :
    ShashPtr.node s.freshNode ∉ chain (.bucket t b) := by
  intro hp
  obtain ⟨n, hn, he⟩ := h.node t b _ hp
  cases he
  exact lt_irrefl _ hn

theorem shashNewNode_chains {home : Key → ShashPtr} {skip : Option ShashPtr}
    (h : s.Chains home skip chain) (key : Key) (value : V) :
    (shashNewNode s key value).Chains home skip chain := by
  have hne : ∀ t b, ∀ p ∈ ShashPtr.bucket t b :: chain (.bucket t b),
      p ≠ .node s.freshNode := by
    rintro t b p hp rfl
    exact h.fresh_notMem t b (by simpa using hp)
  have hkey : ∀ t b, ∀ p ∈ chain (.bucket t b), (shashNewNode s key value).key p = s.key p :=
    fun t b p hp => Function.update_of_ne (hne t b p (List.mem_cons_of_mem _ hp)) _ _
  refine ⟨?_, ?_, ?_, ?_, ?_, ?_⟩
  · intro t b hs
    exact chain_congr (fun p hp => Function.update_of_ne (hne t b p hp) _ _) (h.next t b hs)
  · intro t b
    exact back_congr (fun p hp => Function.update_of_ne
      (hne t b p (List.mem_cons_of_mem _ hp)) _ _) (h.prev t b)
  · intro t b p hp
    obtain ⟨n, hn, rfl⟩ := h.node t b p hp
    exact ⟨n, Nat.lt_succ_of_lt hn, rfl⟩
  · intro t b p hp
    rw [hkey t b p hp]
    exact h.home t b p hp
  · intro t b p hp
    rw [hkey t b p hp]
    exact h.short t b p hp
  · intro t b
    exact (h.sorted t b).congr (hkey t b)

theorem Shash.Rep.add (h : s.Rep chain m) {key : Key} (hk : key.length < 2^31)
    (habs : key ∉ m) (value : V) :
    (s.added key value (s.place chain key)).Rep (s.addedChain chain key) (m.insert key value) := by
  obtain ⟨t, b, hb⟩ := s.bucketFor_bucket key
  have hnew := shashNewNode_chains h.chains key value
  have hkey : (shashNewNode s key value).key (.node s.freshNode) = key :=
    Function.update_self ..
  have hold : ∀ t b, ∀ p ∈ chain (.bucket t b),
      p ≠ .node s.freshNode := by
    rintro t b p hp rfl
    exact h.chains.fresh_notMem t b hp
  have hbelow : ∀ q : Key → Bool, (chain (.bucket t b)).filter
      (fun p => q ((shashNewNode s key value).key p)) =
      (chain (.bucket t b)).filter (fun p => q (s.key p)) := by
    intro q
    refine List.filter_congr fun p hp => ?_
    have hkp : (shashNewNode s key value).key p = s.key p :=
      Function.update_of_ne (hold t b p hp) _ _
    rw [hkp]
  have hlink := hnew.link (t := t) (b := b) (Nat.lt_succ_self s.freshNode)
    (h.chains.fresh_notMem) (by rwa [hkey]) (by rw [hkey, hb]) (by simp)
    (by
      intro p hp he
      rw [hkey, show (shashNewNode s key value).key p = s.key p from
        Function.update_of_ne (hold t b p hp) _ _] at he
      exact habs (he ▸ Finmap.mem_keys.mp (h.key_mem hp)))
  rw [hkey] at hlink
  have hbl : below (shashNewNode s key value).key key (chain (.bucket t b)) =
      below s.key key (chain (.bucket t b)) := hbelow fun k => decide (k < key)
  have hab : above (shashNewNode s key value).key key (chain (.bucket t b)) =
      above s.key key (chain (.bucket t b)) := hbelow fun k => decide (key ≤ k)
  rw [hbl, hab] at hlink
  have hmem : ∀ t' b' p, p ∈ s.addedChain chain key (.bucket t' b') ↔
      p ∈ chain (.bucket t' b') ∨ p = .node s.freshNode ∧ ShashPtr.bucket t' b' = .bucket t b := by
    intro t' b' p
    rw [Shash.addedChain, hb]
    by_cases hne : ShashPtr.bucket t' b' = .bucket t b
    · rw [hne, Function.update_self, mem_insert_iff]
      simp
    · rw [Function.update_of_ne hne]
      simp [hne]
  refine ⟨⟨h.shape.small, h.shape.table0, h.shape.table1, h.shape.double⟩, ?_, ?_, ?_, ?_⟩
  · rw [Shash.place, Shash.addedChain, hb]
    exact ⟨hlink.next, hlink.prev, hlink.node, hlink.home, hlink.short, hlink.sorted⟩
  · intro k v
    have hbf : (s.added key value (s.place chain key)).bucketFor k = s.bucketFor k := rfl
    obtain ⟨t', b', hb'⟩ := s.bucketFor_bucket k
    rw [hbf, hb']
    by_cases hkk : k = key
    · subst hkk
      rw [Finmap.lookup_insert]
      have hbb : ShashPtr.bucket t' b' = .bucket t b := hb'.symm.trans hb
      constructor
      · intro hv
        refine ⟨.node s.freshNode, (hmem t' b' _).mpr (Or.inr ⟨rfl, hbb⟩),
          Function.update_self .., ?_⟩
        exact (Function.update_self ..).trans (Option.some.inj hv)
      · rintro ⟨p, hp, hpk, hpv⟩
        rcases (hmem t' b' p).mp hp with hp | ⟨rfl, -⟩
        · have hkp : s.key p = k := (Function.update_of_ne (hold t' b' p hp) _ _).symm.trans hpk
          exact absurd (Finmap.mem_keys.mp (h.key_mem hp)) (by rwa [hkp])
        · exact congrArg some ((Function.update_self ..).symm.trans hpv)
    · rw [Finmap.lookup_insert_of_ne _ hkk, h.lookup, hb']
      refine exists_congr fun p => ?_
      rw [hmem]
      constructor
      · rintro ⟨hp, hpk, hpv⟩
        refine ⟨Or.inl hp, (Function.update_of_ne (hold t' b' p hp) _ _).trans hpk, ?_⟩
        exact (Function.update_of_ne (hold t' b' p hp) _ _).trans hpv
      · rintro ⟨hp | ⟨rfl, -⟩, hpk, hpv⟩
        · have h1 := (Function.update_of_ne (hold t' b' p hp) _ _).symm.trans hpk
          exact ⟨hp, h1, (Function.update_of_ne (hold t' b' p hp) _ _).symm.trans hpv⟩
        · exact absurd (hpk.symm.trans (Function.update_self ..)) hkk
  · have hkeys : (m.insert key value).keys = insert key m.keys := by
      ext k
      simp [Finmap.mem_keys, Finmap.mem_insert]
    rw [hkeys, Finset.card_insert_of_notMem (fun hmem => habs (Finmap.mem_keys.mp hmem)),
      ← h.size]
    rfl
  · intro p hp
    obtain ⟨hi, table, ht, hpt⟩ := h.iter p hp
    exact ⟨hi, table, ht, (hmem _ _ _).mpr (Or.inl hpt)⟩

section Remove
variable [Inhabited V] {t b : Nat} {p : ShashPtr} {l r : List ShashPtr}

theorem Shash.Chains.unlink {home : Key → ShashPtr} (h : s.Chains home none chain)
    (hch : chain (.bucket t b) = l ++ p :: r) :
    (s.unlink p (last (.bucket t b) l)).Chains home none
      (Function.update chain (.bucket t b) (l ++ r)) := by
  have hnd := h.nodup t b
  have hc := h.next t b (by simp)
  have hb := h.prev t b
  have hs := h.sorted t b
  rw [hch] at hnd hc hb hs
  have hp : p ∈ chain (.bucket t b) := by simp [hch]
  obtain ⟨hlast, hnext⟩ := chain_next_mid hc
  have hlm : last (.bucket t b) l ∈ ShashPtr.bucket t b :: chain (.bucket t b) := by
    refine last_mem_of_subset _ (fun x hx => ?_)
    rw [hch]
    exact List.mem_append_left _ hx
  have hpl : last (.bucket t b) l ≠ p := by
    intro he
    have hmem := last_mem (ShashPtr.bucket t b) l
    rw [he] at hmem
    rw [← List.cons_append] at hnd
    exact (List.nodup_append.mp hnd).2.2 p hmem p (by simp) rfl
  have hmem : ∀ y ∈ l ++ r, y ∈ chain (.bucket t b) ∧ y ≠ p := by
    intro y hy
    rw [List.nodup_cons, List.nodup_middle, List.nodup_cons] at hnd
    refine ⟨?_, fun he => hnd.2.1 (he ▸ hy)⟩
    rw [hch]
    simp only [List.mem_append, List.mem_cons] at hy ⊢
    tauto
  have hkey : ∀ y, y ≠ p → (s.unlink p (last (.bucket t b) l)).key y = s.key y :=
    fun y hy => Function.update_of_ne hy _ _
  have hnx : ∀ y, y ≠ p → y ≠ last (.bucket t b) l →
      (s.unlink p (last (.bucket t b) l)).next y = s.next y := by
    intro y hyp hyl
    simp [Shash.unlink, Function.update_of_ne hyp, Function.update_of_ne hyl]
  have hpv : ∀ y, y ≠ p → r.head? ≠ some y →
      (s.unlink p (last (.bucket t b) l)).prev y = s.prev y := by
    intro y hyp hyr
    simp only [Shash.unlink, Function.update_of_ne hyp, hnext]
    cases r with
    | nil => rfl
    | cons x r => exact Function.update_of_ne (fun he => hyr (by simp [he])) _ _
  have hafter : ∀ y, r.head? = some y → y ∈ l ++ r :=
    fun y hy => List.mem_append_right l (List.mem_of_mem_head? hy)
  refine h.replace ?_ ?_ (Nat.le_refl _) (fun y hy => ?_) ?_ fun t' b' hne y hy => ?_
  · refine chain_erase hnd hc ?_ fun y hy hyl => ?_
    · simp [Shash.unlink, Function.update_of_ne hpl]
    · refine hnx y (fun he => ?_) hyl
      rw [← List.cons_append, List.nodup_middle, List.nodup_cons] at hnd
      exact hnd.1 (he ▸ hy)
  · refine back_erase hnd hb (fun y hy => ?_) fun y hy hyr => hpv y (hmem y hy).2 hyr
    have hyp := (hmem y (hafter y hy)).2
    rw [back_mid hb]
    simp [Shash.unlink, Function.update_of_ne hyp, hnext, hy]
  · obtain ⟨hy, hyp⟩ := hmem y hy
    rw [hkey y hyp]
    exact ⟨h.node t b y hy, h.home t b y hy, h.short t b y hy⟩
  · exact (sorted_append_erase hs).congr fun y hy => hkey y (hmem y hy).2
  · have hy' := h.apart hne hy
    have hyp : y ≠ p := fun he => hy' (he ▸ List.mem_cons_of_mem _ hp)
    exact ⟨hnx y hyp (fun he => hy' (he ▸ hlm)),
      hpv y hyp (fun he => hy' (List.mem_cons_of_mem _ (hmem y (hafter y he)).1)), hkey y hyp⟩

theorem Shash.Rep.remove (h : s.Rep chain m) (hch : chain (.bucket t b) = l ++ p :: r)
    (hit : s.iterator ≠ some p) :
    (s.unlink p (last (.bucket t b) l)).Rep
      (Function.update chain (.bucket t b) (l ++ r)) (m.erase (s.key p)) := by
  have hp : p ∈ chain (.bucket t b) := by simp [hch]
  have hmem : ∀ t' b' y, y ∈ Function.update chain (.bucket t b) (l ++ r) (.bucket t' b') ↔
      y ∈ chain (.bucket t' b') ∧ y ≠ p := by
    intro t' b' y
    by_cases hne : ShashPtr.bucket t' b' = .bucket t b
    · have hnd := h.chains.nodup t b
      rw [hch, List.nodup_cons, List.nodup_middle, List.nodup_cons] at hnd
      rw [hne, Function.update_self, hch]
      have hy : y ∈ l ++ r → y ≠ p := fun hy he => hnd.2.1 (he ▸ hy)
      simp only [List.mem_append, List.mem_cons] at hy ⊢
      tauto
    · rw [Function.update_of_ne hne]
      refine ⟨fun hy => ⟨hy, ?_⟩, fun hy => hy.1⟩
      rintro rfl
      exact hne (h.chains.same hy hp)
  have hkm : s.key p ∈ m := Finmap.mem_keys.mp (h.key_mem hp)
  refine ⟨⟨h.shape.small, h.shape.table0, h.shape.table1, h.shape.double⟩,
    h.chains.unlink hch, ?_, ?_, ?_⟩
  · intro k v
    have hbf : (s.unlink p (last (.bucket t b) l)).bucketFor k = s.bucketFor k := rfl
    obtain ⟨t', b', hb'⟩ := s.bucketFor_bucket k
    rw [hbf, hb']
    by_cases hkk : k = s.key p
    · subst hkk
      rw [Finmap.lookup_erase]
      refine ⟨by simp, ?_⟩
      rintro ⟨y, hy, hyk, -⟩
      obtain ⟨hy, hyp⟩ := (hmem t' b' y).mp hy
      have hyk' : s.key y = s.key p := (Function.update_of_ne hyp _ _).symm.trans hyk
      have hbb : ShashPtr.bucket t' b' = .bucket t b :=
        hb'.symm.trans (h.chains.home t b p hp)
      rw [hbb] at hy
      exact absurd ((h.chains.sorted t b).key_inj hy hp hyk') hyp
    · rw [Finmap.lookup_erase_ne hkk, h.lookup, hb']
      refine exists_congr fun y => ?_
      rw [hmem]
      constructor
      · rintro ⟨hy, hyk, hyv⟩
        have hyp : y ≠ p := by
          rintro rfl
          exact hkk hyk.symm
        exact ⟨⟨hy, hyp⟩, (Function.update_of_ne hyp _ _).trans hyk,
          (Function.update_of_ne hyp _ _).trans hyv⟩
      · rintro ⟨⟨hy, hyp⟩, hyk, hyv⟩
        exact ⟨hy, (Function.update_of_ne hyp _ _).symm.trans hyk,
          (Function.update_of_ne hyp _ _).symm.trans hyv⟩
  · have hkeys : (m.erase (s.key p)).keys = m.keys.erase (s.key p) := Finmap.keys_erase _ _
    rw [hkeys, Finset.card_erase_of_mem (Finmap.mem_keys.mpr hkm), ← h.size]
    rfl
  · intro y hy
    obtain ⟨hi, table, ht, hyt⟩ := h.iter y hy
    refine ⟨hi, table, ht, (hmem _ _ _).mpr ⟨hyt, ?_⟩⟩
    rintro rfl
    exact hit hy

end Remove

inductive ShashOp (V : Type) where
  | insert : Key → V → ShashOp V
  | erase : Key → ShashOp V
  | find : Key → ShashOp V
  | size : ShashOp V
  | beginIterate : ShashOp V
  | iterate : ShashOp V
  | endIterate : ShashOp V

inductive ShashRet (V : Type) where
  | void : ShashRet V
  | code : Int → ShashRet V
  | found : V → ShashRet V
  | item : Key → V → ShashRet V
  | number : Nat → ShashRet V
  deriving DecidableEq, Repr

def shashStep [Inhabited V] (s : Shash V) : ShashOp V → Option (Shash V × ShashRet V)
  | .insert key value => (shashInsert s key value).map fun x => (x.1, .code x.2)
  | .erase key => (shashErase s key).map fun x => (x.1, .code x.2)
  | .find key => (shashFind s key).map fun x => (x.1, x.2.elim (.code (-1)) .found)
  | .size => some (s, .number (shashSize s))
  | .beginIterate => some (shashBeginIterate s, .void)
  | .iterate =>
    let x := shashIterate s
    some (x.1, x.2.elim (.code (-1)) fun kv => .item kv.1 kv.2)
  | .endIterate => some (shashEndIterate s, .void)

/-- A finite map under these calls; it says nothing about iteration. -/
def mapStep (m : KeyMap V) : ShashOp V → KeyMap V × Option (ShashRet V)
  | .insert key value =>
    if key ∈ m then (m, some (.code (-1))) else (m.insert key value, some (.code 0))
  | .erase key => if key ∈ m then (m.erase key, some (.code 0)) else (m, some (.code (-1)))
  | .find key => (m, some ((m.lookup key).elim (.code (-1)) .found))
  | .size => (m, some (.number m.keys.card))
  | .beginIterate => (m, none)
  | .iterate => (m, none)
  | .endIterate => (m, none)

/-- Keys whose length fits the int of the comparison. -/
def ShashOp.Short : ShashOp V → Prop
  | .insert key _ => key.length < 2^31
  | .erase key => key.length < 2^31
  | .find key => key.length < 2^31
  | _ => True

section Calls
variable {key : Key}

theorem Shash.Rep.insert (h : s.Rep chain m) (hk : key.length < 2^31) (value : V) :
    ∃ s1 chain1, shashCheckRehash s = some s1 ∧ s1.Rep chain1 m ∧
      (s.iterator ≠ none → s1 = s ∧ chain1 = chain) ∧
      shashInsert s key value = some (if key ∈ m then (s1, -1)
        else (s1.added key value (s1.place chain1 key), 0)) := by
  obtain ⟨s1, chain1, hrun, h1, hopen⟩ := h.checkRehash
  refine ⟨s1, chain1, hrun, h1, hopen, ?_⟩
  simp only [shashInsert, hrun, Option.bind_eq_bind, Option.bind_some, (h1.search hk).2]
  by_cases hmem : key ∈ m
  · simp [hmem]
  · simp only [hmem, if_false]
    rfl

theorem Shash.Rep.find (h : s.Rep chain m) (hk : key.length < 2^31) :
    ∃ s1 chain1, shashCheckRehash s = some s1 ∧ s1.Rep chain1 m ∧
      (s.iterator ≠ none → s1 = s ∧ chain1 = chain) ∧
      shashFind s key = some (s1, m.lookup key) := by
  obtain ⟨s1, chain1, hrun, h1, hopen⟩ := h.checkRehash
  refine ⟨s1, chain1, hrun, h1, hopen, ?_⟩
  have hnode := h1.find_node key
  simp only [shashFind, hrun, Option.bind_eq_bind, Option.bind_some, (h1.search hk).1]
  split at hnode
  · next p hp => simp [hp, hnode.2.2]
  · next hp => simp [hp, hnode]

variable [Inhabited V]

theorem Shash.Rep.erase (h : s.Rep chain m) (hk : key.length < 2^31) :
    ∃ s1 chain1, shashCheckRehash s = some s1 ∧ s1.Rep chain1 m ∧
      (s.iterator ≠ none → s1 = s ∧ chain1 = chain) ∧
      (key ∉ m → shashErase s key = some (s1, -1)) ∧
      (key ∈ m → ∃ t b l r p, chain1 (.bucket t b) = l ++ p :: r ∧ s1.key p = key ∧
        shashErase s key = some ((if s1.iterator = some p then shashAdvance s1 p else s1).unlink p
          (last (.bucket t b) l), 0)) := by
  obtain ⟨s1, chain1, hrun, h1, hopen⟩ := h.checkRehash
  refine ⟨s1, chain1, hrun, h1, hopen, ?_, ?_⟩ <;> intro hmem
  all_goals
    have hnode := h1.find_node key
    obtain ⟨t, b, hb⟩ := s1.bucketFor_bucket key
    simp only [shashErase, hrun, Option.bind_eq_bind, Option.bind_some, (h1.search hk).1]
    split at hnode
  · next p hp =>
    exact absurd (Finmap.mem_of_lookup_eq_some hnode.2.2) hmem
  · next hp => simp [hp]
  · next p hp =>
    obtain ⟨hpc, hpk, -⟩ := hnode
    rw [hb] at hpc
    obtain ⟨l, r, hlr⟩ := List.append_of_mem hpc
    have hprev : s1.prev p = some (last (.bucket t b) l) := by
      have hback := h1.chains.prev t b
      rw [hlr] at hback
      exact back_mid hback
    refine ⟨t, b, l, r, p, hlr, hpk, ?_⟩
    obtain ⟨j, c, it, hframe⟩ := shashAdvance_frame (s := s1) p
    by_cases hit : s1.iterator = some p
    · simp [hp, hit, shashIterate, hframe, hprev]
    · simp [hp, hit, hprev]
  · next hp =>
    rw [← Finmap.lookup_isSome, hnode] at hmem
    simp at hmem

end Calls

/-- The table represents the map, with some arrangement of its nodes in chains. -/
def Shash.Refines (s : Shash V) (m : KeyMap V) : Prop := ∃ chain, s.Rep chain m

variable [Inhabited V]

theorem shashNew_rep : (shashNew : Shash V).Rep (fun _ => []) ∅ := by
  refine ⟨⟨show 9 ≤ 63 by decide, Nat.one_pos, by rintro t ⟨⟩, fun h => absurd rfl h⟩,
    ?_, ?_, ?_, ?_⟩
  · exact ⟨fun _ _ _ => rfl, fun _ _ => trivial, by simp, by simp, by simp,
      fun _ _ => List.Pairwise.nil⟩
  · simp
  · rfl
  · rintro p ⟨⟩

/-- Every call returns what the map returns, and the table represents the map after it. -/
theorem shashStep_refines {s : Shash V} {m : KeyMap V} (op : ShashOp V) (h : s.Refines m)
    (hk : op.Short) : ∃ s' r, shashStep s op = some (s', r) ∧ s'.Refines (mapStep m op).1 ∧
      ∀ r' ∈ (mapStep m op).2, r = r' := by
  obtain ⟨chain, h⟩ := h
  cases op with
  | insert key value =>
    obtain ⟨s1, chain1, -, h1, -, hins⟩ := h.insert hk value
    by_cases hmem : key ∈ m
    · refine ⟨s1, .code (-1), by simp [shashStep, hins, hmem], ⟨chain1, ?_⟩, ?_⟩
      · simpa [mapStep, hmem] using h1
      · simp [mapStep, hmem]
    · refine ⟨s1.added key value (s1.place chain1 key), .code 0,
        by simp [shashStep, hins, hmem], ⟨s1.addedChain chain1 key, ?_⟩, ?_⟩
      · simpa [mapStep, hmem] using h1.add hk hmem value
      · simp [mapStep, hmem]
  | erase key =>
    obtain ⟨s1, chain1, -, h1, -, habs, hpres⟩ := h.erase hk
    by_cases hmem : key ∈ m
    · obtain ⟨t, b, l, r, p, hch, hpk, herase⟩ := hpres hmem
      refine ⟨_, .code 0, by simp [shashStep, herase]; rfl,
        ⟨Function.update chain1 (.bucket t b) (l ++ r), ?_⟩, by simp [mapStep, hmem]⟩
      rw [mapStep, if_pos hmem, ← hpk]
      by_cases hit : s1.iterator = some p
      · obtain ⟨h2, hne⟩ := h1.advanced hit
        obtain ⟨j, c, it, hframe⟩ := shashAdvance_frame (s := s1) p
        have hrem := h2.remove hch hne
        rw [if_pos hit]
        rw [hframe] at hrem ⊢
        exact hrem
      · rw [if_neg hit]
        exact h1.remove hch hit
    · exact ⟨s1, .code (-1), by simp [shashStep, habs hmem], ⟨chain1, by simpa [mapStep, hmem]⟩,
        by simp [mapStep, hmem]⟩
  | find key =>
    obtain ⟨s1, chain1, -, h1, -, hfind⟩ := h.find hk
    refine ⟨s1, (m.lookup key).elim (.code (-1)) .found, by simp [shashStep, hfind],
      ⟨chain1, h1⟩, by simp [mapStep]⟩
  | size => exact ⟨s, .number s.numNode, rfl, ⟨chain, h⟩, by simp [mapStep, h.size]⟩
  | beginIterate =>
    refine ⟨_, .void, rfl, ⟨chain, ?_⟩, by simp [mapStep]⟩
    obtain ⟨j, b, it, hframe⟩ := shashBegin_frame (s := s) 2 0
    have hbegin := h.begin
    rw [shashBeginIterate, hframe] at hbegin ⊢
    exact h.with_iterator hbegin
  | iterate =>
    refine ⟨_, _, rfl, ⟨chain, ?_⟩, by simp [mapStep]⟩
    cases hit : s.iterator with
    | none => simpa [shashIterate, hit, mapStep] using h
    | some p => simpa [shashIterate, hit, mapStep] using (h.advanced hit).1
  | endIterate =>
    exact ⟨_, .void, rfl,
      ⟨chain, h.with_iterator (show Shash.Remaining _ chain [] from rfl)⟩, by simp [mapStep]⟩

theorem Shash.Refines.runs {s : Shash V} {m : KeyMap V} (h : s.Refines m) {ops : List (ShashOp V)}
    (hk : ∀ op ∈ ops, op.Short) : ∃ s' rets, run shashStep s ops = some (s', rets) ∧
      List.Forall₂ (fun r o => ∀ r' ∈ o, r = r') rets (specRun mapStep m ops).2 ∧
      s'.Refines (specRun mapStep m ops).1 := by
  obtain ⟨s', rets, hrun, hrel, hrets⟩ := run_simulates Shash.Refines
    (fun r o => ∀ r' ∈ o, r = r') (fun s m op h hok => shashStep_refines op h hok) h
    (Along.of_forall hk)
  exact ⟨s', rets, hrun, hrets, hrel⟩

/-- Any sequence of calls from a new table returns what a plain finite map returns. -/
theorem shash_refines_map {ops : List (ShashOp V)} (hk : ∀ op ∈ ops, op.Short) :
    ∃ s rets, run shashStep shashNew ops = some (s, rets) ∧
      List.Forall₂ (fun r o => ∀ r' ∈ o, r = r') rets (specRun mapStep (∅ : KeyMap V) ops).2 ∧
      s.Refines (specRun mapStep (∅ : KeyMap V) ops).1 :=
  Shash.Refines.runs ⟨_, shashNew_rep⟩ hk

/-- The last of these insertions starts a rehash, the two keys after them share a bucket, and the
iterator is open when one of them is erased. -/
def sampleCalls : List (ShashOp Nat) :=
  ((List.range 513).map fun i => .insert ⟨[UInt8.ofNat (i / 256), UInt8.ofNat i]⟩ i) ++
    [.insert ⟨[2, 33]⟩ 5, .insert ⟨[3, 0]⟩ 6, .insert ⟨[2, 33]⟩ 7, .find ⟨[3, 0]⟩, .beginIterate,
      .iterate, .erase ⟨[2, 33]⟩, .find ⟨[2, 33]⟩, .iterate, .endIterate, .find ⟨[3, 0]⟩, .size]

theorem sampleCalls_short : ∀ op ∈ sampleCalls, op.Short := by
  refine List.forall_mem_append.mpr ⟨?_, by simp [ShashOp.Short, Key.length]⟩
  intro op hop
  obtain ⟨i, -, rfl⟩ := List.mem_map.mp hop
  simp [ShashOp.Short, Key.length]

theorem shash_refines_map_sample : ∃ s rets, run shashStep shashNew sampleCalls = some (s, rets) ∧
    List.Forall₂ (fun r o => ∀ r' ∈ o, r = r') rets
      (specRun mapStep (∅ : KeyMap Nat) sampleCalls).2 ∧
    s.Refines (specRun mapStep (∅ : KeyMap Nat) sampleCalls).1 :=
  shash_refines_map sampleCalls_short

end SimpleKit
