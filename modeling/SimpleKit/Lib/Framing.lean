import Mathlib.Data.List.Defs

/-!
Items cut out of a stream that arrives in pieces. `next` looks at the input that is left;
a scan handles items until it has to wait, and what it then leaves starts the next scan.
-/
set_option autoImplicit false

namespace Framing
variable {α β σ : Type}

/-- What the input begins with: too little to tell, nothing valid, or an item, with the
distance to what comes after it. -/
inductive Next (β : Type) where
  | wait : Next β
  | bad : Next β
  | item : β → Nat → Next β

/-- Where a scan ends: it waits and leaves some input, it fails, or it is not over. -/
inductive Outcome (γ : Type) where
  | wait : γ → Outcome γ
  | bad : Outcome γ
  | more : Outcome γ
  deriving DecidableEq, Repr

def Outcome.map {γ δ : Type} (f : γ → δ) : Outcome γ → Outcome δ
  | .wait l => .wait (f l)
  | .bad => .bad
  | .more => .more

/-- At most `fuel` items are handled; the rest of the fuel is returned. -/
def scan (next : List α → Next β) (handle : σ → β → Option σ) :
    Nat → σ → List α → Option (σ × Nat × Outcome (List α))
  | fuel, s, l =>
    match next l with
    | .wait => some (s, fuel, .wait l)
    | .bad => some (s, fuel, .bad)
    | .item b n =>
      match fuel with
      | 0 => some (s, 0, .more)
      | fuel+1 => (handle s b).bind fun s => scan next handle fuel s (l.drop n)

def feed (next : List α → Next β) (handle : σ → β → Option σ) :
    Nat → σ → List α → List (List α) → Option (σ × Nat × Outcome (List α))
  | fuel, s, l, [] => some (s, fuel, .wait l)
  | fuel, s, l, c :: cs =>
    (scan next handle fuel s (l ++ c)).bind fun x =>
      match x.2.2 with
      | .wait l => feed next handle x.2.1 x.1 l cs
      | _ => some x

/-- More input does not change what the input begins with. -/
structure Stable (next : List α → Next β) : Prop where
  bad : ∀ l m, next l = .bad → next (l ++ m) = .bad
  item : ∀ l m b n, next l = .item b n → next (l ++ m) = .item b n
  within : ∀ l b n, next l = .item b n → n ≤ l.length

variable {next : List α → Next β} {handle : σ → β → Option σ}

theorem scan_wait {l : List α} (h : next l = .wait) (fuel : Nat) (s : σ) :
    scan next handle fuel s l = some (s, fuel, .wait l) := by
  unfold scan
  rw [h]

theorem scan_bad {l : List α} (h : next l = .bad) (fuel : Nat) (s : σ) :
    scan next handle fuel s l = some (s, fuel, .bad) := by
  unfold scan
  rw [h]

theorem scan_zero {l : List α} {b : β} {n : Nat} (h : next l = .item b n) (s : σ) :
    scan next handle 0 s l = some (s, 0, .more) := by
  unfold scan
  rw [h]

theorem scan_item {l : List α} {b : β} {n : Nat} (h : next l = .item b n) (fuel : Nat) (s : σ) :
    scan next handle (fuel+1) s l =
      (handle s b).bind fun s => scan next handle fuel s (l.drop n) := by
  rw [scan]
  rw [h]

theorem Stable.waits (hn : Stable next) {l m : List α} (h : next (l ++ m) = .wait) :
    next l = .wait := by
  cases hl : next l with
  | wait => rfl
  | bad => rw [hn.bad l m hl] at h; cases h
  | item b n => rw [hn.item l m b n hl] at h; cases h

/-- A scan goes on where the scan of a prefix has stopped. -/
theorem scan_append (hn : Stable next) (fuel : Nat) (s : σ) (l m : List α) :
    scan next handle fuel s (l ++ m) =
      (scan next handle fuel s l).bind fun x =>
        match x.2.2 with
        | .wait l => scan next handle x.2.1 x.1 (l ++ m)
        | _ => some x := by
  induction fuel generalizing s l with
  | zero =>
    cases h : next l with
    | wait => rw [scan_wait h, Option.bind_some]
    | bad => rw [scan_bad h, scan_bad (hn.bad l m h), Option.bind_some]
    | item b n => rw [scan_zero h, scan_zero (hn.item l m b n h), Option.bind_some]
  | succ fuel ih =>
    cases h : next l with
    | wait => rw [scan_wait h, Option.bind_some]
    | bad => rw [scan_bad h, scan_bad (hn.bad l m h), Option.bind_some]
    | item b n =>
      rw [scan_item h, scan_item (hn.item l m b n h),
        List.drop_append_of_le_length (hn.within l b n h)]
      cases handle s b with
      | none => rfl
      | some s' => exact ih s' (l.drop n)

theorem scan_rest {fuel left : Nat} {s s' : σ} {l r : List α}
    (h : scan next handle fuel s l = some (s', left, .wait r)) : next r = .wait ∧ r <:+ l := by
  induction fuel generalizing s l with
  | zero =>
    cases hl : next l with
    | wait =>
      rw [scan_wait hl] at h
      cases h
      exact ⟨hl, List.suffix_refl _⟩
    | bad =>
      rw [scan_bad hl] at h
      cases h
    | item b n =>
      rw [scan_zero hl] at h
      cases h
  | succ fuel ih =>
    cases hl : next l with
    | wait =>
      rw [scan_wait hl] at h
      cases h
      exact ⟨hl, List.suffix_refl _⟩
    | bad =>
      rw [scan_bad hl] at h
      cases h
    | item b n =>
      rw [scan_item hl] at h
      obtain ⟨s1, -, hscan⟩ := Option.bind_eq_some_iff.mp h
      obtain ⟨hr, hsuffix⟩ := ih hscan
      exact ⟨hr, hsuffix.trans (List.drop_suffix n l)⟩

theorem scan_keeps (inv : σ → Prop) (hstep : ∀ s b s', inv s → handle s b = some s' → inv s')
    {fuel : Nat} {s : σ} {l : List α} {x : σ × Nat × Outcome (List α)} (hs : inv s)
    (h : scan next handle fuel s l = some x) : inv x.1 := by
  induction fuel generalizing s l with
  | zero =>
    cases hl : next l with
    | wait => rw [scan_wait hl] at h; cases h; exact hs
    | bad => rw [scan_bad hl] at h; cases h; exact hs
    | item b n => rw [scan_zero hl] at h; cases h; exact hs
  | succ fuel ih =>
    cases hl : next l with
    | wait => rw [scan_wait hl] at h; cases h; exact hs
    | bad => rw [scan_bad hl] at h; cases h; exact hs
    | item b n =>
      rw [scan_item hl] at h
      obtain ⟨s1, hhandle, h⟩ := Option.bind_eq_some_iff.mp h
      exact ih (hstep s b s1 hs hhandle) h

theorem scan_keeps_left (inv : σ → List α → Prop)
    (hstep : ∀ s l b n s', inv s l → next l = .item b n → handle s b = some s' →
      inv s' (l.drop n)) {fuel : Nat} {s : σ} {l : List α} {x : σ × Nat × Outcome (List α)}
    (hs : inv s l) (h : scan next handle fuel s l = some x) :
    ∃ r, inv x.1 r ∧ ∀ r', x.2.2 = .wait r' → r' = r := by
  induction fuel generalizing s l with
  | zero =>
    cases hl : next l with
    | wait => rw [scan_wait hl] at h; cases h; exact ⟨l, hs, fun r' he => by cases he; rfl⟩
    | bad => rw [scan_bad hl] at h; cases h; exact ⟨l, hs, fun r' he => by cases he⟩
    | item b n => rw [scan_zero hl] at h; cases h; exact ⟨l, hs, fun r' he => by cases he⟩
  | succ fuel ih =>
    cases hl : next l with
    | wait => rw [scan_wait hl] at h; cases h; exact ⟨l, hs, fun r' he => by cases he; rfl⟩
    | bad => rw [scan_bad hl] at h; cases h; exact ⟨l, hs, fun r' he => by cases he⟩
    | item b n =>
      rw [scan_item hl] at h
      obtain ⟨s1, hhandle, h⟩ := Option.bind_eq_some_iff.mp h
      exact ih (hstep s l b n s1 hs hl hhandle) h

def ScanAlong (next : List α → Next β) (handle : σ → β → Option σ) (cond : σ → β → Prop) :
    Nat → σ → List α → Prop
  | fuel, s, l =>
    match next l with
    | .wait => True
    | .bad => True
    | .item b n =>
      match fuel with
      | 0 => True
      | fuel+1 => cond s b ∧ ∀ s', handle s b = some s' →
        ScanAlong next handle cond fuel s' (l.drop n)

section ScanAlong
variable {cond : σ → β → Prop}

theorem scanAlong_of_no_item {l : List α} (h : ∀ b n, next l ≠ .item b n) (fuel : Nat) (s : σ) :
    ScanAlong next handle cond fuel s l := by
  unfold ScanAlong
  cases hl : next l with
  | wait => trivial
  | bad => trivial
  | item b n => exact absurd hl (h b n)

theorem scanAlong_zero (s : σ) (l : List α) : ScanAlong next handle cond 0 s l := by
  unfold ScanAlong
  cases next l <;> trivial

theorem scanAlong_item {l : List α} {b : β} {n : Nat} (h : next l = .item b n) (fuel : Nat)
    (s : σ) :
    ScanAlong next handle cond (fuel+1) s l ↔
      cond s b ∧ ∀ s', handle s b = some s' → ScanAlong next handle cond fuel s' (l.drop n) := by
  rw [ScanAlong]
  rw [h]

theorem ScanAlong.of_all (h : ∀ s b, cond s b) (fuel : Nat) (s : σ) (l : List α) :
    ScanAlong next handle cond fuel s l := by
  induction fuel generalizing s l with
  | zero => exact scanAlong_zero s l
  | succ fuel ih =>
    cases hl : next l with
    | wait => exact scanAlong_of_no_item (by simp [hl]) _ s
    | bad => exact scanAlong_of_no_item (by simp [hl]) _ s
    | item b n => exact (scanAlong_item hl fuel s).mpr ⟨h s b, fun s' _ => ih s' _⟩

/-- What holds of the state and of the input that is left is kept by handling the items that
meet `cond`, and handling another one is stuck: then a scan is stuck or all its items meet
`cond`, and it ends with what holds. -/
theorem scan_along (inv : σ → List α → Prop) (ok cond : σ → β → Prop)
    (hstep : ∀ s l b n, inv s l → next l = .item b n → ok s b →
      handle s b = none ∧ ¬ cond s b ∨ cond s b ∧ ∃ s', handle s b = some s' ∧ inv s' (l.drop n))
    (fuel : Nat) {s : σ} {l : List α} (h : inv s l) (hok : ScanAlong next handle ok fuel s l) :
    scan next handle fuel s l = none ∧ ¬ ScanAlong next handle cond fuel s l ∨
      ScanAlong next handle cond fuel s l ∧ ∃ s' left o,
        scan next handle fuel s l = some (s', left, o) ∧ (∃ r, inv s' r) ∧
          ∀ r, o = .wait r → inv s' r := by
  induction fuel generalizing s l with
  | zero =>
    refine Or.inr ⟨scanAlong_zero s l, ?_⟩
    cases hl : next l with
    | wait => exact ⟨s, 0, _, scan_wait hl 0 s, ⟨l, h⟩, by rintro _ ⟨⟩; exact h⟩
    | bad => exact ⟨s, 0, _, scan_bad hl 0 s, ⟨l, h⟩, nofun⟩
    | item b n => exact ⟨s, 0, _, scan_zero hl s, ⟨l, h⟩, nofun⟩
  | succ fuel ih =>
    cases hl : next l with
    | wait =>
      exact Or.inr ⟨scanAlong_of_no_item (by simp [hl]) _ s, s, fuel+1, _,
        scan_wait hl (fuel+1) s, ⟨l, h⟩, by rintro _ ⟨⟩; exact h⟩
    | bad =>
      exact Or.inr ⟨scanAlong_of_no_item (by simp [hl]) _ s, s, fuel+1, _,
        scan_bad hl (fuel+1) s, ⟨l, h⟩, nofun⟩
    | item b n =>
      rw [scanAlong_item hl] at hok
      rw [scan_item hl, scanAlong_item hl]
      rcases hstep s l b n h hl hok.1 with ⟨hnone, hbad⟩ | ⟨hcond, s1, hs1, h1⟩
      · exact Or.inl ⟨by rw [hnone]; rfl, fun hc => hbad hc.1⟩
      · rw [hs1, Option.bind_some]
        rcases ih h1 (hok.2 s1 hs1) with ⟨hnone, hbad⟩ | ⟨hall, hend⟩
        · exact Or.inl ⟨hnone, fun hc => hbad (hc.2 s1 rfl)⟩
        · exact Or.inr ⟨⟨hcond, fun s' hs' => Option.some.inj hs' ▸ hall⟩, hend⟩

end ScanAlong

/-- However a stream is cut, the items handled and the end are those of the whole stream. -/
theorem feed_eq_scan (hn : Stable next) (fuel : Nat) (s : σ) {l : List α} (hl : next l = .wait)
    (cs : List (List α)) :
    feed next handle fuel s l cs = scan next handle fuel s (l ++ cs.flatten) := by
  induction cs generalizing fuel s l with
  | nil => rw [List.flatten_nil, List.append_nil, scan_wait hl, feed]
  | cons c cs ih =>
    rw [List.flatten_cons, ← List.append_assoc, scan_append hn, feed]
    cases hscan : scan next handle fuel s (l ++ c) with
    | none => rfl
    | some x =>
      obtain ⟨s', left, o⟩ := x
      cases o with
      | wait r => exact ih left s' (scan_rest hscan).1
      | bad => rfl
      | more => rfl

def Encodes (next : List α → Next β) (encode : β → List α) (bs : List β) : Prop :=
  ∀ b ∈ bs, ∀ l, next (encode b ++ l) = .item b (encode b).length

theorem scan_encoded {encode : β → List α} {bs : List β} (he : Encodes next encode bs)
    (l : List α) (fuel : Nat) (s : σ) :
    scan next handle (fuel + bs.length) s ((bs.map encode).flatten ++ l) =
      (bs.foldlM handle s).bind fun s => scan next handle fuel s l := by
  induction bs generalizing s with
  | nil => rfl
  | cons b bs ih =>
    have he' : Encodes next encode bs := fun b' hb' => he b' (List.mem_cons_of_mem b hb')
    rw [List.map_cons, List.flatten_cons, List.append_assoc, List.length_cons, ← Nat.add_assoc,
      scan_item (he b List.mem_cons_self _), List.drop_left, List.foldlM_cons]
    cases handle s b with
    | none => rfl
    | some s' => exact ih he' s'

/-- `part` is what has arrived of the first of the items `rest`. -/
def Partial (encode : β → List α) (rest : List β) (part : List α) : Prop :=
  part = [] ∨ ∃ b rest', rest = b :: rest' ∧ part <+: encode b ∧ part ≠ encode b

theorem split_encoded (encode : β → List α) (bs : List β) (l later : List α)
    (h : l ++ later = (bs.map encode).flatten) :
    ∃ done rest part, bs = done ++ rest ∧ l = (done.map encode).flatten ++ part ∧
      Partial encode rest part := by
  induction bs generalizing l with
  | nil =>
    obtain ⟨rfl, -⟩ := List.append_eq_nil_iff.mp h
    exact ⟨[], [], [], rfl, rfl, Or.inl rfl⟩
  | cons b bs ih =>
    rw [List.map_cons, List.flatten_cons, List.append_eq_append_iff] at h
    rcases h with ⟨m, hb, -⟩ | ⟨m, rfl, hm⟩
    · by_cases he : l = encode b
      · exact ⟨[b], bs, [], rfl, by simp [he], Or.inl rfl⟩
      · exact ⟨[], b :: bs, l, rfl, rfl, Or.inr ⟨b, bs, rfl, ⟨m, hb.symm⟩, he⟩⟩
    · obtain ⟨done, rest, part, rfl, rfl, hpart⟩ := ih m hm.symm
      exact ⟨b :: done, rest, part, rfl, by simp, hpart⟩

theorem Partial.wait (hn : Stable next) (hnil : next [] = .wait) {encode : β → List α}
    {rest : List β} (he : Encodes next encode rest) {part : List α}
    (h : Partial encode rest part) : next part = .wait := by
  rcases h with rfl | ⟨b, rest, rfl, ⟨m, hm⟩, hne⟩
  · exact hnil
  · have hb := he b List.mem_cons_self []
    rw [List.append_nil, ← hm] at hb
    cases hp : next part with
    | wait => rfl
    | bad =>
      rw [hn.bad part m hp] at hb
      cases hb
    | item b' n =>
      have hlen := hn.within part b' n hp
      rw [hn.item part m b' n hp] at hb
      cases hb
      rw [List.length_append] at hlen
      obtain rfl := List.length_eq_zero_iff.mp (by omega : m.length = 0)
      exact absurd (by rw [← hm, List.append_nil]) hne

/-- However the encodings are cut, exactly the items that have arrived are handled. -/
theorem feed_encoded (handle : σ → β → Option σ) (hn : Stable next) (hnil : next [] = .wait)
    {encode : β → List α}
    {bs : List β} (he : Encodes next encode bs) (cs : List (List α)) (later : List α)
    (h : cs.flatten ++ later = (bs.map encode).flatten) :
    ∃ done rest part, bs = done ++ rest ∧ cs.flatten = (done.map encode).flatten ++ part ∧
      Partial encode rest part ∧ ∀ fuel (s : σ),
        feed next handle (fuel + done.length) s [] cs =
          (done.foldlM handle s).map fun s' => (s', fuel, .wait part) := by
  obtain ⟨done, rest, part, rfl, hcs, hpart⟩ := split_encoded encode bs _ _ h
  refine ⟨done, rest, part, rfl, hcs, hpart, fun fuel s => ?_⟩
  have hwait := hpart.wait hn hnil fun b hb => he b (List.mem_append_right done hb)
  rw [feed_eq_scan hn _ _ hnil, List.nil_append, hcs,
    scan_encoded (fun b hb => he b (List.mem_append_left rest hb))]
  simp only [scan_wait hwait]
  cases done.foldlM handle s <;> rfl

end Framing
