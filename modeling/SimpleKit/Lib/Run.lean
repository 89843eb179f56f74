import Mathlib.Data.List.Defs

/-!
Whole runs of a step function that can get stuck, and the two inductions over them:
an invariant, and a simulation of a total specification that also predicts results.
-/
set_option autoImplicit false

namespace Runs
variable {σ τ ε ρ ω : Type}

/-- The results of the calls `es`, in order, or `none` as soon as one of them is stuck. -/
def run (step : σ → ε → Option (σ × ρ)) : σ → List ε → Option (σ × List ρ)
  | s, [] => some (s, [])
  | s, e :: es =>
    match step s e with
    | none => none
    | some (s', r) => (run step s' es).map fun x => (x.1, r :: x.2)

def specRun (spec : τ → ε → τ × ω) : τ → List ε → τ × List ω
  | t, [] => (t, [])
  | t, e :: es =>
    let x := specRun spec (spec t e).1 es
    (x.1, (spec t e).2 :: x.2)

variable {step : σ → ε → Option (σ × ρ)} {spec : τ → ε → τ × ω}

theorem run_cons {s s' : σ} {e : ε} {es : List ε} {r : ρ} (h : step s e = some (s', r)) :
    run step s (e :: es) = (run step s' es).map fun x => (x.1, r :: x.2) := by
  simp [run, h]

theorem run_cons_some {s s' : σ} {e : ε} {es : List ε} {rs : List ρ}
    (h : run step s (e :: es) = some (s', rs)) :
    ∃ s1 r rs1, step s e = some (s1, r) ∧ run step s1 es = some (s', rs1) ∧ rs = r :: rs1 := by
  cases he : step s e with
  | none => simp [run, he] at h
  | some x =>
    rw [run_cons he] at h
    obtain ⟨y, hy, heq⟩ := Option.map_eq_some_iff.mp h
    obtain ⟨rfl, rfl⟩ := Prod.mk.inj heq
    exact ⟨x.1, x.2, y.2, rfl, hy, rfl⟩

theorem run_length {s s' : σ} {es : List ε} {rs : List ρ} (h : run step s es = some (s', rs)) :
    rs.length = es.length := by
  induction es generalizing s rs with
  | nil =>
    obtain ⟨-, rfl⟩ := Prod.mk.inj (Option.some.inj h)
    rfl
  | cons e es ih =>
    obtain ⟨s1, r, rs1, he, hy, rfl⟩ := run_cons_some h
    rw [List.length_cons, List.length_cons, ih hy]

theorem run_append {s s' : σ} {es es' : List ε} {rs : List ρ} (h : run step s es = some (s', rs)) :
    run step s (es ++ es') = (run step s' es').map fun x => (x.1, rs ++ x.2) := by
  induction es generalizing s rs with
  | nil =>
    simp only [run, Option.some.injEq, Prod.mk.injEq] at h
    obtain ⟨rfl, rfl⟩ := h
    simp
  | cons e es ih =>
    obtain ⟨s1, r, rs1, he, hy, rfl⟩ := run_cons_some h
    rw [List.cons_append, run_cons he, ih hy, Option.map_map]
    rfl

theorem specRun_append (t : τ) (es es' : List ε) :
    (specRun spec t (es ++ es')).1 = (specRun spec (specRun spec t es).1 es').1 := by
  induction es generalizing t with
  | nil => rfl
  | cons e es ih => exact ih (spec t e).1

def Along (step : σ → ε → Option (σ × ρ)) (cond : σ → ε → Prop) : σ → List ε → Prop
  | _, [] => True
  | s, e :: es => cond s e ∧ ∀ s' r, step s e = some (s', r) → Along step cond s' es

theorem Along.and {cond : σ → ε → Prop} {ok : ε → Prop} {s : σ} {es : List ε}
    (h : Along step cond s es) (hes : ∀ e ∈ es, ok e) :
    Along step (fun s e => ok e ∧ cond s e) s es := by
  induction es generalizing s with
  | nil => trivial
  | cons e es ih =>
    refine ⟨⟨hes e (by simp), h.1⟩, fun s' r hs => ?_⟩
    exact ih (h.2 s' r hs) (fun e' he' => hes e' (by simp [he']))

theorem Along.inter {cond cond' : σ → ε → Prop} {s : σ} {es : List ε}
    (h : Along step cond s es) (h' : Along step cond' s es) :
    Along step (fun s e => cond s e ∧ cond' s e) s es := by
  induction es generalizing s with
  | nil => trivial
  | cons e es ih => exact ⟨⟨h.1, h'.1⟩, fun s' r hs => ih (h.2 s' r hs) (h'.2 s' r hs)⟩

theorem Along.mono {cond cond' : σ → ε → Prop} (himp : ∀ s e, cond s e → cond' s e) {s : σ}
    {es : List ε} (h : Along step cond s es) : Along step cond' s es := by
  induction es generalizing s with
  | nil => trivial
  | cons e es ih => exact ⟨himp s e h.1, fun s' r hs => ih (h.2 s' r hs)⟩

theorem Along.of_all {cond : σ → ε → Prop} {s : σ} {es : List ε}
    (hes : ∀ s, ∀ e ∈ es, cond s e) : Along step cond s es := by
  induction es generalizing s with
  | nil => trivial
  | cons e es ih =>
    exact ⟨hes s e (by simp), fun _ _ _ => ih fun s' e' he' => hes s' e' (by simp [he'])⟩

theorem Along.of_run {cond : σ → ε → Prop} {s : σ} {es : List ε}
    (h : ∀ pre e s' rs, pre ++ [e] <+: es → run step s pre = some (s', rs) → cond s' e) :
    Along step cond s es := by
  induction es generalizing s with
  | nil => trivial
  | cons e es ih =>
    refine ⟨h [] e s [] (List.prefix_append [e] es) rfl, fun s1 r hs => ?_⟩
    refine ih fun pre e' s' rs hpre hrun => ?_
    refine h (e :: pre) e' s' (r :: rs) ((List.prefix_cons_inj e).mpr hpre) ?_
    rw [run_cons hs, hrun]
    rfl

theorem Along.of_forall {ok : ε → Prop} {s : σ} {es : List ε} (hes : ∀ e ∈ es, ok e) :
    Along step (fun _ e => ok e) s es := Along.of_all fun _ => hes

theorem Along.of_inv {inv : σ → Prop} (hstep : ∀ s e s' r, inv s → step s e = some (s', r) → inv s')
    {s : σ} (hs : inv s) (es : List ε) : Along step (fun s _ => inv s) s es := by
  induction es generalizing s with
  | nil => trivial
  | cons e es ih => exact ⟨hs, fun s' r h => ih (hstep s e s' r hs h)⟩

theorem Along.cons_none {cond : σ → ε → Prop} {s : σ} {e : ε} {es : List ε}
    (h : step s e = none) : Along step cond s (e :: es) ↔ cond s e := by
  simp [Along, h]

theorem Along.cons_some {cond : σ → ε → Prop} {s s' : σ} {e : ε} {es : List ε} {r : ρ}
    (h : step s e = some (s', r)) :
    Along step cond s (e :: es) ↔ cond s e ∧ Along step cond s' es := by
  rw [Along, h]
  refine and_congr_right fun _ => ⟨fun ha => ha s' r rfl, fun ha s1 r1 he => ?_⟩
  obtain ⟨rfl, -⟩ := Prod.mk.inj (Option.some.inj he)
  exact ha

theorem Along.left {cond : σ → ε → Prop} {s : σ} {es es' : List ε}
    (h : Along step cond s (es ++ es')) : Along step cond s es := by
  induction es generalizing s with
  | nil => trivial
  | cons e es ih => exact ⟨h.1, fun s' r hs => ih (h.2 s' r hs)⟩

theorem Along.append {cond : σ → ε → Prop} {s s' : σ} {es es' : List ε} {rs : List ρ}
    (h : Along step cond s es) (hrun : run step s es = some (s', rs))
    (h' : Along step cond s' es') : Along step cond s (es ++ es') := by
  induction es generalizing s rs with
  | nil =>
    obtain ⟨rfl, -⟩ := Prod.mk.inj (Option.some.inj hrun)
    exact h'
  | cons e es ih =>
    obtain ⟨s1, r, rs1, he, hy, rfl⟩ := run_cons_some hrun
    rw [List.cons_append, Along.cons_some he]
    exact ⟨h.1, ih (h.2 s1 r he) hy⟩

theorem Along.of_append {cond : σ → ε → Prop} {s s' : σ} {es es' : List ε} {rs : List ρ}
    (h : Along step cond s (es ++ es')) (hrun : run step s es = some (s', rs)) :
    Along step cond s' es' := by
  induction es generalizing s rs with
  | nil =>
    obtain ⟨rfl, -⟩ := Prod.mk.inj (Option.some.inj hrun)
    exact h
  | cons e es ih =>
    obtain ⟨s1, r, rs1, he, hy, rfl⟩ := run_cons_some hrun
    exact ih (h.2 _ _ he) hy

/-- Two conditions that agree wherever a run that meets the first one comes. -/
theorem Along.congr_of (inv : σ → Prop) (ok cond : σ → ε → Prop) {cond' : σ → ε → Prop}
    (hstep : ∀ s e, inv s → ok s e → (cond s e ↔ cond' s e) ∧
      (cond s e → ∀ s' r, step s e = some (s', r) → inv s'))
    {s : σ} (hs : inv s) {es : List ε} (hes : Along step ok s es) :
    Along step cond s es ↔ Along step cond' s es := by
  induction es generalizing s with
  | nil => exact Iff.rfl
  | cons e es ih =>
    obtain ⟨hiff, hkeep⟩ := hstep s e hs hes.1
    constructor
    · rintro ⟨hc, hrest⟩
      exact ⟨hiff.mp hc, fun s' r he =>
        (ih (hkeep hc s' r he) (hes.2 s' r he)).mp (hrest s' r he)⟩
    · rintro ⟨hc, hrest⟩
      exact ⟨hiff.mpr hc, fun s' r he =>
        (ih (hkeep (hiff.mpr hc) s' r he) (hes.2 s' r he)).mpr (hrest s' r he)⟩

/-- A condition that shows in the results. -/
theorem Along.iff_results {cond : σ → ε → Prop} (good : ρ → Prop)
    (hstep : ∀ s e s' r, step s e = some (s', r) → (cond s e ↔ good r)) {s s' : σ} {es : List ε}
    {rs : List ρ} (hrun : run step s es = some (s', rs)) :
    Along step cond s es ↔ ∀ r ∈ rs, good r := by
  induction es generalizing s rs with
  | nil =>
    obtain ⟨-, rfl⟩ := Prod.mk.inj (Option.some.inj hrun)
    exact iff_of_true trivial fun _ h => absurd h List.not_mem_nil
  | cons e es ih =>
    obtain ⟨s1, r, rs1, he, hy, rfl⟩ := run_cons_some hrun
    rw [Along.cons_some he, List.forall_mem_cons, hstep s e _ _ he, ih hy]

instance Along.decidable {cond : σ → ε → Prop} [∀ s e, Decidable (cond s e)] :
    (s : σ) → (es : List ε) → Decidable (Along step cond s es)
  | _, [] => .isTrue trivial
  | s, e :: es =>
    match h : step s e with
    | none => decidable_of_iff _ (Along.cons_none h).symm
    | some (s', _) =>
      haveI : Decidable (Along step cond s' es) := Along.decidable s' es
      decidable_of_iff _ (Along.cons_some h).symm

/-- What holds at first and is kept by every admitted step holds after every admitted run,
and the run is never stuck. -/
theorem run_invariant (inv : σ → Prop) {cond : σ → ε → Prop}
    (hstep : ∀ s e, inv s → cond s e → ∃ s' r, step s e = some (s', r) ∧ inv s')
    {s : σ} (hs : inv s) {es : List ε} (hes : Along step cond s es) :
    ∃ s' rs, run step s es = some (s', rs) ∧ inv s' := by
  induction es generalizing s with
  | nil => exact ⟨s, [], rfl, hs⟩
  | cons e es ih =>
    obtain ⟨s1, r, he, h1⟩ := hstep s e hs hes.1
    obtain ⟨s', rs, hrun, h'⟩ := ih h1 (hes.2 s1 r he)
    exact ⟨s', r :: rs, by rw [run_cons he, hrun]; rfl, h'⟩

theorem run_keeps (inv : σ → Prop) {cond : σ → ε → Prop}
    (hstep : ∀ s e s' r, inv s → cond s e → step s e = some (s', r) → inv s')
    {s s' : σ} (hs : inv s) {es : List ε} {rs : List ρ} (hes : Along step cond s es)
    (h : run step s es = some (s', rs)) : inv s' := by
  induction es generalizing s rs with
  | nil =>
    obtain ⟨rfl, -⟩ := Prod.mk.inj (Option.some.inj h)
    exact hs
  | cons e es ih =>
    obtain ⟨s1, r, rs1, he, hy, rfl⟩ := run_cons_some h
    exact ih (hstep s e _ _ hs hes.1 he) (hes.2 _ _ he) hy

def runCount (step : σ → ε → Option (σ × ρ)) (cond : σ → ε → Prop) [∀ s e, Decidable (cond s e)] :
    σ → List ε → Nat
  | _, [] => 0
  | s, e :: es => (if cond s e then 1 else 0) +
    match step s e with
    | none => 0
    | some (s', _) => runCount step cond s' es

/-- What every step keeps beside the number of steps that were counted. -/
theorem run_counts (inv : σ → Nat → Prop) {cond : σ → ε → Prop} (counts : σ → ε → Prop)
    [∀ s e, Decidable (counts s e)]
    (hstep : ∀ s n e s' r, inv s n → cond s e → step s e = some (s', r) →
      inv s' (n + if counts s e then 1 else 0))
    {s s' : σ} {n : Nat} (hs : inv s n) {es : List ε} {rs : List ρ} (hes : Along step cond s es)
    (h : run step s es = some (s', rs)) : inv s' (n + runCount step counts s es) := by
  induction es generalizing s n rs with
  | nil =>
    obtain ⟨rfl, -⟩ := Prod.mk.inj (Option.some.inj h)
    exact hs
  | cons e es ih =>
    obtain ⟨s1, r, rs1, he, hy, rfl⟩ := run_cons_some h
    have hrest := ih (hstep s n e _ _ hs hes.1 he) (hes.2 _ _ he) hy
    rwa [runCount, he, ← Nat.add_assoc]

/-- The steps that meet `cond` keep what holds, and another one is stuck: then a run is stuck
or all its steps meet `cond`. -/
theorem run_along (inv : σ → Prop) {ok : σ → ε → Prop} (cond : σ → ε → Prop)
    (hstep : ∀ s e, inv s → ok s e → step s e = none ∧ ¬ cond s e ∨
      cond s e ∧ ∃ s' r, step s e = some (s', r) ∧ inv s')
    {s : σ} (hs : inv s) {es : List ε} (hes : Along step ok s es) :
    run step s es = none ∧ ¬ Along step cond s es ∨
      Along step cond s es ∧ ∃ s' rs, run step s es = some (s', rs) ∧ inv s' := by
  induction es generalizing s with
  | nil => exact Or.inr ⟨trivial, s, [], rfl, hs⟩
  | cons e es ih =>
    rcases hstep s e hs hes.1 with ⟨hnone, hbad⟩ | ⟨hcond, s1, r, he, h1⟩
    · exact Or.inl ⟨by rw [run, hnone], fun ha => hbad ha.1⟩
    · rw [run_cons he, Along.cons_some he]
      rcases ih h1 (hes.2 s1 r he) with ⟨hnone, hbad⟩ | ⟨hall, s', rs, hrun, h'⟩
      · exact Or.inl ⟨by rw [hnone]; rfl, fun ha => hbad ha.2⟩
      · exact Or.inr ⟨⟨hcond, hall⟩, s', r :: rs, by rw [hrun]; rfl, h'⟩

def plain (f : σ → ε → Option σ) (s : σ) (e : ε) : Option (σ × Unit) := (f s e).map fun s => (s, ())

theorem foldlM_invariant {f : σ → ε → Option σ} (inv : σ → Prop) {ok : ε → Prop}
    (hstep : ∀ s e, inv s → ok e → ∃ s', f s e = some s' ∧ inv s') {s : σ} (hs : inv s)
    {es : List ε} (hes : ∀ e ∈ es, ok e) : ∃ s', es.foldlM f s = some s' ∧ inv s' := by
  induction es generalizing s with
  | nil => exact ⟨s, rfl, hs⟩
  | cons e es ih =>
    obtain ⟨s1, he, h1⟩ := hstep s e hs (hes e List.mem_cons_self)
    obtain ⟨s', hrun, h'⟩ := ih h1 fun e' he' => hes e' (List.mem_cons_of_mem e he')
    refine ⟨s', ?_, h'⟩
    rw [List.foldlM_cons, he]
    exact hrun

theorem foldlM_keeps {f : σ → ε → Option σ} (inv : σ → Prop) {ok : ε → Prop}
    (hstep : ∀ s e s', inv s → ok e → f s e = some s' → inv s') {s s' : σ} (hs : inv s)
    {es : List ε} (hes : ∀ e ∈ es, ok e) (h : es.foldlM f s = some s') : inv s' := by
  induction es generalizing s with
  | nil =>
    cases h
    exact hs
  | cons e es ih =>
    rw [List.foldlM_cons] at h
    obtain ⟨s1, he, h⟩ := Option.bind_eq_some_iff.mp h
    exact ih (hstep s e s1 hs (hes e List.mem_cons_self) he)
      (fun e' he' => hes e' (List.mem_cons_of_mem e he')) h

/-- Steps that are never stuck, of which those that do not meet `cond`, and no others, end
what is `alive`. -/
theorem foldlM_along {f : σ → ε → Option σ} (inv alive : σ → Prop) {ok : σ → ε → Prop}
    (cond : σ → ε → Prop)
    (hstep : ∀ s e, inv s → ok s e →
      ∃ s', f s e = some s' ∧ inv s' ∧ (alive s' ↔ alive s ∧ cond s e))
    {s : σ} (hs : inv s) {es : List ε} (hes : Along (plain f) ok s es) :
    ∃ s', es.foldlM f s = some s' ∧ inv s' ∧ (alive s' ↔ alive s ∧ Along (plain f) cond s es) := by
  induction es generalizing s with
  | nil => exact ⟨s, rfl, hs, (and_iff_left trivial).symm⟩
  | cons e es ih =>
    obtain ⟨s1, he, h1, halive⟩ := hstep s e hs hes.1
    have hplain : plain f s e = some (s1, ()) := by rw [plain, he]; rfl
    obtain ⟨s', hrun, h', halive'⟩ := ih h1 (hes.2 s1 () hplain)
    refine ⟨s', ?_, h', ?_⟩
    · rw [List.foldlM_cons, he]
      exact hrun
    · rw [halive', halive, Along.cons_some hplain, and_assoc]

/-- What is stuck exactly if `ok` does not hold, and else comes to a state that meets `inv`. -/
inductive Goes (inv : σ → Prop) (ok : Prop) : Option σ → Prop
  | stuck : ¬ ok → Goes inv ok none
  | goes {s : σ} : ok → inv s → Goes inv ok (some s)

section Goes
variable {inv : σ → Prop} {ok ok' : Prop} {r : Option σ}

theorem Goes.of_some (hok : ok) (h : ∃ s, r = some s ∧ inv s) : Goes inv ok r := by
  obtain ⟨s, rfl, hs⟩ := h
  exact .goes hok hs

theorem Goes.congr (h : Goes inv ok r) (hiff : ok' ↔ ok) : Goes inv ok' r := by
  cases h with
  | stuck hbad => exact .stuck fun hok => hbad (hiff.mp hok)
  | goes hok hs => exact .goes (hiff.mpr hok) hs

theorem Goes.isSome_iff (h : Goes inv ok r) : r.isSome ↔ ok := by
  cases h with
  | stuck hbad => exact iff_of_false nofun hbad
  | goes hok _ => exact iff_of_true rfl hok

theorem Goes.keeps {s : σ} (h : Goes inv ok r) (hr : r = some s) : inv s := by
  cases h with
  | stuck _ => cases hr
  | goes _ hs => exact Option.some.inj hr ▸ hs

theorem Goes.bind {inv' : τ → Prop} {f : σ → Option τ} {then' : σ → Prop} (h : Goes inv ok r)
    (hf : ∀ s ∈ r, inv s → Goes inv' (then' s) (f s)) :
    Goes inv' (ok ∧ ∀ s ∈ r, then' s) (r.bind f) := by
  cases h with
  | stuck hbad => exact .stuck fun hall => hbad hall.1
  | @goes s hok hs =>
    refine (hf s rfl hs).congr ⟨fun hall => hall.2 s rfl, fun hthen => ⟨hok, fun t ht => ?_⟩⟩
    exact Option.some.inj ht ▸ hthen

theorem Goes.after {inv' : τ → Prop} {f : σ → Option τ} (h : Goes inv ok r)
    (hf : ∀ s, inv s → ∃ t, f s = some t ∧ inv' t) : Goes inv' ok (r.bind f) := by
  cases h with
  | stuck hbad => exact .stuck hbad
  | goes hok hs => exact .of_some hok (hf _ hs)

/-- Steps of which those that do not meet `cond`, and no others, are stuck. -/
theorem foldlM_goes {f : σ → ε → Option σ} (inv : σ → Prop) {ok : σ → ε → Prop}
    (cond : σ → ε → Prop) (hstep : ∀ s e, inv s → ok s e → Goes inv (cond s e) (f s e)) {s : σ}
    (hs : inv s) {es : List ε} (hes : Along (plain f) ok s es) :
    Goes inv (Along (plain f) cond s es) (es.foldlM f s) := by
  induction es generalizing s with
  | nil => exact .goes trivial hs
  | cons e es ih =>
    have hgoes := hstep s e hs hes.1
    rw [List.foldlM_cons]
    cases hf : f s e with
    | none =>
      rw [hf] at hgoes
      exact .stuck fun hall => absurd (hgoes.isSome_iff.mpr hall.1) nofun
    | some s1 =>
      rw [hf] at hgoes
      have hplain : plain f s e = some (s1, ()) := by rw [plain, hf]; rfl
      refine (ih (hgoes.keeps rfl) (hes.2 s1 () hplain)).congr ?_
      rw [Along.cons_some hplain, and_iff_right (hgoes.isSome_iff.mp rfl)]

end Goes

/-- A step-wise simulation gives a simulation of whole runs, results included. -/
theorem run_simulates (rel : σ → τ → Prop) (agree : ρ → ω → Prop) {cond : σ → ε → Prop}
    (hstep : ∀ s t e, rel s t → cond s e →
      ∃ s' r, step s e = some (s', r) ∧ rel s' (spec t e).1 ∧ agree r (spec t e).2)
    {s : σ} {t : τ} (hs : rel s t) {es : List ε} (hes : Along step cond s es) :
    ∃ s' rs, run step s es = some (s', rs) ∧ rel s' (specRun spec t es).1 ∧
      List.Forall₂ agree rs (specRun spec t es).2 := by
  induction es generalizing s t with
  | nil => exact ⟨s, [], rfl, hs, List.Forall₂.nil⟩
  | cons e es ih =>
    obtain ⟨s1, r, he, h1, hr⟩ := hstep s t e hs hes.1
    obtain ⟨s', rs, hrun, h', hrs⟩ := ih h1 (hes.2 s1 r he)
    exact ⟨s', r :: rs, by rw [run_cons he, hrun]; rfl, h', List.Forall₂.cons hr hrs⟩

inductive Trace {η : Type} (tr : τ → η → τ → Prop) : τ → List η → τ → Prop
  | nil {t : τ} : Trace tr t [] t
  | cons {t t1 t' : τ} {a : η} {as : List η} : tr t a t1 → Trace tr t1 as t' →
      Trace tr t (a :: as) t'

theorem Trace.of_append {η : Type} {tr : τ → η → τ → Prop} {t t' : τ} {as bs : List η}
    (h : Trace tr t (as ++ bs) t') : ∃ t1, Trace tr t as t1 ∧ Trace tr t1 bs t' := by
  induction as generalizing t with
  | nil => exact ⟨t, Trace.nil, h⟩
  | cons a as ih =>
    cases h with
    | cons hs h =>
      obtain ⟨t1, hl, hr⟩ := ih h
      exact ⟨t1, Trace.cons hs hl, hr⟩

theorem Trace.of_cons {η : Type} {tr : τ → η → τ → Prop} {t t' : τ} {a : η} {as : List η}
    (h : Trace tr t (a :: as) t') : ∃ t1, tr t a t1 ∧ Trace tr t1 as t' := by
  cases h with
  | cons hs h => exact ⟨_, hs, h⟩

theorem Trace.invariant {η : Type} {tr : τ → η → τ → Prop} (inv : τ → List η → Prop)
    (ok : η → Prop)
    (hstep : ∀ t as a t1, inv t as → ok a → tr t a t1 → inv t1 (as ++ [a])) {t t' : τ}
    {as bs : List η} (hs : inv t as) (h : Trace tr t bs t') (hok : ∀ b ∈ bs, ok b) :
    inv t' (as ++ bs) := by
  induction h generalizing as with
  | nil => rwa [List.append_nil]
  | @cons t t1 t' b bs hb _ ih =>
    have h1 := ih (hstep t as b t1 hs (hok b List.mem_cons_self) hb) fun c hc =>
      hok c (List.mem_cons_of_mem b hc)
    rwa [List.append_assoc] at h1

theorem Trace.flatten {α : Type} {t t' : List α} {as : List (List α)}
    (h : Trace (fun t a t' => t' = t ++ a) t as t') : t' = t ++ as.flatten := by
  induction h with
  | nil => simp
  | cons hstep _ ih => rw [ih, hstep, List.flatten_cons, List.append_assoc]

/-- What is kept of the state beside all that the results have brought. -/
theorem run_collects {η : Type} (rel : σ → List η → Prop) (out : ρ → List η)
    {cond : σ → ε → Prop}
    (hstep : ∀ s t e s' r, rel s t → cond s e → step s e = some (s', r) → rel s' (t ++ out r))
    {s s' : σ} {t : List η} (hs : rel s t) {es : List ε} {rs : List ρ}
    (hes : Along step cond s es) (hrun : run step s es = some (s', rs)) :
    rel s' (t ++ rs.flatMap out) := by
  induction es generalizing s t rs with
  | nil =>
    obtain ⟨rfl, rfl⟩ := Prod.mk.inj (Option.some.inj hrun)
    rwa [List.flatMap_nil, List.append_nil]
  | cons e es ih =>
    obtain ⟨s1, r, rs1, he, hy, rfl⟩ := run_cons_some hrun
    rw [List.flatMap_cons, ← List.append_assoc]
    exact ih (hstep s t e _ _ hs hes.1 he) (hes.2 _ _ he) hy

/-- A run that meets `cond` all along is matched, call by call, by a trace labelled by the
calls and their results. -/
theorem run_traces {η : Type} (rel : σ → τ → Prop) (tr : τ → η → τ → Prop) (label : ε → ρ → η)
    {cond : σ → ε → Prop}
    (hstep : ∀ s t e s' r, rel s t → cond s e → step s e = some (s', r) →
      ∃ t', tr t (label e r) t' ∧ rel s' t')
    {s s' : σ} {t : τ} (hs : rel s t) {es : List ε} {rs : List ρ} (hes : Along step cond s es)
    (hrun : run step s es = some (s', rs)) :
    ∃ t', Trace tr t (List.zipWith label es rs) t' ∧ rel s' t' := by
  induction es generalizing s t rs with
  | nil =>
    simp only [run, Option.some.injEq, Prod.mk.injEq] at hrun
    obtain ⟨rfl, rfl⟩ := hrun
    exact ⟨t, Trace.nil, hs⟩
  | cons e es ih =>
    obtain ⟨s1, r, rs1, he, hy, rfl⟩ := run_cons_some hrun
    obtain ⟨t1, ht1, h1⟩ := hstep s t e s1 r hs hes.1 he
    obtain ⟨t', htrace, h'⟩ := ih h1 (hes.2 s1 r he) hy
    exact ⟨t', Trace.cons ht1 htrace, h'⟩

theorem run_refines {η : Type} (rel : σ → τ → Prop) (tr : τ → η → τ → Prop) (label : ε → ρ → η)
    {cond : σ → ε → Prop}
    (hstep : ∀ s t e, rel s t → cond s e →
      ∃ s' r t', step s e = some (s', r) ∧ tr t (label e r) t' ∧ rel s' t')
    {s : σ} {t : τ} (hs : rel s t) {es : List ε} (hes : Along step cond s es) :
    ∃ s' rs t', run step s es = some (s', rs) ∧
      Trace tr t (List.zipWith label es rs) t' ∧ rel s' t' := by
  obtain ⟨s', rs, hrun, -⟩ := run_invariant (fun s => ∃ t, rel s t) (fun s e ⟨t, hr⟩ hc => by
    obtain ⟨s1, r, t1, he, -, h1⟩ := hstep s t e hr hc
    exact ⟨s1, r, he, t1, h1⟩) ⟨t, hs⟩ hes
  obtain ⟨t', htrace, h'⟩ := run_traces rel tr label (fun s t e s1 r hr hc he => by
    obtain ⟨s2, r2, t1, he2, htr, h1⟩ := hstep s t e hr hc
    rw [he, Option.some.injEq, Prod.mk.injEq] at he2
    rw [he2.1, he2.2]
    exact ⟨t1, htr, h1⟩) hs hes hrun
  exact ⟨s', rs, t', hrun, htrace, h'⟩

end Runs
