import Mathlib.Data.List.TakeWhile
import SimpleKit.Lib.Run
import SimpleKit.Sconfig.Load

set_option autoImplicit false

namespace SimpleKit
open SortedBy Runs

/-- The pairs of a file, by the byte order of the names. -/
def contentMap (content : List UInt8) : SortedMap (List UInt8) (List UInt8) :=
  (filePairs content).foldl (fun m pair => m.insert pair.1 pair.2) SortedMap.empty

instance (content : List UInt8) : Decidable (Accepted content) :=
  decidable_of_iff ((∀ line ∈ fileLines content, line.length ≤ 4094) ∧
      (∀ line ∈ fileLines content, (parseLine line).ret ≠ -1) ∧
      ((filePairs content).map Prod.fst).Nodup)
    ⟨fun h => ⟨h.1, h.2.1, h.2.2⟩, fun h => ⟨h.short, h.parsed, h.names⟩⟩

inductive SconfigOp where
  | reload : Option (List UInt8) → SconfigOp
  | readStr : List UInt8 → SconfigOp
  | beginIterate : SconfigOp
  | iterate : SconfigOp
  | endIterate : SconfigOp

inductive SconfigRet where
  | void : SconfigRet
  | code : Int → SconfigRet
  | found : List UInt8 → SconfigRet
  | item : List UInt8 × List UInt8 → SconfigRet
  deriving DecidableEq, Repr

def sconfigStep (sconf : Sconfig) : SconfigOp → Option (Sconfig × SconfigRet)
  | .reload file => (sconfigReload sconf file).map fun x => (x.1, .code x.2)
  | .readStr name => some (sconf, (sconfigReadStr sconf name).elim (.code (-1)) .found)
  | .beginIterate => some (sconfigBeginIterate sconf, .void)
  | .iterate =>
    let x := sconfigIterate sconf
    some (x.1, x.2.elim (.code (-1)) .item)
  | .endIterate => some (sconfigEndIterate sconf, .void)

/-- What a configuration says: a map, and what is left of an iteration over it. -/
structure SconfigSpec where
  map : SortedMap (List UInt8) (List UInt8)
  rest : List (List UInt8 × List UInt8)

def sconfigSpecStep (t : SconfigSpec) : SconfigOp → SconfigSpec × SconfigRet
  | .reload none => (t, .code (-1))
  | .reload (some content) =>
    if Accepted content then (⟨contentMap content, []⟩, .code 0) else (t, .code (-1))
  | .readStr name => (t, (t.map.lookup name).elim (.code (-1)) .found)
  | .beginIterate => ({ t with rest := t.map.entries }, .void)
  | .iterate => ({ t with rest := t.rest.tail }, t.rest.head?.elim (.code (-1)) .item)
  | .endIterate => ({ t with rest := [] }, .void)

def SconfigOp.Text : SconfigOp → Prop
  | .reload (some content) => TextFile content
  | _ => True

instance : (op : SconfigOp) → Decidable op.Text
  | .reload (some content) => inferInstanceAs (Decidable (TextFile content))
  | .reload none | .readStr _ | .beginIterate | .iterate | .endIterate => .isTrue trivial

section Keys

theorem not_mem_cString (buffer : List UInt8) (i : Nat) : (0 : UInt8) ∉ cString buffer i := by
  intro h
  simpa using List.mem_takeWhile_imp h

theorem cString_sconfigKey {name : List UInt8} (h : (0 : UInt8) ∉ name) :
    cString (sconfigKey name).bytes 0 = name := by
  rw [cString, List.drop_zero, sconfigKey, List.takeWhile_append_of_pos]
  · simp
  · intro c hc
    simpa using ne_of_mem_of_not_mem hc h

theorem sconfigKey_lt {a b : List UInt8} (ha : (0 : UInt8) ∉ a) (hb : (0 : UInt8) ∉ b) :
    sconfigKey a < sconfigKey b ↔ a < b := by
  rw [Key.lt_iff_lex, sconfigKey, sconfigKey]
  change List.Lex (· < ·) (a ++ [0]) (b ++ [0]) ↔ List.Lex (· < ·) a b
  induction a generalizing b with
  | nil =>
    cases b with
    | nil => simp
    | cons d b =>
      rw [List.mem_cons, not_or] at hb
      have hd : (0 : UInt8) < d := UInt8.pos_iff_ne_zero.mpr (Ne.symm hb.1)
      exact iff_of_true (List.Lex.rel hd) List.Lex.nil
  | cons c a ih =>
    rw [List.mem_cons, not_or] at ha
    cases b with
    | nil =>
      refine iff_of_false (fun h => ?_) (fun h => by cases h)
      rw [List.cons_append, List.nil_append, List.cons_lex_cons_iff] at h
      rcases h with h | h
      · exact absurd h UInt8.not_lt_zero
      · exact ha.1 h.1.symm
    | cons d b =>
      rw [List.mem_cons, not_or] at hb
      rw [List.cons_append, List.cons_append, List.cons_lex_cons_iff, List.cons_lex_cons_iff,
        ih ha.2 hb.2]

end Keys

section Content
variable {content : List UInt8}

theorem foldl_insert_perm {pairs : List (List UInt8 × List UInt8)}
    {m : SortedMap (List UInt8) (List UInt8)} (hnodup : (pairs.map Prod.fst).Nodup)
    (hnew : ∀ name ∈ pairs.map Prod.fst, name ∉ m.keys) :
    (pairs.foldl (fun m pair => m.insert pair.1 pair.2) m).entries.Perm (m.entries ++ pairs) := by
  induction pairs generalizing m with
  | nil => rw [List.foldl_nil, List.append_nil]
  | cons pair pairs ih =>
    rw [List.map_cons, List.nodup_cons] at hnodup
    rw [List.map_cons, List.forall_mem_cons] at hnew
    rw [List.foldl_cons]
    refine (ih hnodup.2 fun name hname => ?_).trans ?_
    · rw [SortedMap.mem_keys_insert hnew.1, not_or]
      exact ⟨fun he => hnodup.1 (he ▸ hname), hnew.2 name hname⟩
    · exact ((SortedMap.insert_perm hnew.1 pair.2).append_right _).trans List.perm_middle.symm

theorem Accepted.perm (h : Accepted content) :
    (contentMap content).entries.Perm (filePairs content) :=
  foldl_insert_perm h.names fun _ _ => List.not_mem_nil

theorem filePairs_name {pair : List UInt8 × List UInt8} (h : pair ∈ filePairs content) :
    (0 : UInt8) ∉ pair.1 := by
  obtain ⟨line, -, hline⟩ := List.mem_filterMap.mp h
  unfold lineEntry at hline
  dsimp only at hline
  split at hline
  · cases hline
  · split at hline
    · cases hline
    · rw [Option.join_some, Option.some.injEq] at hline
      exact hline ▸ not_mem_cString _ _

end Content

structure SconfigRel (sconf : Sconfig) (t : SconfigSpec) : Prop where
  entries : sconf.items.map.entries = t.map.entries.map keyed
  iterator : sconf.items.iterator = t.rest.map keyed
  names : ∀ pair ∈ t.map.entries, (0 : UInt8) ∉ pair.1
  left : ∀ pair ∈ t.rest, (0 : UInt8) ∉ pair.1

section Loads
variable {content : List UInt8}

theorem length_joinLines (lines : List (List UInt8)) :
    lines.length ≤ (joinLines lines).length := by
  induction lines with
  | nil => exact Nat.le_refl 0
  | cons line lines ih =>
    rw [joinLines, List.map_cons, List.flatten_cons, List.length_append, List.length_append,
      List.length_cons, List.length_singleton]
    have hrest : lines.length ≤ (lines.map fun line => line ++ [charNewline]).flatten.length := ih
    omega

/-- Two orders, one of the keys and one of the names, sort the pairs alike. -/
theorem keyed_entries {m : SortedMap Key (List UInt8)} {t : SortedMap (List UInt8) (List UInt8)}
    (h : m.entries.Perm (t.entries.map keyed)) (hnames : ∀ pair ∈ t.entries, (0 : UInt8) ∉ pair.1) :
    m.entries = t.entries.map keyed := by
  have hsorted : Sorted Prod.fst (t.entries.map keyed) := by
    refine List.pairwise_map.mpr (List.Pairwise.imp_of_mem ?_ t.sorted)
    intro a b ha hb hab
    exact (sconfigKey_lt (hnames a ha) (hnames b hb)).mpr hab
  refine List.Perm.eq_of_pairwise ?_ m.sorted hsorted h
  intro a b _ _ hab hba
  exact absurd hba (lt_asymm hab)

theorem loadLines_accepted {lines : List (List UInt8)} (h : ∀ line ∈ lines, charNewline ∉ line) :
    (loadLines sconfigItemsNew.map lines).isSome ↔ Accepted (joinLines lines) := by
  have hsplit : fileLines (joinLines lines) = lines := fileLines_join h
  rw [(loadLines_spec sconfigItemsNew.map lines).1]
  constructor
  · rintro ⟨hshort, hparsed, hnames, -⟩
    exact ⟨by rwa [hsplit], by rwa [hsplit], by rwa [filePairs, hsplit]⟩
  · rintro ⟨hshort, hparsed, hnames⟩
    rw [hsplit] at hshort hparsed
    rw [filePairs, hsplit] at hnames
    exact ⟨hshort, hparsed, hnames, fun _ _ => List.not_mem_nil⟩

theorem sconfigLoad_spec (h : TextFile content) :
    ∃ items, sconfigLoad (some content) sconfigItemsNew =
        some (items, if Accepted content then 0 else -1) ∧
      (Accepted content → SconfigRel ⟨items⟩ ⟨contentMap content, []⟩) := by
  obtain ⟨lines, rfl, hlines⟩ := h.exists_lines
  have hsplit : fileLines (joinLines lines) = lines :=
    fileLines_join fun line hl => (hlines line hl).2
  have hfuel : lines.length < (joinLines lines).length + 1 :=
    Nat.lt_succ_of_le (length_joinLines lines)
  obtain ⟨fp, items, hloop, hend⟩ := sconfigLoadLoop_lines hlines hfuel sconfigItemsNew
  have hperm := (loadLines_spec sconfigItemsNew.map lines).2
  have haccept := loadLines_accepted fun line hl => (hlines line hl).2
  have hload : sconfigLoad (some (joinLines lines)) sconfigItemsNew =
      some (items, if fp.eof then 0 else -1) := by
    rw [sconfigLoad, hloop]
    rfl
  refine ⟨items, ?_, fun hacc => ?_⟩
  · rw [hload]
    rcases hend with ⟨hnone, heof⟩ | ⟨hmap, heof, -⟩
    · have hrefused : ¬ Accepted (joinLines lines) := fun hacc => by
        rw [← haccept, hnone] at hacc
        cases hacc
      rw [heof, if_neg hrefused]
      rfl
    · rw [heof, if_pos (haccept.mp (by rw [hmap]; rfl)), if_pos rfl]
  · obtain ⟨hnone, -⟩ | ⟨hmap, -, hiter⟩ := hend
    · rw [← haccept, hnone] at hacc
      cases hacc
    · have hnames : ∀ pair ∈ (contentMap (joinLines lines)).entries, (0 : UInt8) ∉ pair.1 :=
        fun pair hpair => filePairs_name (hacc.perm.mem_iff.mp hpair)
      have hpairs : filePairs (joinLines lines) = linePairs lines := by rw [filePairs, hsplit]
      refine ⟨keyed_entries ?_ hnames, hiter, hnames, fun _ h => absurd h List.not_mem_nil⟩
      have hitems := hperm items.map hmap
      rw [← hpairs] at hitems
      exact hitems.trans (hacc.perm.map keyed).symm

end Loads

section Steps

theorem SconfigRel.lookup {sconf : Sconfig} {t : SconfigSpec} (h : SconfigRel sconf t)
    (name : List UInt8) : sconfigReadStr sconf name = t.map.lookup name := by
  have hlists : sconf.items.map.Lists (fun p => sconfigKey p.1) Prod.snd t.map.entries := h.entries
  rw [sconfigReadStr, hlists.lookup, SortedMap.lookup]
  refine congrArg (fun q => (List.find? q t.map.entries).map Prod.snd) (funext fun pair => ?_)
  exact decide_eq_decide.mpr sconfigKey_inj

theorem sconfigReload_spec {sconf : Sconfig} {t : SconfigSpec} (h : SconfigRel sconf t)
    {content : List UInt8} (htext : TextFile content) :
    ∃ sconf', sconfigReload sconf (some content) =
        some (sconf', if Accepted content then 0 else -1) ∧
      SconfigRel sconf' (if Accepted content then ⟨contentMap content, []⟩ else t) := by
  obtain ⟨items, hload, hrel⟩ := sconfigLoad_spec htext
  by_cases hacc : Accepted content
  · rw [if_pos hacc] at hload ⊢
    rw [if_pos hacc]
    refine ⟨⟨items⟩, ?_, hrel hacc⟩
    rw [sconfigReload, hload]
    rfl
  · rw [if_neg hacc] at hload ⊢
    rw [if_neg hacc]
    refine ⟨sconf, ?_, h⟩
    rw [sconfigReload, hload]
    rfl

theorem sconfigIterate_spec {sconf : Sconfig} {t : SconfigSpec} (h : SconfigRel sconf t) :
    SconfigRel (sconfigIterate sconf).1 { t with rest := t.rest.tail } ∧
      (sconfigIterate sconf).2 = t.rest.head? := by
  obtain ⟨map, rest⟩ := t
  cases rest with
  | nil =>
    have hiter : sconf.items.iterator = [] := h.iterator
    rw [sconfigIterate, hiter]
    exact ⟨h, rfl⟩
  | cons pair rest =>
    have hiter : sconf.items.iterator = keyed pair :: rest.map keyed := h.iterator
    have hname : cString (keyed pair).1.bytes 0 = pair.1 :=
      cString_sconfigKey (h.left pair List.mem_cons_self)
    rw [sconfigIterate, hiter]
    refine ⟨⟨h.entries, rfl, h.names, fun p hp => h.left p (List.mem_cons_of_mem pair hp)⟩, ?_⟩
    exact congrArg (fun name => some (name, pair.2)) hname

theorem sconfigStep_spec {sconf : Sconfig} {t : SconfigSpec} (op : SconfigOp)
    (h : SconfigRel sconf t) (hop : op.Text) :
    ∃ sconf' r, sconfigStep sconf op = some (sconf', r) ∧
      SconfigRel sconf' (sconfigSpecStep t op).1 ∧ r = (sconfigSpecStep t op).2 := by
  cases op with
  | reload file =>
    cases file with
    | none => exact ⟨sconf, _, rfl, h, rfl⟩
    | some content =>
      obtain ⟨sconf', hreload, hrel⟩ := sconfigReload_spec h hop
      refine ⟨sconf', _, ?_, ?_, rfl⟩
      · rw [sconfigStep, hreload, sconfigSpecStep]
        split <;> rfl
      · rw [sconfigSpecStep]
        split <;> simp_all
  | readStr name =>
    refine ⟨sconf, _, rfl, h, ?_⟩
    rw [h.lookup]
    rfl
  | beginIterate => exact ⟨_, _, rfl, ⟨h.entries, h.entries, h.names, h.names⟩, rfl⟩
  | iterate =>
    obtain ⟨hrel, hret⟩ := sconfigIterate_spec h
    refine ⟨_, _, rfl, hrel, ?_⟩
    rw [hret]
    rfl
  | endIterate =>
    exact ⟨_, _, rfl, ⟨h.entries, rfl, h.names, fun _ hp => absurd hp List.not_mem_nil⟩, rfl⟩

theorem sconfigNew_spec {content : List UInt8} (htext : TextFile content)
    (hacc : Accepted content) :
    ∃ sconf, sconfigNew (some content) = some (some sconf) ∧
      SconfigRel sconf ⟨contentMap content, []⟩ := by
  obtain ⟨items, hload, hrel⟩ := sconfigLoad_spec htext
  rw [if_pos hacc] at hload
  refine ⟨⟨items⟩, ?_, hrel hacc⟩
  rw [sconfigNew, hload]
  rfl

end Steps

/-- A load returns 0 exactly for what is accepted, a configuration then says what the pairs of
the last such file say, and a refused reload changes nothing. -/
theorem sconfig_last_accepted :
    (∀ content, TextFile content →
      (∃ items, sconfigLoad (some content) sconfigItemsNew =
        some (items, if Accepted content then 0 else -1)) ∧
      (Accepted content → (contentMap content).entries.Perm (filePairs content))) ∧
    ∀ content, TextFile content → Accepted content →
      ∃ sconf, sconfigNew (some content) = some (some sconf) ∧
        ∀ ops : List SconfigOp, (∀ op ∈ ops, op.Text) →
          ∃ sconf', run sconfigStep sconf ops =
            some (sconf', (specRun sconfigSpecStep ⟨contentMap content, []⟩ ops).2) := by
  refine ⟨fun content htext => ⟨?_, Accepted.perm⟩, fun content htext hacc => ?_⟩
  · obtain ⟨items, hload, -⟩ := sconfigLoad_spec htext
    exact ⟨items, hload⟩
  · obtain ⟨sconf, hnew, hrel⟩ := sconfigNew_spec htext hacc
    refine ⟨sconf, hnew, fun ops hops => ?_⟩
    have hall : Along sconfigStep (fun _ op => op.Text) sconf ops := Along.of_forall hops
    obtain ⟨sconf', rets, hrun, -, hrets⟩ :=
      run_simulates SconfigRel Eq (fun _ _ op h hop => sconfigStep_spec op h hop) hrel hall
    rw [List.forall₂_eq_eq_eq] at hrets
    exact ⟨sconf', hrets ▸ hrun⟩

/-- Two pairs, not in the order of their names, around a comment. -/
def sconfigSampleFile : List UInt8 :=
  [98, 61, 50, 10] ++ [35, 10] ++ [97, 61, 49, 32, 35, 10]

/-- A name that occurs twice, and then a file of one pair. -/
def sconfigSampleOps : List SconfigOp :=
  [.beginIterate, .iterate, .reload (some [99, 61, 10, 99, 61, 10]), .iterate, .readStr [97],
    .reload (some [99, 61, 51, 10]), .iterate, .readStr [97], .readStr [99]]

theorem sconfig_last_accepted_sample :
    ∃ sconf, sconfigNew (some sconfigSampleFile) = some (some sconf) ∧
      ∃ sconf', run sconfigStep sconf sconfigSampleOps =
        some (sconf', [.void, .item ([97], [49]), .code (-1), .item ([98], [50]), .found [49],
          .code 0, .code (-1), .code (-1), .found [51]]) := by
  obtain ⟨sconf, hnew, hrun⟩ :=
    sconfig_last_accepted.2 sconfigSampleFile (by decide) (by decide +kernel)
  obtain ⟨sconf', h⟩ := hrun sconfigSampleOps (by decide +kernel)
  refine ⟨sconf, hnew, sconf', h.trans (congrArg some (congrArg (Prod.mk sconf') ?_))⟩
  decide +kernel

end SimpleKit
