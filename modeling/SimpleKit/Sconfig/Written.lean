import Mathlib.Data.List.Chain
import SimpleKit.Sconfig.Inside
import SimpleKit.Sconfig.Refine

set_option autoImplicit false

namespace SimpleKit
open SortedBy

/-- A value that is read as it stands: within a line, with no white space at its ends and no '#'
after white space. -/
structure IsValue (value : List UInt8) : Prop where
  nul : (0 : UInt8) ∉ value
  line : charNewline ∉ value
  start : ∀ c, value.head? = some c → isSpace c = false
  stop : ∀ c, value.getLast? = some c → isSpace c = false
  notes : value.IsChain fun d c => isSpace d = true → c ≠ charHash

def Configurable (t : SortedMap (List UInt8) (List UInt8)) : Prop :=
  ∀ pair ∈ t.entries, IsName pair.1 ∧ IsValue pair.2 ∧ pair.1.length + pair.2.length < 4094

def pairLine (pair : List UInt8 × List UInt8) : List UInt8 := pair.1 ++ charEquals :: pair.2

def configText (t : SortedMap (List UInt8) (List UInt8)) : List UInt8 :=
  joinLines (t.entries.map pairLine)

section Values
variable {value rest : List UInt8}

theorem cutNote_chain (d : UInt8) (rest : List UInt8) :
    (d :: cutNote (some d) rest).IsChain fun d c => isSpace d = true → c ≠ charHash := by
  induction rest generalizing d with
  | nil => exact List.isChain_singleton d
  | cons c rest ih =>
    rw [cutNote]
    split
    · exact List.isChain_singleton d
    · next hnote =>
      exact List.isChain_cons_cons.mpr ⟨fun hd hc => hnote ⟨hc, hd⟩, ih c⟩

theorem cutNote_eq_self {d : UInt8}
    (h : (d :: rest).IsChain fun d c => isSpace d = true → c ≠ charHash) :
    cutNote (some d) rest = rest := by
  induction rest generalizing d with
  | nil => rfl
  | cons c rest ih =>
    obtain ⟨hnote, hrest⟩ := List.isChain_cons_cons.mp h
    rw [cutNote, if_neg fun hc => hnote hc.2 hc.1, ih hrest]

theorem cutNote_none (c : UInt8) (rest : List UInt8) :
    cutNote none (c :: rest) = c :: cutNote (some c) rest :=
  if_neg fun h => by cases h.2

theorem IsValue.lineValue_eq (h : IsValue value) : lineValue value = value := by
  have hcut : cutNote none value = value := by
    cases value with
    | nil => rfl
    | cons c value => rw [cutNote_none, cutNote_eq_self h.notes]
  rw [lineValue, hcut, List.rdropWhile_eq_self_iff]
  intro hne hspace
  rw [h.stop _ (List.getLast?_eq_some_getLast hne)] at hspace
  cases hspace

theorem lineValue_isValue (hnul : (0 : UInt8) ∉ rest) (hline : charNewline ∉ rest)
    (hstart : ∀ c, (lineValue rest).head? = some c → isSpace c = false) :
    IsValue (lineValue rest) := by
  have hsub : ∀ c ∈ lineValue rest, c ∈ rest := (lineValue_isPre rest).subset
  refine ⟨fun h => hnul (hsub _ h), fun h => hline (hsub _ h), hstart, fun c hc => ?_, ?_⟩
  · have hne : lineValue rest ≠ [] := fun he => by rw [he] at hc; cases hc
    rw [List.getLast?_eq_some_getLast hne] at hc
    obtain rfl := Option.some.inj hc
    exact Bool.eq_false_of_not_eq_true (List.rdropWhile_last_not _ _ hne)
  · have hcut : (cutNote none rest).IsChain fun d c => isSpace d = true → c ≠ charHash := by
      cases rest with
      | nil => exact .nil
      | cons c rest =>
        rw [cutNote_none]
        exact cutNote_chain c rest
    obtain ⟨tail, htail⟩ : lineValue rest <+: cutNote none rest := List.rdropWhile_prefix _ _
    rw [← htail] at hcut
    exact hcut.left_of_append

end Values

section Lines
variable {line name value : List UInt8}

theorem isNameChar_ne {c : UInt8} (h : isNameChar c = true) : c ≠ 0 ∧ c ≠ charNewline := by
  rw [isNameChar, Bool.or_eq_true, Bool.or_eq_true, isAlpha_iff, isDigit_iff, decide_eq_true_iff,
    eq_char_iff] at h
  rw [ne_eq, ne_eq, eq_char_iff, eq_char_iff]
  change (_ ∨ _) ∨ c.toNat = 95 at h
  show ¬ c.toNat = 0 ∧ ¬ c.toNat = 10
  omega

theorem pairLine_parsed {pair : List UInt8 × List UInt8} (hname : IsName pair.1)
    (hvalue : IsValue pair.2) : (0 : UInt8) ∉ pairLine pair ∧ charNewline ∉ pairLine pair ∧
      lineEntry (pairLine pair) = some (some pair) := by
  obtain ⟨name, value⟩ := pair
  obtain ⟨-, -, -, -, hchars⟩ := hname.exists_cons
  have hnul : (0 : UInt8) ∉ pairLine (name, value) := by
    rw [pairLine, List.mem_append, List.mem_cons, not_or, not_or]
    exact ⟨fun h => (isNameChar_ne (hchars _ h)).1 rfl, by decide, hvalue.nul⟩
  have hline : charNewline ∉ pairLine (name, value) := by
    rw [pairLine, List.mem_append, List.mem_cons, not_or, not_or]
    exact ⟨fun h => (isNameChar_ne (hchars _ h)).2 rfl, by decide, hvalue.line⟩
  have hpair : PairLine (pairLine (name, value)) [] name value :=
    ⟨rfl, fun _ h => absurd h List.not_mem_nil, hname, by
      rw [hvalue.lineValue_eq]
      exact hvalue.start⟩
  refine ⟨hnul, hline, ?_⟩
  have hentry := hpair.entry hnul [0]
  rw [hvalue.lineValue_eq] at hentry
  exact hentry

theorem pairLine_of_entry (hnul : (0 : UInt8) ∉ line)
    (h : lineEntry line = some (some (name, value))) :
    ∃ blanks rest, PairLine line blanks name rest ∧ value = lineValue rest := by
  rw [← lineEntry_eq hnul []] at h
  by_cases hpair : ∃ blanks name rest, PairLine line blanks name rest
  · obtain ⟨blanks, name', rest, hpair⟩ := hpair
    rw [hpair.entry hnul] at h
    cases h
    exact ⟨blanks, rest, hpair, rfl⟩
  · by_cases hblank : BlankLine line
    · rw [ParsedLine.entry, hblank.parse] at h
      cases h
    · rw [ParsedLine.entry, sconfigParseLine_refused hnul hblank hpair] at h
      cases h

theorem joinLines_text {lines : List (List UInt8)} (h : ∀ line ∈ lines, (0 : UInt8) ∉ line) :
    TextFile (joinLines lines) := by
  induction lines with
  | nil => exact ⟨List.not_mem_nil, Or.inl rfl⟩
  | cons line lines ih =>
    rw [List.forall_mem_cons] at h
    obtain ⟨hnul, hend⟩ := ih h.2
    rw [joinLines_cons]
    refine ⟨?_, Or.inr ?_⟩
    · rw [List.mem_append, List.mem_cons, not_or, not_or]
      exact ⟨h.1, by decide, hnul⟩
    · rw [List.getLast?_append, List.getLast?_cons]
      rcases hend with hend | hend <;> rw [hend] <;> rfl

end Lines

section Maps
variable {content : List UInt8} {t : SortedMap (List UInt8) (List UInt8)}

/-- The text of a map is a file from which that map is loaded. -/
theorem Configurable.loaded (h : Configurable t) :
    TextFile (configText t) ∧ Accepted (configText t) ∧
      (contentMap (configText t)).entries = t.entries := by
  have hparsed := fun pair hpair => pairLine_parsed (h pair hpair).1 (h pair hpair).2.1
  have hlines : fileLines (configText t) = t.entries.map pairLine := by
    refine fileLines_join fun line hl => ?_
    obtain ⟨pair, hpair, rfl⟩ := List.mem_map.mp hl
    exact (hparsed pair hpair).2.1
  have hpairs : filePairs (configText t) = t.entries := by
    rw [filePairs, hlines, linePairs, List.filterMap_map]
    refine (List.filterMap_congr fun pair hpair => ?_).trans List.filterMap_some
    rw [Function.comp_apply, (hparsed pair hpair).2.2]
    rfl
  have hacc : Accepted (configText t) := by
    refine ⟨fun line hl => ?_, fun line hl => ?_, by rw [hpairs]; exact t.sorted.nodup_keys⟩
    · rw [hlines] at hl
      obtain ⟨pair, hpair, rfl⟩ := List.mem_map.mp hl
      have hlen := (h pair hpair).2.2
      rw [pairLine, List.length_append, List.length_cons]
      omega
    · rw [hlines] at hl
      obtain ⟨pair, hpair, rfl⟩ := List.mem_map.mp hl
      intro hbad
      rw [← lineEntry_none, (hparsed pair hpair).2.2] at hbad
      cases hbad
  refine ⟨joinLines_text fun line hl => ?_, hacc, ?_⟩
  · obtain ⟨pair, hpair, rfl⟩ := List.mem_map.mp hl
    exact (hparsed pair hpair).1
  · have hperm := hacc.perm
    rw [hpairs] at hperm
    refine List.Perm.eq_of_pairwise ?_ (contentMap (configText t)).sorted t.sorted hperm
    intro a b _ _ hab hba
    exact absurd hba (lt_asymm hab)

/-- What is loaded from a file is a configuration that can be written. -/
theorem Accepted.configurable (htext : TextFile content) (hacc : Accepted content) :
    Configurable (contentMap content) := by
  intro pair hpair
  obtain ⟨lines, rfl, hlines⟩ := htext.exists_lines
  have hsplit : fileLines (joinLines lines) = lines :=
    fileLines_join fun line hl => (hlines line hl).2
  have hmem := hacc.perm.mem_iff.mp hpair
  rw [filePairs, hsplit] at hmem
  obtain ⟨line, hl, hentry⟩ := List.mem_filterMap.mp hmem
  have hshort : line.length ≤ 4094 := hacc.short line (by rw [hsplit]; exact hl)
  obtain ⟨hnul, hline⟩ := hlines line hl
  have hgiven : lineEntry line = some (some (pair.1, pair.2)) := Option.join_eq_some_iff.mp hentry
  obtain ⟨blanks, rest, hpairLine, hvalue⟩ := pairLine_of_entry hnul hgiven
  have hrest : ∀ c ∈ rest, c ∈ line := fun c hc => by
    rw [hpairLine.split]
    simp [hc]
  have hlen := congrArg List.length hpairLine.split
  rw [List.length_append, List.length_append, List.length_cons] at hlen
  have hcut := (lineValue_isPre rest).length_le
  rw [hvalue]
  refine ⟨hpairLine.name, lineValue_isValue (fun h => hnul (hrest _ h)) (fun h => hline (hrest _ h))
    hpairLine.value, ?_⟩
  omega

/-- The maps that a configuration can answer for, whatever its file, are those of names to values
that stand in a line as they are; and each of them is loaded from a file. -/
theorem sconfig_configures (t : SortedMap (List UInt8) (List UInt8)) :
    (∃ content sconf, TextFile content ∧ sconfigNew (some content) = some (some sconf) ∧
      ∀ name, sconfigReadStr sconf name = t.lookup name) ↔ Configurable t := by
  constructor
  · rintro ⟨content, sconf, htext, hnew, hread⟩
    obtain ⟨items, hload, hrel⟩ := sconfigLoad_spec htext
    rw [sconfigNew, hload] at hnew
    by_cases hacc : Accepted content
    · rw [if_pos hacc] at hnew
      cases hnew
      intro pair hpair
      refine hacc.configurable htext pair (SortedMap.lookup_eq_some.mp ?_)
      rw [← (hrel hacc).lookup, hread, SortedMap.lookup_eq_some]
      exact hpair
    · rw [if_neg hacc] at hnew
      cases hnew
  · intro h
    obtain ⟨htext, hacc, hentries⟩ := h.loaded
    obtain ⟨sconf, hnew, hrel⟩ := sconfigNew_spec htext hacc
    refine ⟨configText t, sconf, htext, hnew, fun name => ?_⟩
    rw [hrel.lookup, SortedMap.lookup, hentries]
    rfl

end Maps

end SimpleKit
