import SimpleKit.Sconfig.Grammar
import SimpleKit.Sconfig.Refine

set_option autoImplicit false

namespace SimpleKit
open SortedBy

/-- Both files give the same return value and, on success, the same items. -/
def SameLoad (content content' : List UInt8) : Prop :=
  ∃ x x', sconfigLoad (some content) sconfigItemsNew = some x ∧
    sconfigLoad (some content') sconfigItemsNew = some x' ∧ x.2 = x'.2 ∧
    (x.2 = 0 → x.1.map.entries = x'.1.map.entries)

section Split
variable {lines : List (List UInt8)} {last content : List UInt8}

theorem joinLines_concat (lines : List (List UInt8)) (last : List UInt8) :
    joinLines (lines ++ [last]) = joinLines lines ++ (last ++ [charNewline]) := by
  rw [joinLines, List.map_append, List.flatten_append, List.map_singleton, List.flatten_singleton]
  rfl

theorem fileLines_last (h : ∀ line ∈ lines, charNewline ∉ line) (hlast : charNewline ∉ last)
    (hne : last ≠ []) : fileLines (joinLines lines ++ last) = lines ++ [last] := by
  induction lines with
  | nil =>
    change fileLines last = [last]
    induction last with
    | nil => exact absurd rfl hne
    | cons c last ih =>
      rw [List.mem_cons, not_or] at hlast
      rw [fileLines, if_neg (Ne.symm hlast.1)]
      cases last with
      | nil => rfl
      | cons d last => rw [ih hlast.2 (List.cons_ne_nil _ _)]
  | cons line lines ih =>
    rw [List.forall_mem_cons] at h
    rw [joinLines_cons, List.append_assoc, List.cons_append, fileLines_line h.1, ih h.2,
      List.cons_append]

theorem exists_last (hnul : (0 : UInt8) ∉ content) (hne : content ≠ [])
    (hend : content.getLast? ≠ some charNewline) :
    ∃ lines last, content = joinLines lines ++ last ∧ last ≠ [] ∧
      ∀ line ∈ lines ++ [last], (0 : UInt8) ∉ line ∧ charNewline ∉ line := by
  have htext : TextFile (content ++ [charNewline]) := by
    refine ⟨?_, Or.inr List.getLast?_concat⟩
    rw [List.mem_append, not_or]
    exact ⟨hnul, by decide⟩
  obtain ⟨all, heq, hall⟩ := htext.exists_lines
  rcases List.eq_nil_or_concat' all with rfl | ⟨lines, last, rfl⟩
  · exact absurd heq (by simp [joinLines])
  · rw [joinLines_concat, ← List.append_assoc] at heq
    have hcontent : content = joinLines lines ++ last := (List.append_inj' heq rfl).1
    refine ⟨lines, last, hcontent, ?_, hall⟩
    rintro rfl
    rw [List.append_nil] at hcontent
    rcases List.eq_nil_or_concat' lines with rfl | ⟨lines', line, rfl⟩
    · exact hne hcontent
    · refine hend ?_
      rw [hcontent, joinLines_concat, ← List.append_assoc, List.getLast?_concat]

end Split

section Load
variable {lines : List (List UInt8)} {last : List UInt8}

theorem fgetsRead_last {n : Nat} (hlast : charNewline ∉ last) (hlen : last.length < n) :
    fgetsRead n last = (last, ⟨[], true⟩) := by
  induction last generalizing n with
  | nil =>
    cases n with
    | zero => exact absurd hlen (Nat.not_lt_zero _)
    | succ n => rfl
  | cons c last ih =>
    cases n with
    | zero => exact absurd hlen (Nat.not_lt_zero _)
    | succ n =>
      rw [List.mem_cons, not_or] at hlast
      rw [fgetsRead, if_neg (Ne.symm hlast.1), ih hlast.2 (Nat.lt_of_succ_lt_succ hlen)]

/-- The last line is taken for one too long, with the end of the file already met. -/
theorem sconfigLoadLoop_last (hne : last ≠ []) (hnul : (0 : UInt8) ∉ last)
    (hlast : charNewline ∉ last) (hlen : last.length ≤ 4094) (fuel : Nat) (items : SconfigItems) :
    sconfigLoadLoop (fuel+1) ⟨last, false⟩ items = some (⟨[], true⟩, items) := by
  have hgets : fgets 4096 ⟨last, false⟩ = (⟨[], true⟩, some (last ++ [0])) := by
    rw [fgets, fgetsRead_last hlast (Nat.lt_succ_of_le hlen)]
    dsimp only
    rw [if_neg hne]
    rfl
  obtain ⟨l, c, rfl⟩ := (List.eq_nil_or_concat' last).resolve_left hne
  have hc : c ≠ charNewline := fun h => hlast (by rw [h]; simp)
  have hcur : (l ++ [c] ++ [0]).getD l.length 0 = c := by simp
  rw [sconfigLoadLoop, hgets]
  dsimp only
  rw [strlen_append_nul hnul, List.length_append, List.length_singleton,
    if_neg (Nat.succ_ne_zero _), Nat.add_sub_cancel, hcur, if_pos hc]

theorem loadLines_concat (m : SortedMap Key (List UInt8))
    (hlen : ∀ line ∈ lines ++ [last], line.length ≤ 4094) :
    loadLines m (lines ++ [last]) =
      (loadLines m lines).bind fun m => loadEntry m (lineEntry last) := by
  induction lines generalizing m with
  | nil =>
    rw [List.nil_append, loadLines_cons (hlen last (by simp)), loadLines, Option.bind_some]
    exact Option.bind_fun_some _
  | cons line lines ih =>
    rw [List.cons_append, List.forall_mem_cons] at hlen
    rw [List.cons_append, loadLines_cons hlen.1, loadLines_cons hlen.1, Option.bind_assoc]
    exact congrArg _ (funext fun m => ih m hlen.2)

theorem sconfigLoad_lines (h : ∀ line ∈ lines, (0 : UInt8) ∉ line ∧ charNewline ∉ line) :
    ∃ x, sconfigLoad (some (joinLines lines)) sconfigItemsNew = some x ∧
      match loadLines sconfigItemsNew.map lines with
      | none => x.2 = -1
      | some m => x.2 = 0 ∧ x.1.map = m := by
  obtain ⟨fp, items, hloop, hend⟩ := sconfigLoadLoop_lines h
    (Nat.lt_succ_of_le (length_joinLines lines)) sconfigItemsNew
  refine ⟨(items, if fp.eof then 0 else -1), by rw [sconfigLoad, hloop]; rfl, ?_⟩
  rcases hend with ⟨hnone, heof⟩ | ⟨hsome, heof, -⟩
  · rw [hnone, heof]
    rfl
  · rw [hsome, heof]
    exact ⟨rfl, rfl⟩

/-- A last line without its newline is dropped, whatever lines are in front of it. -/
theorem sconfigLoad_last (h : ∀ line ∈ lines, (0 : UInt8) ∉ line ∧ charNewline ∉ line)
    (hne : last ≠ []) (hnul : (0 : UInt8) ∉ last) (hlast : charNewline ∉ last)
    (hlen : last.length ≤ 4094) :
    ∃ x, sconfigLoad (some (joinLines lines ++ last)) sconfigItemsNew = some x ∧
      match loadLines sconfigItemsNew.map lines with
      | none => x.2 = -1
      | some m => x.2 = 0 ∧ x.1.map = m := by
  have hcount := length_joinLines lines
  obtain ⟨more, hmore⟩ : ∃ n, (joinLines lines ++ last).length + 1 = lines.length + (n + 1) :=
    ⟨(joinLines lines ++ last).length - lines.length, by rw [List.length_append]; omega⟩
  have hjoin := sconfigLoadLoop_join h last (more + 1) sconfigItemsNew
  rw [← hmore] at hjoin
  cases hload : loadLines sconfigItemsNew.map lines with
  | none =>
    rw [hload] at hjoin
    obtain ⟨fp, items, heof, hloop⟩ := hjoin
    refine ⟨(items, -1), ?_, rfl⟩
    rw [sconfigLoad, hloop]
    exact congrArg (fun eof : Bool => some (items, if eof then (0 : Int) else -1)) heof
  | some m =>
    rw [hload] at hjoin
    refine ⟨({ sconfigItemsNew with map := m }, 0), ?_, rfl, rfl⟩
    rw [sconfigLoad, hjoin.trans (sconfigLoadLoop_last hne hnul hlast hlen more _)]
    rfl

theorem loadEntry_same {m : SortedMap Key (List UInt8)} :
    (∃ m', loadEntry m (lineEntry last) = some m' ∧ m.entries = m'.entries) ↔
      (parseLine last).ret = 0 := by
  rw [lineEntry]
  by_cases hret : (parseLine last).ret = -1
  · rw [if_pos hret]
    exact iff_of_false nofun (by omega)
  · rw [if_neg hret]
    by_cases hret0 : (parseLine last).ret = 0
    · rw [if_pos hret0]
      exact iff_of_true ⟨m, rfl, rfl⟩ hret0
    · rw [if_neg hret0, loadEntry]
      refine iff_of_false ?_ hret0
      rintro ⟨m', hm', heq⟩
      split at hm'
      · cases hm'
      · next hkey =>
        have hlength := (SortedMap.insert_perm hkey
          (cString (parseLine last).buffer (parseLine last).value)).length_eq
        rw [Option.some.inj hm', ← heq, List.length_cons] at hlength
        omega

theorem parseLine_blank (hnul : (0 : UInt8) ∉ last) : (parseLine last).ret = 0 ↔ BlankLine last :=
  sconfigParseLine_zero [0] hnul

end Load

/-- A missing last newline makes no difference if and only if a line before is refused anyway or
the last line is blank or a comment: the last line is not looked at. -/
theorem sconfig_last_line {content : List UInt8} (hne : content ≠ []) (hnul : (0 : UInt8) ∉ content)
    (hend : content.getLast? ≠ some charNewline)
    (hshort : ∀ line ∈ fileLines content, line.length ≤ 4094) :
    SameLoad content (content ++ [charNewline]) ↔
      ¬ Accepted (joinLines (fileLines content).dropLast) ∨
        BlankLine ((fileLines content).getLastD []) := by
  obtain ⟨lines, last, rfl, hlast, hall⟩ := exists_last hnul hne hend
  have hlines (line) (hl : line ∈ lines) := hall line (List.mem_append_left _ hl)
  obtain ⟨hlnul, hlline⟩ := hall last (List.mem_append_right _ (List.mem_singleton_self last))
  have hsplit := fileLines_last (fun line hl => (hlines line hl).2) hlline hlast
  rw [hsplit] at hshort ⊢
  have hlen := hshort last (List.mem_append_right _ (List.mem_singleton_self last))
  obtain ⟨x, hx, hret⟩ := sconfigLoad_last hlines hlast hlnul hlline hlen
  obtain ⟨x', hx', hret'⟩ := sconfigLoad_lines hall
  rw [joinLines_concat, ← List.append_assoc] at hx'
  rw [loadLines_concat _ hshort] at hret'
  rw [List.dropLast_concat, List.getLastD_concat,
    ← loadLines_accepted fun line hl => (hlines line hl).2]
  have hsame : SameLoad (joinLines lines ++ last) (joinLines lines ++ last ++ [charNewline]) ↔
      x.2 = x'.2 ∧ (x.2 = 0 → x.1.map.entries = x'.1.map.entries) := by
    constructor
    · rintro ⟨y, y', hy, hy', h⟩
      rw [hx, Option.some.injEq] at hy
      rw [hx', Option.some.injEq] at hy'
      rwa [hy, hy']
    · exact fun h => ⟨x, x', hx, hx', h⟩
  rw [hsame]
  cases hload : loadLines sconfigItemsNew.map lines with
  | none =>
    rw [hload] at hret hret'
    change x.2 = -1 at hret
    change x'.2 = -1 at hret'
    rw [hret, hret']
    exact iff_of_true ⟨rfl, nofun⟩ (Or.inl nofun)
  | some m =>
    rw [hload] at hret hret'
    obtain ⟨hx2, hmap⟩ := hret
    rw [Option.bind_some] at hret'
    rw [hx2, hmap, ← parseLine_blank hlnul, ← loadEntry_same (m := m),
      or_iff_right (fun h => h rfl)]
    cases hload' : loadEntry m (lineEntry last) with
    | none =>
      rw [hload'] at hret'
      change x'.2 = -1 at hret'
      rw [hret']
      exact iff_of_false (fun h => absurd h.1 (by decide)) nofun
    | some m' =>
      rw [hload'] at hret'
      rw [hret'.1, hret'.2]
      constructor
      · exact fun h => ⟨m', rfl, h.2 rfl⟩
      · rintro ⟨m'', heq, h⟩
        cases heq
        exact ⟨rfl, fun _ => h⟩

/-- The file `a=1` without a newline is loaded as an empty one. -/
theorem sconfig_last_line_dropped : ∃ content : List UInt8, content ≠ [] ∧ (0 : UInt8) ∉ content ∧
    content.getLast? ≠ some charNewline ∧ (∀ line ∈ fileLines content, line.length ≤ 4094) ∧
    ¬ SameLoad content (content ++ [charNewline]) := by
  refine ⟨[97, 61, 49], by decide, by decide, by decide, by decide, ?_⟩
  rintro ⟨x, x', hx, hx', hret, hmap⟩
  have hload : (sconfigLoad (some [97, 61, 49]) sconfigItemsNew).map
      (fun x => (x.1.map.entries, x.2)) = some ([], 0) := by decide +kernel
  have hload' : (sconfigLoad (some [97, 61, 49, 10]) sconfigItemsNew).map
      (fun x => (x.1.map.entries, x.2)) = some ([(sconfigKey [97], [49])], 0) := by decide +kernel
  rw [hx, Option.map_some, Option.some.injEq, Prod.mk.injEq] at hload
  change sconfigLoad (some [97, 61, 49, 10]) sconfigItemsNew = some x' at hx'
  rw [hx', Option.map_some, Option.some.injEq, Prod.mk.injEq] at hload'
  have heq := hmap hload.2
  rw [hload.1, hload'.1] at heq
  cases heq

/-- A pair, and a comment without a newline. -/
theorem sconfig_last_line_sample :
    SameLoad [97, 61, 10, 35, 98] ([97, 61, 10, 35, 98] ++ [charNewline]) :=
  (sconfig_last_line (by decide) (by decide) (by decide) (by decide)).mpr
    (Or.inr ⟨[], [35, 98], by decide +kernel, nofun, Or.inr rfl⟩)

end SimpleKit
