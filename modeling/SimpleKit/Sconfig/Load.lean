import SimpleKit.Sconfig.Model

/-!
What `_sconfig_load` makes of a file: line by line, and what of the file it accepts. The end of
the file shows when fgets finds nothing, so only to a loop that no line has ended.
-/
set_option autoImplicit false

namespace SimpleKit
open SortedBy

/-- The lines of a text; what comes after the last newline, if anything, is one too. -/
def fileLines : List UInt8 → List (List UInt8)
  | [] => []
  | c :: rest =>
    if c = charNewline then [] :: fileLines rest
    else
      match fileLines rest with
      | [] => [[c]]
      | line :: lines => (c :: line) :: lines

def joinLines (lines : List (List UInt8)) : List UInt8 :=
  (lines.map fun line => line ++ [charNewline]).flatten

/-- No NUL is in it, and every line ends in a newline. -/
def TextFile (content : List UInt8) : Prop :=
  (0 : UInt8) ∉ content ∧ (content = [] ∨ content.getLast? = some charNewline)

instance (content : List UInt8) : Decidable (TextFile content) :=
  inferInstanceAs (Decidable (_ ∧ _))

/-- A line is parsed in the buffer, with a NUL in place of its newline, before that of fgets. -/
def parseLine (line : List UInt8) : ParsedLine := sconfigParseLine (line ++ [0, 0]) line.length

/-- The name and the value of a line, or that it has none, or that it is refused. -/
def lineEntry (line : List UInt8) : Option (Option (List UInt8 × List UInt8)) :=
  let x := parseLine line
  if x.ret = -1 then none
  else if x.ret = 0 then some none
  else some (some (cString x.buffer x.name, cString x.buffer x.value))

def linePairs (lines : List (List UInt8)) : List (List UInt8 × List UInt8) :=
  lines.filterMap fun line => (lineEntry line).join

def filePairs (content : List UInt8) : List (List UInt8 × List UInt8) :=
  linePairs (fileLines content)

/-- Every line fits into the buffer and is blank, a comment or a name with a value, and no name
occurs twice. -/
structure Accepted (content : List UInt8) : Prop where
  short : ∀ line ∈ fileLines content, line.length ≤ 4094
  parsed : ∀ line ∈ fileLines content, (parseLine line).ret ≠ -1
  names : ((filePairs content).map Prod.fst).Nodup

section Lines

theorem fileLines_line {line : List UInt8} (h : charNewline ∉ line) (rest : List UInt8) :
    fileLines (line ++ charNewline :: rest) = line :: fileLines rest := by
  induction line with
  | nil => exact if_pos rfl
  | cons c line ih =>
    rw [List.mem_cons, not_or] at h
    rw [List.cons_append, fileLines, if_neg (Ne.symm h.1), ih h.2]

theorem fileLines_join {lines : List (List UInt8)} (h : ∀ line ∈ lines, charNewline ∉ line) :
    fileLines (joinLines lines) = lines := by
  induction lines with
  | nil => rfl
  | cons line lines ih =>
    rw [List.forall_mem_cons] at h
    rw [joinLines, List.map_cons, List.flatten_cons, List.append_assoc, List.singleton_append,
      fileLines_line h.1]
    exact congrArg _ (ih h.2)

theorem TextFile.exists_lines {content : List UInt8} (h : TextFile content) :
    ∃ lines, content = joinLines lines ∧
      ∀ line ∈ lines, (0 : UInt8) ∉ line ∧ charNewline ∉ line := by
  obtain ⟨hnul, hend⟩ := h
  induction content with
  | nil => exact ⟨[], rfl, fun line hl => absurd hl List.not_mem_nil⟩
  | cons c rest ih =>
    rw [List.mem_cons, not_or] at hnul
    have hend' : rest = [] ∨ rest.getLast? = some charNewline := by
      cases rest with
      | nil => exact Or.inl rfl
      | cons d rest => exact Or.inr (hend.resolve_left (List.cons_ne_nil _ _))
    obtain ⟨lines, rfl, hlines⟩ := ih hnul.2 hend'
    by_cases hc : c = charNewline
    · refine ⟨[] :: lines, by rw [hc]; rfl, fun line hl => ?_⟩
      rcases List.mem_cons.mp hl with rfl | hl
      · exact ⟨List.not_mem_nil, List.not_mem_nil⟩
      · exact hlines line hl
    · cases lines with
      | nil =>
        have hlast := hend.resolve_left (List.cons_ne_nil _ _)
        exact absurd (Option.some.inj hlast) hc
      | cons line lines =>
        refine ⟨(c :: line) :: lines, rfl, fun line' hl => ?_⟩
        rw [List.forall_mem_cons] at hlines
        rcases List.mem_cons.mp hl with rfl | hl
        · rw [List.mem_cons, List.mem_cons, not_or, not_or]
          exact ⟨⟨hnul.1, hlines.1.1⟩, Ne.symm hc, hlines.1.2⟩
        · exact hlines.2 line' hl

end Lines

section Fgets

theorem fgetsRead_line {n : Nat} {line : List UInt8} (h : charNewline ∉ line)
    (rest : List UInt8) :
    fgetsRead n (line ++ charNewline :: rest) =
      if line.length < n then (line ++ [charNewline], ⟨rest, false⟩)
      else (line.take n, ⟨line.drop n ++ charNewline :: rest, false⟩) := by
  induction line generalizing n with
  | nil =>
    cases n with
    | zero => rfl
    | succ n =>
      rw [List.length_nil, if_pos (Nat.succ_pos n)]
      exact if_pos rfl
  | cons c line ih =>
    rw [List.mem_cons, not_or] at h
    cases n with
    | zero => rfl
    | succ n =>
      rw [List.cons_append, fgetsRead, if_neg (Ne.symm h.1), ih h.2]
      simp only [List.length_cons, Nat.succ_lt_succ_iff]
      split <;> rfl

theorem strlen_append_nul {l : List UInt8} (h : (0 : UInt8) ∉ l) :
    strlen (l ++ [0]) = l.length := by
  rw [strlen, cString, List.drop_zero, List.takeWhile_append_of_pos]
  · simp
  · intro c hc
    simpa using ne_of_mem_of_not_mem hc h

end Fgets

def loadLines (m : SortedMap Key (List UInt8)) : List (List UInt8) →
    Option (SortedMap Key (List UInt8))
  | [] => some m
  | line :: lines =>
    if 4094 < line.length then none
    else
      match lineEntry line with
      | none => none
      | some none => loadLines m lines
      | some (some (name, value)) =>
        if sconfigKey name ∈ m.keys then none
        else loadLines (m.insert (sconfigKey name) value) lines

def loadEntry (m : SortedMap Key (List UInt8)) :
    Option (Option (List UInt8 × List UInt8)) → Option (SortedMap Key (List UInt8))
  | none => none
  | some none => some m
  | some (some (name, value)) =>
    if sconfigKey name ∈ m.keys then none else some (m.insert (sconfigKey name) value)

theorem loadLines_cons {line : List UInt8} (hlen : line.length ≤ 4094)
    (m : SortedMap Key (List UInt8)) (lines : List (List UInt8)) :
    loadLines m (line :: lines) =
      (loadEntry m (lineEntry line)).bind fun m => loadLines m lines := by
  rw [loadLines, if_neg (Nat.not_lt.mpr hlen)]
  cases lineEntry line with
  | none => rfl
  | some entry =>
    cases entry with
    | none => rfl
    | some pair =>
      dsimp only
      rw [loadEntry]
      by_cases hkey : sconfigKey pair.1 ∈ m.keys
      · rw [if_pos hkey, if_pos hkey, Option.bind_none]
      · rw [if_neg hkey, if_neg hkey, Option.bind_some]

theorem fgets_line {line : List UInt8} (hline : charNewline ∉ line) (rest : List UInt8) :
    fgets 4096 ⟨line ++ charNewline :: rest, false⟩ =
      if 4094 < line.length then
        (⟨line.drop 4095 ++ charNewline :: rest, false⟩, some (line.take 4095 ++ [0]))
      else (⟨rest, false⟩, some (line ++ [charNewline] ++ [0])) := by
  rw [fgets, fgetsRead_line hline]
  by_cases hlen : 4094 < line.length
  · rw [if_pos hlen, if_neg (by omega)]
    have hne : line.take 4095 ≠ [] := by
      refine List.ne_nil_of_length_pos ?_
      rw [List.length_take]
      omega
    simp only [hne, if_false, Bool.or_false]
  · rw [if_neg hlen, if_pos (by omega)]
    simp

theorem sconfigLoadLoop_nil (fuel : Nat) (items : SconfigItems) :
    sconfigLoadLoop (fuel+1) ⟨[], false⟩ items = some (⟨[], true⟩, items) := rfl

theorem sconfigLoadLoop_long {line : List UInt8} (hnul : (0 : UInt8) ∉ line)
    (hline : charNewline ∉ line) (hlen : 4094 < line.length) (rest : List UInt8) (fuel : Nat)
    (items : SconfigItems) :
    sconfigLoadLoop (fuel+1) ⟨line ++ charNewline :: rest, false⟩ items =
      some (⟨line.drop 4095 ++ charNewline :: rest, false⟩, items) := by
  have hstrlen : strlen (line.take 4095 ++ [0]) = 4095 := by
    rw [strlen_append_nul fun hm => hnul (List.mem_of_mem_take hm), List.length_take]
    omega
  have hlast : (line.take 4095 ++ [0]).getD (4095 - 1) 0 ≠ charNewline := by
    have hlt : 4094 < (line.take 4095).length := by
      rw [List.length_take]
      omega
    rw [List.getD_eq_getElem?_getD, List.getElem?_append_left hlt, List.getElem?_eq_getElem hlt,
      Option.getD_some]
    exact ne_of_mem_of_not_mem (List.mem_of_mem_take (List.getElem_mem hlt)) hline
  rw [sconfigLoadLoop, fgets_line hline, if_pos hlen]
  simp only [hstrlen, if_pos hlast]
  rfl

theorem sconfigLoadLoop_short {line : List UInt8} (hnul : (0 : UInt8) ∉ line)
    (hline : charNewline ∉ line) (hlen : line.length ≤ 4094) (rest : List UInt8) (fuel : Nat)
    (items : SconfigItems) :
    sconfigLoadLoop (fuel+1) ⟨line ++ charNewline :: rest, false⟩ items =
      match lineEntry line with
      | none => some (⟨rest, false⟩, items)
      | some none => sconfigLoadLoop fuel ⟨rest, false⟩ items
      | some (some (name, value)) =>
        if sconfigKey name ∈ items.map.keys then some (⟨rest, false⟩, items)
        else sconfigLoadLoop fuel ⟨rest, false⟩
          { items with map := items.map.insert (sconfigKey name) value } := by
  have hstrlen : strlen (line ++ [charNewline] ++ [0]) = line.length + 1 := by
    rw [strlen_append_nul, List.length_append, List.length_singleton]
    rw [List.mem_append, not_or]
    exact ⟨hnul, by decide⟩
  have hlast : (line ++ [charNewline] ++ [0]).getD line.length 0 = charNewline := by simp
  have hset : (line ++ [charNewline] ++ [0]).set line.length 0 = line ++ [0, 0] := by simp
  rw [sconfigLoadLoop, fgets_line hline, if_neg (Nat.not_lt.mpr hlen)]
  dsimp only
  rw [hstrlen, if_neg (Nat.succ_ne_zero _), Nat.add_sub_cancel, hlast, if_neg (not_not.mpr rfl),
    hset]
  change (if (parseLine line).ret = -1 then _ else _) = _
  unfold lineEntry
  dsimp only
  by_cases hbad : (parseLine line).ret = -1
  · rw [if_pos hbad, if_pos hbad]
  · rw [if_neg hbad, if_neg hbad]
    change (if (parseLine line).ret = 0 then _ else _) = _
    by_cases hblank : (parseLine line).ret = 0
    · rw [if_pos hblank, if_pos hblank]
    · rw [if_neg hblank, if_neg hblank]
      rfl

theorem joinLines_cons (line : List UInt8) (lines : List (List UInt8)) :
    joinLines (line :: lines) = line ++ charNewline :: joinLines lines := by
  rw [joinLines, List.map_cons, List.flatten_cons, List.append_assoc, List.singleton_append]
  rfl

/-- The loop breaks at a line that is refused, else it comes to what follows the lines. -/
theorem sconfigLoadLoop_join {lines : List (List UInt8)}
    (h : ∀ line ∈ lines, (0 : UInt8) ∉ line ∧ charNewline ∉ line) (tail : List UInt8) (fuel : Nat)
    (items : SconfigItems) :
    match loadLines items.map lines with
    | none => ∃ fp items', fp.eof = false ∧
      sconfigLoadLoop (lines.length + fuel) ⟨joinLines lines ++ tail, false⟩ items =
        some (fp, items')
    | some m => sconfigLoadLoop (lines.length + fuel) ⟨joinLines lines ++ tail, false⟩ items =
        sconfigLoadLoop fuel ⟨tail, false⟩ { items with map := m } := by
  induction lines generalizing items with
  | nil =>
    rw [List.length_nil, Nat.zero_add]
    rfl
  | cons line lines ih =>
    rw [List.forall_mem_cons] at h
    obtain ⟨⟨hnul, hline⟩, hlines⟩ := h
    have hcount : (line :: lines).length + fuel = (lines.length + fuel) + 1 := by
      rw [List.length_cons]
      omega
    rw [joinLines_cons, List.append_assoc, List.cons_append, loadLines, hcount]
    by_cases hlen : 4094 < line.length
    · rw [sconfigLoadLoop_long hnul hline hlen, if_pos hlen]
      exact ⟨_, _, rfl, rfl⟩
    · rw [sconfigLoadLoop_short hnul hline (Nat.le_of_not_lt hlen), if_neg hlen]
      cases lineEntry line with
      | none => exact ⟨_, _, rfl, rfl⟩
      | some entry =>
        cases entry with
        | none => exact ih hlines items
        | some pair =>
          dsimp only
          by_cases hkey : sconfigKey pair.1 ∈ items.map.keys
          · rw [if_pos hkey, if_pos hkey]
            exact ⟨_, _, rfl, rfl⟩
          · rw [if_neg hkey, if_neg hkey]
            exact ih hlines { items with map := items.map.insert (sconfigKey pair.1) pair.2 }

theorem sconfigLoadLoop_lines {lines : List (List UInt8)}
    (h : ∀ line ∈ lines, (0 : UInt8) ∉ line ∧ charNewline ∉ line) {fuel : Nat}
    (hfuel : lines.length < fuel) (items : SconfigItems) :
    ∃ fp items', sconfigLoadLoop fuel ⟨joinLines lines, false⟩ items = some (fp, items') ∧
      (loadLines items.map lines = none ∧ fp.eof = false ∨
        loadLines items.map lines = some items'.map ∧ fp.eof = true ∧
          items'.iterator = items.iterator) := by
  obtain ⟨more, rfl⟩ : ∃ n, fuel = lines.length + (n + 1) := ⟨fuel - lines.length - 1, by omega⟩
  have hjoin := sconfigLoadLoop_join h [] (more + 1) items
  rw [List.append_nil] at hjoin
  cases hload : loadLines items.map lines with
  | none =>
    rw [hload] at hjoin
    obtain ⟨fp, items', heof, hloop⟩ := hjoin
    exact ⟨fp, items', hloop, Or.inl ⟨rfl, heof⟩⟩
  | some m =>
    rw [hload] at hjoin
    exact ⟨_, _, hjoin.trans (sconfigLoadLoop_nil more _), Or.inr ⟨rfl, rfl, rfl⟩⟩

theorem lineEntry_none {line : List UInt8} : lineEntry line = none ↔ (parseLine line).ret = -1 := by
  unfold lineEntry
  dsimp only
  split
  · next hbad => exact iff_of_true rfl hbad
  · next hgood =>
    refine iff_of_false (fun hn => ?_) hgood
    split at hn <;> cases hn

theorem linePairs_cons {line : List UInt8} {entry : Option (List UInt8 × List UInt8)}
    (h : lineEntry line = some entry) (lines : List (List UInt8)) :
    linePairs (line :: lines) = entry.toList ++ linePairs lines := by
  rw [linePairs, List.filterMap_cons, h]
  cases entry <;> rfl

def keyed (pair : List UInt8 × List UInt8) : Key × List UInt8 := (sconfigKey pair.1, pair.2)

theorem sconfigKey_inj {a b : List UInt8} : sconfigKey a = sconfigKey b ↔ a = b := by
  rw [sconfigKey, sconfigKey, Key.mk.injEq, List.append_left_inj]

/-- The lines are loaded if each of them is good and brings no name that is there. -/
theorem loadLines_spec (m : SortedMap Key (List UInt8)) (lines : List (List UInt8)) :
    ((loadLines m lines).isSome ↔
      (∀ line ∈ lines, line.length ≤ 4094) ∧ (∀ line ∈ lines, (parseLine line).ret ≠ -1) ∧
        ((linePairs lines).map Prod.fst).Nodup ∧
        ∀ name ∈ (linePairs lines).map Prod.fst, sconfigKey name ∉ m.keys) ∧
    ∀ m', loadLines m lines = some m' →
      m'.entries.Perm (m.entries ++ (linePairs lines).map keyed) := by
  induction lines generalizing m with
  | nil =>
    refine ⟨iff_of_true rfl ⟨?_, ?_, List.nodup_nil, ?_⟩, fun m' h => ?_⟩
    · exact fun _ h => absurd h List.not_mem_nil
    · exact fun _ h => absurd h List.not_mem_nil
    · exact fun _ h => absurd h List.not_mem_nil
    · cases h
      rw [linePairs, List.filterMap_nil, List.map_nil, List.append_nil]
  | cons line lines ih =>
    rw [loadLines, List.forall_mem_cons, List.forall_mem_cons]
    by_cases hlen : 4094 < line.length
    · rw [if_pos hlen]
      refine ⟨iff_of_false (fun h => by cases h) fun h => ?_, fun m' h => by cases h⟩
      exact absurd h.1.1 (Nat.not_le.mpr hlen)
    · rw [if_neg hlen, and_iff_right (Nat.le_of_not_lt hlen)]
      cases hentry : lineEntry line with
      | none =>
        refine ⟨iff_of_false (fun h => by cases h) fun h => ?_, fun m' h => by cases h⟩
        exact h.2.1.1 (lineEntry_none.mp hentry)
      | some entry =>
        have hgood : (parseLine line).ret ≠ -1 := fun hbad => by
          rw [lineEntry_none.mpr hbad] at hentry
          cases hentry
        rw [linePairs_cons hentry, and_iff_right hgood]
        cases entry with
        | none => exact ih m
        | some pair =>
          obtain ⟨name, value⟩ := pair
          dsimp only
          simp only [Option.toList_some, List.singleton_append, List.map_cons, List.nodup_cons,
            List.forall_mem_cons]
          by_cases hkey : sconfigKey name ∈ m.keys
          · rw [if_pos hkey]
            refine ⟨iff_of_false (fun h => by cases h) fun h => ?_, fun m' h => by cases h⟩
            exact h.2.2.2.1 hkey
          · rw [if_neg hkey, and_iff_right hkey]
            obtain ⟨hiff, hperm⟩ := ih (m.insert (sconfigKey name) value)
            refine ⟨hiff.trans ?_, fun m' h => ?_⟩
            · simp only [SortedMap.mem_keys_insert hkey, not_or, sconfigKey_inj]
              constructor
              · rintro ⟨h1, h2, h3, h4⟩
                exact ⟨h1, h2, ⟨fun hm => (h4 name hm).1 rfl, h3⟩, fun n hn => (h4 n hn).2⟩
              · rintro ⟨h1, h2, ⟨h3, h4⟩, h5⟩
                exact ⟨h1, h2, h4, fun n hn => ⟨fun he => h3 (he ▸ hn), h5 n hn⟩⟩
            · refine (hperm m' h).trans ?_
              exact ((SortedMap.insert_perm hkey value).append_right _).trans List.perm_middle.symm

end SimpleKit
