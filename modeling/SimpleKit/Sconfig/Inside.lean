import SimpleKit.Sconfig.Grammar

set_option autoImplicit false

namespace SimpleKit
open SortedBy

def ParsedLine.entry (x : ParsedLine) : Option (Option (List UInt8 × List UInt8)) :=
  if x.ret = -1 then none
  else if x.ret = 0 then some none
  else some (some (cString x.buffer x.name, cString x.buffer x.value))

/-- What a round makes of the string in the buffer: a fault, `break`, or the items. -/
def loadString (s : List UInt8) (items : SconfigItems) : Option (Option SconfigItems) :=
  match s.getLast? with
  | none => none
  | some c =>
    if c ≠ charNewline then some none
    else some ((loadEntry items.map (lineEntry s.dropLast)).map fun m => { items with map := m })

def loadStrings : Nat → CFile → SconfigItems → Except LoadFault (CFile × SconfigItems)
  | 0, _, _ => .error .fuel
  | fuel+1, fp, items =>
    let (fp, line) := fgets 4096 fp
    match line with
    | none => .ok (fp, items)
    | some line =>
      match loadString (cString line 0) items with
      | none => .error .outside
      | some none => .ok (fp, items)
      | some (some items) => loadStrings fuel fp items

section Round
variable {line s junk : List UInt8}

theorem stringAt_eq {buffer t : List UInt8} {i : Nat} (h : stringAt buffer i = some t) :
    cString buffer i = t := by
  rw [stringAt] at h
  split at h
  · exact Option.some.inj h
  · cases h

theorem PairLine.entry {blanks name rest : List UInt8} (h : PairLine line blanks name rest)
    (hnul : (0 : UInt8) ∉ line) (junk : List UInt8) :
    (sconfigParseLine (line ++ 0 :: junk) line.length).entry =
      some (some (name, lineValue rest)) := by
  obtain ⟨hret, hname, hvalue⟩ := h.parse junk hnul
  rw [ParsedLine.entry, stringAt_eq hname, stringAt_eq hvalue, hret]
  split <;> rfl

/-- What is in the buffer behind a line makes no difference. -/
theorem lineEntry_eq (hnul : (0 : UInt8) ∉ line) (junk : List UInt8) :
    (sconfigParseLine (line ++ 0 :: junk) line.length).entry = lineEntry line := by
  change _ = (sconfigParseLine (line ++ 0 :: [0]) line.length).entry
  by_cases hblank : BlankLine line
  · rw [ParsedLine.entry, ParsedLine.entry, hblank.parse, hblank.parse]
    rfl
  · by_cases hpair : ∃ blanks name rest, PairLine line blanks name rest
    · obtain ⟨blanks, name, rest, hpair⟩ := hpair
      rw [hpair.entry hnul, hpair.entry hnul]
    · rw [ParsedLine.entry, ParsedLine.entry, sconfigParseLine_refused hnul hblank hpair,
        sconfigParseLine_refused hnul hblank hpair]
      rfl

theorem sconfigParseLine_strings (hnul : (0 : UInt8) ∉ line)
    (hret : ¬ (sconfigParseLine (line ++ 0 :: junk) line.length).ret = -1)
    (hret0 : ¬ (sconfigParseLine (line ++ 0 :: junk) line.length).ret = 0) :
    let x := sconfigParseLine (line ++ 0 :: junk) line.length
    stringAt x.buffer x.name = some (cString x.buffer x.name) ∧
      stringAt x.buffer x.value = some (cString x.buffer x.value) := by
  by_cases hblank : BlankLine line
  · exact absurd hblank.parse hret0
  · by_cases hpair : ∃ blanks name rest, PairLine line blanks name rest
    · obtain ⟨blanks, name, rest, hpair⟩ := hpair
      obtain ⟨-, hname, hvalue⟩ := hpair.parse junk hnul
      exact ⟨hname.trans (congrArg some (stringAt_eq hname).symm),
        hvalue.trans (congrArg some (stringAt_eq hvalue).symm)⟩
    · exact absurd (sconfigParseLine_refused hnul hblank hpair) hret

theorem stringAt_zero (hs : (0 : UInt8) ∉ s) (junk : List UInt8) :
    stringAt (s ++ 0 :: junk) 0 = some s := stringAt_append [] hs junk

theorem sconfigParseValue_length (buffer : List UInt8) (len name i : Nat) :
    (sconfigParseValue buffer len name i).buffer.length = buffer.length := by
  rw [sconfigParseValue]
  split
  · exact List.length_set
  · split
    · exact List.length_set.trans List.length_set
    · split
      · exact List.length_set
      · exact List.length_set.trans List.length_set

theorem sconfigParseLine_length (buffer : List UInt8) (len : Nat) :
    (sconfigParseLine buffer len).buffer.length = buffer.length := by
  rw [sconfigParseLine]
  split
  · rfl
  · split
    · rfl
    · split
      · rfl
      · split
        · rfl
        · exact sconfigParseValue_length _ _ _ _

/-- The last byte of the string, if there is one, is read; an empty string has none. A round leaves
the buffer as long as it was. -/
theorem sconfigLoadLineAt_spec (hs : (0 : UInt8) ∉ s) (items : SconfigItems) :
    sconfigLoadLineAt (s ++ 0 :: junk) items = none ∧ loadString s items = none ∨
      ∃ buffer r, sconfigLoadLineAt (s ++ 0 :: junk) items = some (buffer, r) ∧
        loadString s items = some r ∧ buffer.length = (s ++ 0 :: junk).length := by
  rw [sconfigLoadLineAt, stringAt_zero hs]
  simp only [Option.bind_eq_bind, Option.bind_some]
  rcases List.eq_nil_or_concat' s with rfl | ⟨line, c, rfl⟩
  · exact Or.inl ⟨rfl, rfl⟩
  · refine Or.inr ?_
    have hlen : ((line ++ [c]).length : Int) - 1 = (line.length : Nat) := by
      rw [List.length_append, List.length_singleton]
      omega
    have hlist : line ++ [c] ++ 0 :: junk = line ++ c :: 0 :: junk := by simp
    have hlt : line.length < (line ++ c :: 0 :: junk).length := by simp
    have hset : (line ++ c :: 0 :: junk).set line.length 0 = line ++ 0 :: 0 :: junk := by simp
    have hlen' : (line ++ 0 :: 0 :: junk).length = (line ++ c :: 0 :: junk).length := by simp
    have hnul : (0 : UInt8) ∉ line := fun h => hs (List.mem_append_left _ h)
    rw [hlen, hlist, readAt_eq hlt, getD_append_cons, loadString, List.getLast?_concat,
      List.dropLast_concat]
    simp only [Option.bind_some]
    by_cases hc : c ≠ charNewline
    · rw [if_pos hc, if_pos hc]
      exact ⟨_, _, rfl, rfl, rfl⟩
    · rw [if_neg hc, if_neg hc, writeAt_eq hlt, hset]
      simp only [Option.bind_some, Int.toNat_natCast]
      rw [sconfigParseLineAt_eq (by simp), ← lineEntry_eq hnul (0 :: junk), ParsedLine.entry]
      simp only [Option.bind_some]
      have hkeep := (sconfigParseLine_length (line ++ 0 :: 0 :: junk) line.length).trans hlen'
      by_cases hret : (sconfigParseLine (line ++ 0 :: 0 :: junk) line.length).ret = -1
      · rw [if_pos hret, if_pos hret]
        exact ⟨_, _, rfl, rfl, hkeep⟩
      · rw [if_neg hret, if_neg hret]
        by_cases hret0 : (sconfigParseLine (line ++ 0 :: 0 :: junk) line.length).ret = 0
        · rw [if_pos hret0, if_pos hret0]
          exact ⟨_, _, rfl, rfl, hkeep⟩
        · obtain ⟨hname, hvalue⟩ := sconfigParseLine_strings hnul hret hret0
          rw [if_neg hret0, if_neg hret0, hname, hvalue, loadEntry]
          simp only [Option.bind_some]
          split
          · exact ⟨_, _, rfl, rfl, hkeep⟩
          · exact ⟨_, _, rfl, rfl, hkeep⟩

end Round

section Loop

theorem fgetsRead_length (n : Nat) (rest : List UInt8) : (fgetsRead n rest).1.length ≤ n := by
  induction n generalizing rest with
  | zero => exact Nat.le_refl 0
  | succ n ih =>
    cases rest with
    | nil => exact Nat.zero_le _
    | cons c rest =>
      rw [fgetsRead]
      split
      · exact Nat.succ_le_succ (Nat.zero_le n)
      · exact Nat.succ_le_succ (ih rest)

theorem fgets_some {fp fp' : CFile} {line : List UInt8} (h : fgets 4096 fp = (fp', some line)) :
    line.length ≤ 4096 ∧
      ∃ s junk, line = s ++ 0 :: junk ∧ (0 : UInt8) ∉ s ∧ cString line 0 = s := by
  have hread := fgetsRead_length 4095 fp.rest
  rw [fgets] at h
  obtain ⟨-, hline⟩ := Prod.mk.inj h
  split at hline
  · cases hline
  · obtain rfl := Option.some.inj hline
    refine ⟨?_, ?_⟩
    · rw [List.length_append, List.length_singleton]
      exact Nat.succ_le_succ hread
    · obtain ⟨s, junk, heq, hs⟩ := List.eq_append_cons_of_mem
        (List.mem_append_right (fgetsRead (4096 - 1) fp.rest).1
          (List.mem_singleton_self (0 : UInt8)))
      rw [heq]
      exact ⟨s, junk, rfl, hs, stringAt_eq (stringAt_zero hs junk)⟩

theorem sconfigLoadLoopAt_eq (fuel : Nat) (fp : CFile) {buffer : List UInt8}
    (hb : buffer.length = 4096) (items : SconfigItems) :
    sconfigLoadLoopAt fuel fp buffer items = loadStrings fuel fp items := by
  induction fuel generalizing fp buffer items with
  | zero => rfl
  | succ fuel ih =>
    rw [sconfigLoadLoopAt, loadStrings]
    cases hgets : fgets 4096 fp with
    | mk fp' line =>
      cases line with
      | none => rfl
      | some line =>
        obtain ⟨hlen, s, junk, rfl, hs, hstring⟩ := fgets_some hgets
        have hfill : fillAt buffer (s ++ 0 :: junk) =
            some (s ++ 0 :: (junk ++ buffer.drop (s ++ 0 :: junk).length)) := by
          rw [fillAt, if_pos (by omega)]
          simp
        dsimp only
        rw [hfill, hstring]
        dsimp only [Option.bind_some]
        rcases sconfigLoadLineAt_spec hs items with
          ⟨hnone, hspec⟩ | ⟨buffer', r, hsome, hspec, hlen'⟩
        · rw [hnone, hspec]
        · rw [hsome, hspec]
          cases r with
          | none => rfl
          | some items' =>
            refine ih fp' ?_ items'
            simp only [List.length_append, List.length_cons, List.length_drop] at hlen hlen'
            omega

/-- The other model of the loop makes the same rounds, and does not tell the faults apart. -/
theorem sconfigLoadLoop_eq (fuel : Nat) (fp : CFile) (items : SconfigItems) :
    sconfigLoadLoop fuel fp items = (loadStrings fuel fp items).toOption := by
  induction fuel generalizing fp items with
  | zero => rfl
  | succ fuel ih =>
    rw [sconfigLoadLoop, loadStrings]
    cases hgets : fgets 4096 fp with
    | mk fp' line =>
      cases line with
      | none => rfl
      | some buffer =>
        obtain ⟨-, s, junk, rfl, hs, hstring⟩ := fgets_some hgets
        dsimp only
        rw [strlen, hstring]
        rcases List.eq_nil_or_concat' s with rfl | ⟨line, c, rfl⟩
        · rfl
        · have hlen : (line ++ [c]).length = line.length + 1 := by simp
          have hlist : line ++ [c] ++ 0 :: junk = line ++ c :: 0 :: junk := by simp
          have hset : (line ++ c :: 0 :: junk).set line.length 0 = line ++ 0 :: 0 :: junk := by simp
          have hnul : (0 : UInt8) ∉ line := fun h => hs (List.mem_append_left _ h)
          rw [hlen, if_neg (Nat.succ_ne_zero _), Nat.add_sub_cancel, hlist, getD_append_cons, hset,
            loadString, List.getLast?_concat, List.dropLast_concat, ← lineEntry_eq hnul (0 :: junk),
            ParsedLine.entry]
          dsimp only
          split
          · rfl
          · split
            · rfl
            · split
              · exact ih fp' items
              · rw [loadEntry]
                split
                · rfl
                · exact ih fp' _

end Loop

/-- Every line fits into the buffer and is not malformed, and no name is there before it. -/
def LinesAccepted (m : SortedMap Key (List UInt8)) (lines : List (List UInt8)) : Prop :=
  (∀ line ∈ lines, line.length ≤ 4094) ∧ (∀ line ∈ lines, (parseLine line).ret ≠ -1) ∧
    ((linePairs lines).map Prod.fst).Nodup ∧
    ∀ name ∈ (linePairs lines).map Prod.fst, sconfigKey name ∉ m.keys

/-- A line that the load comes to begins with a NUL byte: all lines before it are accepted. -/
def ReachesNul (m : SortedMap Key (List UInt8)) (content : List UInt8) : Prop :=
  ∃ lines rest, content = joinLines lines ++ 0 :: rest ∧
    (∀ line ∈ lines, (0 : UInt8) ∉ line ∧ charNewline ∉ line) ∧ LinesAccepted m lines

section Reaches
variable {m : SortedMap Key (List UInt8)} {line rest content : List UInt8}

theorem linesAccepted_iff {lines : List (List UInt8)} :
    LinesAccepted m lines ↔ (loadLines m lines).isSome = true := (loadLines_spec m lines).1.symm

theorem append_cons_unique {d : UInt8} {a b x y : List UInt8} (ha : d ∉ a) (hb : d ∉ b)
    (h : a ++ d :: x = b ++ d :: y) : a = b ∧ x = y := by
  induction a generalizing b with
  | nil =>
    cases b with
    | nil => exact ⟨rfl, (List.cons.inj h).2⟩
    | cons c b => exact absurd (by rw [(List.cons.inj h).1]; exact List.mem_cons_self) hb
  | cons c a ih =>
    cases b with
    | nil => exact absurd (by rw [← (List.cons.inj h).1]; exact List.mem_cons_self) ha
    | cons e b =>
      obtain ⟨rfl, htail⟩ := List.cons.inj h
      obtain ⟨rfl, rfl⟩ := ih (fun hm => ha (List.mem_cons_of_mem c hm))
        (fun hm => hb (List.mem_cons_of_mem c hm)) htail
      exact ⟨rfl, rfl⟩

/-- What is not a NUL byte at first is reached past an accepted first line, if at all. -/
theorem ReachesNul.exists_line (h : ReachesNul m content) (hhead : content.head? ≠ some 0) :
    ∃ line lines rest, content = line ++ charNewline :: (joinLines lines ++ 0 :: rest) ∧
      (0 : UInt8) ∉ line ∧ charNewline ∉ line ∧
      (∀ l ∈ lines, (0 : UInt8) ∉ l ∧ charNewline ∉ l) ∧
      (loadLines m (line :: lines)).isSome = true := by
  obtain ⟨lines, rest, rfl, hlines, hacc⟩ := h
  have hsome := linesAccepted_iff.mp hacc
  cases lines with
  | nil => exact absurd rfl hhead
  | cons line lines =>
    rw [List.forall_mem_cons] at hlines
    refine ⟨line, lines, rest, ?_, hlines.1.1, hlines.1.2, hlines.2, hsome⟩
    rw [joinLines_cons, List.append_assoc, List.cons_append]

theorem reachesNul_line (hnul : (0 : UInt8) ∉ line) (hline : charNewline ∉ line)
    (hshort : line.length ≤ 4094) : ReachesNul m (line ++ charNewline :: rest) ↔
      ∃ m', loadEntry m (lineEntry line) = some m' ∧ ReachesNul m' rest := by
  have hhead : (line ++ charNewline :: rest).head? ≠ some 0 := by
    cases line with
    | nil => exact fun h => absurd (Option.some.inj h) (by decide)
    | cons c line => exact fun h => hnul (by rw [Option.some.inj h]; exact List.mem_cons_self)
  constructor
  · intro h
    obtain ⟨line', lines, rest', heq, -, hline', hlines, hsome⟩ := h.exists_line hhead
    obtain ⟨rfl, rfl⟩ := append_cons_unique hline hline' heq
    rw [loadLines_cons hshort] at hsome
    cases hentry : loadEntry m (lineEntry line) with
    | none =>
      rw [hentry] at hsome
      cases hsome
    | some m' =>
      rw [hentry, Option.bind_some] at hsome
      exact ⟨m', rfl, lines, rest', rfl, hlines, linesAccepted_iff.mpr hsome⟩
  · rintro ⟨m', hentry, lines, rest', rfl, hlines, hacc⟩
    refine ⟨line :: lines, rest', ?_, List.forall_mem_cons.mpr ⟨⟨hnul, hline⟩, hlines⟩,
      linesAccepted_iff.mpr ?_⟩
    · rw [joinLines_cons, List.append_assoc, List.cons_append]
    · rw [loadLines_cons hshort, hentry, Option.bind_some]
      exact linesAccepted_iff.mp hacc

theorem fgetsRead_cases (n : Nat) (content : List UInt8) :
    (∃ line rest, content = line ++ charNewline :: rest ∧ charNewline ∉ line ∧ line.length < n ∧
      fgetsRead n content = (line ++ [charNewline], ⟨rest, false⟩)) ∨
    charNewline ∉ (fgetsRead n content).1 ∧ (fgetsRead n content).1 = content.take n ∧
      ∀ line rest, content = line ++ charNewline :: rest → charNewline ∉ line →
        n ≤ line.length := by
  induction n generalizing content with
  | zero =>
    exact Or.inr ⟨List.not_mem_nil, by rw [List.take_zero]; rfl, fun _ _ _ _ => Nat.zero_le _⟩
  | succ n ih =>
    cases content with
    | nil =>
      refine Or.inr ⟨List.not_mem_nil, rfl, fun line rest h _ => ?_⟩
      exact absurd h.symm (by simp)
    | cons c content =>
      rw [fgetsRead]
      by_cases hc : c = charNewline
      · rw [if_pos hc]
        exact Or.inl
          ⟨[], content, by rw [hc]; rfl, List.not_mem_nil, Nat.succ_pos n, by rw [hc]; rfl⟩
      · rw [if_neg hc]
        rcases ih content with ⟨line, rest, rfl, hline, hlt, heq⟩ | ⟨hno, htake, hlong⟩
        · refine Or.inl ⟨c :: line, rest, rfl, ?_, Nat.succ_lt_succ hlt, by rw [heq]; rfl⟩
          rw [List.mem_cons, not_or]
          exact ⟨Ne.symm hc, hline⟩
        · refine Or.inr ⟨?_, by rw [List.take_succ_cons, ← htake], fun line rest h hline => ?_⟩
          · rw [List.mem_cons, not_or]
            exact ⟨Ne.symm hc, hno⟩
          · cases line with
            | nil => exact absurd (List.cons.inj h).1 hc
            | cons d line =>
              refine Nat.succ_le_succ (hlong line rest (List.cons.inj h).2 ?_)
              exact fun hm => hline (List.mem_cons_of_mem d hm)

theorem reachesNul_head : ReachesNul m (0 :: rest) :=
  ⟨[], rest, rfl, fun _ h => absurd h List.not_mem_nil, linesAccepted_iff.mpr rfl⟩

theorem loadString_break {s : List UInt8} (hs : s ≠ []) (hline : charNewline ∉ s)
    (items : SconfigItems) : loadString s items = some none := by
  obtain ⟨l, c, rfl⟩ := (List.eq_nil_or_concat' s).resolve_left hs
  have hc : c ≠ charNewline := fun h => hline (by rw [h]; simp)
  rw [loadString, List.getLast?_concat]
  exact if_pos hc

theorem loadStrings_succ (fuel : Nat) (items : SconfigItems)
    (hne : (fgetsRead 4095 content).1 ≠ []) :
    ∃ fp, loadStrings (fuel+1) ⟨content, false⟩ items =
      match loadString (cString ((fgetsRead 4095 content).1 ++ [0]) 0) items with
      | none => .error .outside
      | some none => .ok (fp, items)
      | some (some items) => loadStrings fuel (fgetsRead 4095 content).2 items := by
  refine ⟨(fgetsRead 4095 content).2, ?_⟩
  have hgets : fgets 4096 ⟨content, false⟩ =
      ((fgetsRead 4095 content).2, some ((fgetsRead 4095 content).1 ++ [0])) := by
    rw [fgets]
    dsimp only
    rw [if_neg hne]
    rfl
  rw [loadStrings, hgets]

theorem loadStrings_string (fuel : Nat) (items : SconfigItems) {s junk : List UInt8}
    (hne : (fgetsRead 4095 content).1 ≠ [])
    (hread : (fgetsRead 4095 content).1 ++ [0] = s ++ 0 :: junk) (hs : (0 : UInt8) ∉ s)
    (hline : charNewline ∉ s) :
    (s = [] → loadStrings (fuel+1) ⟨content, false⟩ items = .error .outside) ∧
      (s ≠ [] → ∃ fp, loadStrings (fuel+1) ⟨content, false⟩ items = .ok (fp, items)) := by
  obtain ⟨fp, hround⟩ := loadStrings_succ fuel items hne
  rw [hread, stringAt_eq (stringAt_zero hs junk)] at hround
  constructor
  · rintro rfl
    exact hround
  · intro hne'
    rw [loadString_break hne' hline] at hround
    exact ⟨fp, hround⟩

/-- The loop has had fuel enough, and has left its buffer exactly if `bad`. -/
def LeavesIf (r : Except LoadFault (CFile × SconfigItems)) (bad : Prop) : Prop :=
  r ≠ .error .fuel ∧ (r = .error .outside ↔ bad)

theorem leavesIf_ok {x : CFile × SconfigItems} {bad : Prop} (h : ¬ bad) : LeavesIf (.ok x) bad :=
  ⟨nofun, iff_of_false nofun h⟩

theorem leavesIf_outside {bad : Prop} (h : bad) : LeavesIf (.error .outside) bad :=
  ⟨nofun, iff_of_true rfl h⟩

theorem loadStrings_leaves {fuel : Nat} {items : SconfigItems} {s junk : List UInt8}
    (hne : (fgetsRead 4095 content).1 ≠ [])
    (hread : (fgetsRead 4095 content).1 ++ [0] = s ++ 0 :: junk) (hs : (0 : UInt8) ∉ s)
    (hline : charNewline ∉ s) (hnil : s = [] → ReachesNul m content)
    (hcons : s ≠ [] → ¬ ReachesNul m content) :
    LeavesIf (loadStrings (fuel+1) ⟨content, false⟩ items) (ReachesNul m content) := by
  obtain ⟨hleave, hend⟩ := loadStrings_string fuel items hne hread hs hline
  by_cases h : s = []
  · rw [hleave h]
    exact leavesIf_outside (hnil h)
  · obtain ⟨fp, hok⟩ := hend h
    rw [hok]
    exact leavesIf_ok (hcons h)

theorem fgetsRead_head (n : Nat) (c : UInt8) (rest : List UInt8) :
    ∃ tail, (fgetsRead (n+1) (c :: rest)).1 = c :: tail := by
  rw [fgetsRead]
  split
  · exact ⟨[], rfl⟩
  · exact ⟨_, rfl⟩

/-- The load comes to an end, unless it comes to a NUL byte at the beginning of a line. -/
theorem loadStrings_faults {fuel : Nat} (hfuel : content.length < fuel) (items : SconfigItems) :
    LeavesIf (loadStrings fuel ⟨content, false⟩ items) (ReachesNul items.map content) := by
  induction fuel generalizing content items with
  | zero => exact absurd hfuel (Nat.not_lt_zero _)
  | succ fuel ih =>
    cases content with
    | nil =>
      refine leavesIf_ok ?_
      rintro ⟨lines, rest, heq, -⟩
      exact absurd heq.symm (by simp)
    | cons c tail =>
      obtain ⟨more, hmore⟩ := fgetsRead_head 4094 c tail
      have hne : (fgetsRead 4095 (c :: tail)).1 ≠ [] := by
        rw [hmore]
        exact List.cons_ne_nil _ _
      -- The string is cut at the first NUL, which is that of fgets or one of the file.
      obtain ⟨s, junk, hread, hs⟩ := List.eq_append_cons_of_mem
        (List.mem_append_right (fgetsRead 4095 (c :: tail)).1 (List.mem_singleton_self (0 : UInt8)))
      have hnil : s = [] → ReachesNul items.map (c :: tail) := by
        rintro rfl
        rw [hmore] at hread
        rw [(List.cons.inj hread).1]
        exact reachesNul_head
      have hhead : s ≠ [] → (c :: tail).head? ≠ some 0 := by
        rintro hsne h
        obtain ⟨d, s', rfl⟩ := List.exists_cons_of_ne_nil hsne
        rw [hmore] at hread
        rw [List.head?_cons, (List.cons.inj hread).1] at h
        exact hs (by rw [Option.some.inj h]; exact List.mem_cons_self)
      rcases fgetsRead_cases 4095 (c :: tail) with
        ⟨line, rest, heq, hline, hlt, hgot⟩ | ⟨hno, -, hlong⟩
      · by_cases hnul : (0 : UInt8) ∈ line
        · have hsline : s.Subset line := by
            obtain ⟨p, q, rfl, hp⟩ := List.eq_append_cons_of_mem hnul
            rw [hgot, List.append_assoc, List.append_assoc, List.cons_append] at hread
            obtain ⟨rfl, -⟩ := append_cons_unique hp hs hread
            exact List.subset_append_left p _
          refine loadStrings_leaves hne hread hs (fun h => hline (hsline h)) hnil
            fun hsne hreach => ?_
          obtain ⟨line', lines, rest', heq', hnul', hline', -⟩ := hreach.exists_line (hhead hsne)
          obtain ⟨rfl, -⟩ := append_cons_unique hline hline' (heq.symm.trans heq')
          exact hnul' hnul
        · obtain ⟨fp, hround⟩ := loadStrings_succ fuel items hne
          have hclean : (0 : UInt8) ∉ line ++ [charNewline] := by
            rw [List.mem_append, not_or]
            exact ⟨hnul, by decide⟩
          have hlen : rest.length < fuel := by
            have hcount := congrArg List.length heq
            rw [List.length_append, List.length_cons (a := charNewline)] at hcount
            omega
          rw [hgot, stringAt_eq (stringAt_zero hclean []), loadString, List.getLast?_concat,
            List.dropLast_concat] at hround
          dsimp only at hround
          rw [if_neg (not_not.mpr rfl)] at hround
          rw [hround, heq, reachesNul_line hnul hline (Nat.le_of_lt_succ hlt)]
          cases hentry : loadEntry items.map (lineEntry line) with
          | none => exact leavesIf_ok (fun ⟨m', h, _⟩ => by cases h)
          | some m' =>
            have hgo := ih hlen { items with map := m' }
            have hiff : (∃ m, some m' = some m ∧ ReachesNul m rest) ↔ ReachesNul m' rest :=
              ⟨fun ⟨m, h, hm⟩ => Option.some.inj h ▸ hm, fun h => ⟨m', rfl, h⟩⟩
            rw [hiff]
            exact hgo
      · refine loadStrings_leaves hne hread hs (fun h => ?_) hnil fun hsne hreach => ?_
        · have hmem := List.mem_append_left (0 :: junk) h
          rw [← hread, List.mem_append, List.mem_singleton] at hmem
          exact hmem.elim hno (by decide)
        · obtain ⟨line, lines, rest', heq', -, hline', -, hsome⟩ := hreach.exists_line (hhead hsne)
          rw [loadLines, if_pos (Nat.lt_of_succ_le (hlong line _ heq' hline'))] at hsome
          cases hsome

end Reaches

theorem sconfigLoadAt_eq {buffer : List UInt8} (hb : buffer.length = 4096)
    (content : List UInt8) (items : SconfigItems) : sconfigLoadAt buffer (some content) items =
      (loadStrings (content.length + 1) ⟨content, false⟩ items).map fun x =>
        (x.2, if x.1.eof then 0 else -1) := by
  rw [sconfigLoadAt, sconfigLoadLoopAt_eq _ _ hb]
  cases loadStrings (content.length + 1) ⟨content, false⟩ items <;> rfl

theorem sconfigLoad_eq {buffer : List UInt8} (hb : buffer.length = 4096)
    (file : Option (List UInt8)) (items : SconfigItems) :
    sconfigLoad file items = (sconfigLoadAt buffer file items).toOption := by
  cases file with
  | none => rfl
  | some content =>
    rw [sconfigLoadAt_eq hb, sconfigLoad, sconfigLoadLoop_eq]
    cases loadStrings (content.length + 1) ⟨content, false⟩ items <;> rfl

/-- The load of any file ends, and it stays inside of its 4096 bytes if and only if no line that
it comes to begins with a NUL byte. -/
theorem sconfig_load_inside {buffer : List UInt8} (hb : buffer.length = 4096)
    (file : Option (List UInt8)) (items : SconfigItems) :
    sconfigLoadAt buffer file items ≠ .error .fuel ∧
      (sconfigLoadAt buffer file items ≠ .error .outside ↔
        ∀ content, file = some content → ¬ ReachesNul items.map content) := by
  cases file with
  | none => exact ⟨nofun, iff_of_true nofun nofun⟩
  | some content =>
    obtain ⟨hfuel, houtside⟩ := loadStrings_faults (Nat.lt_succ_self content.length) items
    have hiff : (∀ c, some content = some c → ¬ ReachesNul items.map c) ↔
        ¬ ReachesNul items.map content :=
      ⟨fun h => h content rfl, fun h c hc => by rwa [← Option.some.inj hc]⟩
    rw [hiff, ← houtside, sconfigLoadAt_eq hb]
    cases hload : loadStrings (content.length + 1) ⟨content, false⟩ items with
    | ok x => exact ⟨nofun, iff_of_true nofun nofun⟩
    | error e =>
      cases e with
      | fuel => exact absurd hload hfuel
      | outside => exact ⟨nofun, iff_of_false (fun h => h rfl) (fun h => h rfl)⟩

/-- A file of one NUL byte, with whatever is in the buffer before. -/
theorem sconfig_load_outside : ∃ content : List UInt8, ∀ buffer : List UInt8,
    buffer.length = 4096 →
      sconfigLoadAt buffer (some content) sconfigItemsNew = .error .outside := by
  refine ⟨[0], fun buffer hb => ?_⟩
  have houtside := (loadStrings_faults (Nat.lt_succ_self [(0 : UInt8)].length) sconfigItemsNew).2
  rw [sconfigLoadAt_eq hb, houtside.mpr reachesNul_head]
  rfl

/-- A NUL byte behind the beginning of a line ends the load inside of the buffer. -/
theorem sconfig_load_inside_sample :
    sconfigLoadAt (List.replicate 4096 0) (some [98, 0, 10]) sconfigItemsNew ≠ .error .outside := by
  refine (sconfig_load_inside List.length_replicate _ _).2.mpr fun content hc hreach => ?_
  cases hc
  obtain ⟨line, lines, rest, heq, hnul, hline, -⟩ := hreach.exists_line (by decide)
  obtain ⟨rfl, -⟩ := append_cons_unique (a := [98, 0]) (x := []) (by decide) hline heq
  exact hnul (by decide)

end SimpleKit
