import SimpleKit.Sconfig.Load

/-!
The code of `_sconfig_parse_line` and `_sconfig_load` again, over the one buffer it works in and
with every index checked: an index outside of the buffer ends it.
-/
set_option autoImplicit false

namespace SimpleKit

def readAt (buffer : List UInt8) (i : Int) : Option UInt8 :=
  if i < 0 then none else buffer[i.toNat]?

def writeAt (buffer : List UInt8) (i : Int) (c : UInt8) : Option (List UInt8) :=
  if 0 ≤ i ∧ i < buffer.length then some (buffer.set i.toNat c) else none

def fillAt (buffer string : List UInt8) : Option (List UInt8) :=
  if string.length ≤ buffer.length then some (string ++ buffer.drop string.length) else none

def stringAt (buffer : List UInt8) (i : Nat) : Option (List UInt8) :=
  if 0 ∈ buffer.drop i then some (cString buffer i) else none

def sconfigNameBeginAt (buffer : List UInt8) : Nat → Nat → Option (Option Nat)
  | 0, i => some (some i)
  | n+1, i => do
    let c ← readAt buffer i
    if c = charEquals ∨ c = charUnderscore ∨ isDigit c then some none
    else if isSpace c then sconfigNameBeginAt buffer n (i+1)
    else some (some i)

def sconfigNameEndAt (buffer : List UInt8) : Nat → Nat → Bool → Option (Option (Nat × Bool))
  | 0, i, hasAlpha => some (some (i, hasAlpha))
  | n+1, i, hasAlpha => do
    let c ← readAt buffer i
    if c = charEquals then some (some (i, hasAlpha))
    else if isUpper c ∨ isLower c then sconfigNameEndAt buffer n (i+1) true
    else if isDigit c ∨ c = charUnderscore then sconfigNameEndAt buffer n (i+1) hasAlpha
    else some none

/-- Whether an annotation occurs at `i`; the byte before is read only at a '#' within the value. -/
def annotationAt (buffer : List UInt8) (value i : Nat) : Option Bool := do
  let c ← readAt buffer i
  if c = charHash ∧ i ≠ value then do
    let before ← readAt buffer ((i : Int) - 1)
    some (isSpace before)
  else some false

def sconfigLastCharAt (buffer : List UInt8) (value : Nat) :
    Nat → Nat → Option Nat → Option (Option Nat)
  | 0, _, lastChar => some lastChar
  | n+1, i, lastChar => do
    let annotation ← annotationAt buffer value i
    if annotation then some lastChar
    else do
      let c ← readAt buffer i
      sconfigLastCharAt buffer value n (i+1) (if isSpace c then lastChar else some i)

def sconfigParseValueAt (buffer : List UInt8) (len name i : Nat) : Option ParsedLine := do
  let buffer ← writeAt buffer i 0
  let value := i + 1
  if value = len then some ⟨1, name, value, buffer⟩
  else
    match ← sconfigLastCharAt buffer value (len - value) value none with
    | none => do
      let buffer ← writeAt buffer value 0
      some ⟨1, name, value, buffer⟩
    | some lastChar => do
      let c ← readAt buffer value
      if isSpace c then some ⟨-1, 0, 0, buffer⟩
      else do
        let buffer ← writeAt buffer ((lastChar : Int) + 1) 0
        some ⟨2, name, value, buffer⟩

/-- `_sconfig_parse_line` after it has found the name's begin. -/
def sconfigParseNameAt (buffer : List UInt8) (len name : Nat) : Option ParsedLine := do
  match ← sconfigNameEndAt buffer (len - name) name false with
  | none => some ⟨-1, 0, 0, buffer⟩
  | some (i, hasAlpha) =>
    if i = len ∨ hasAlpha = false then some ⟨-1, 0, 0, buffer⟩
    else sconfigParseValueAt buffer len name i

def sconfigParseLineAt (buffer : List UInt8) (len : Nat) : Option ParsedLine := do
  match ← sconfigNameBeginAt buffer len 0 with
  | none => some ⟨-1, 0, 0, buffer⟩
  | some name =>
    if name = len then some ⟨0, 0, 0, buffer⟩
    else do
      let c ← readAt buffer name
      if c = charHash then some ⟨0, 0, 0, buffer⟩ else sconfigParseNameAt buffer len name

inductive LoadFault where
  | outside : LoadFault
  | fuel : LoadFault
  deriving DecidableEq, Repr

/-- One round of `_sconfig_load`, with a line in the buffer: `none` inside is `break`. -/
def sconfigLoadLineAt (buffer : List UInt8) (items : SconfigItems) :
    Option (List UInt8 × Option SconfigItems) := do
  let len : Int := (← stringAt buffer 0).length
  let c ← readAt buffer (len - 1)
  if c ≠ charNewline then some (buffer, none)
  else do
    let len := len - 1
    let buffer ← writeAt buffer len 0
    let x ← sconfigParseLineAt buffer len.toNat
    if x.ret = -1 then some (x.buffer, none)
    else if x.ret = 0 then some (x.buffer, some items)
    else do
      let value ← stringAt x.buffer x.value
      let name ← stringAt x.buffer x.name
      if sconfigKey name ∈ items.map.keys then some (x.buffer, none)
      else some (x.buffer, some { items with map := items.map.insert (sconfigKey name) value })

def sconfigLoadLoopAt :
    Nat → CFile → List UInt8 → SconfigItems → Except LoadFault (CFile × SconfigItems)
  | 0, _, _, _ => .error .fuel
  | fuel+1, fp, buffer, items =>
    let (fp, line) := fgets 4096 fp
    match line with
    | none => .ok (fp, items)
    | some line =>
      match (fillAt buffer line).bind fun buffer => sconfigLoadLineAt buffer items with
      | none => .error .outside
      | some (_, none) => .ok (fp, items)
      | some (buffer, some items) => sconfigLoadLoopAt fuel fp buffer items

/-- `_sconfig_load` with what the array on its stack holds at first. -/
def sconfigLoadAt (buffer : List UInt8) (file : Option (List UInt8)) (items : SconfigItems) :
    Except LoadFault (SconfigItems × Int) :=
  match file with
  | none => .ok (items, -1)
  | some content => do
    let x ← sconfigLoadLoopAt (content.length + 1) ⟨content, false⟩ buffer items
    .ok (x.2, if x.1.eof then 0 else -1)

section Inside
variable {buffer : List UInt8} {i : Nat}

theorem readAt_eq (h : i < buffer.length) : readAt buffer i = some (buffer.getD i 0) := by
  rw [readAt, if_neg (by omega), Int.toNat_natCast, List.getElem?_eq_getElem h,
    List.getD_eq_getElem?_getD, List.getElem?_eq_getElem h, Option.getD_some]

theorem writeAt_eq (h : i < buffer.length) (c : UInt8) :
    writeAt buffer i c = some (buffer.set i c) := by
  rw [writeAt, if_pos (by omega), Int.toNat_natCast]

theorem sconfigNameBeginAt_eq {n : Nat} (h : i + n ≤ buffer.length) :
    sconfigNameBeginAt buffer n i = some (sconfigNameBegin buffer n i) := by
  induction n generalizing i with
  | zero => rfl
  | succ n ih =>
    rw [sconfigNameBeginAt, sconfigNameBegin, readAt_eq (by omega)]
    simp only [Option.bind_eq_bind, Option.bind_some]
    rw [ih (by omega)]
    split
    · rfl
    · split <;> rfl

theorem sconfigNameEndAt_eq {n : Nat} (h : i + n ≤ buffer.length) (hasAlpha : Bool) :
    sconfigNameEndAt buffer n i hasAlpha = some (sconfigNameEnd buffer n i hasAlpha) := by
  induction n generalizing i hasAlpha with
  | zero => rfl
  | succ n ih =>
    rw [sconfigNameEndAt, sconfigNameEnd, readAt_eq (by omega)]
    simp only [Option.bind_eq_bind, Option.bind_some]
    rw [ih (by omega), ih (by omega)]
    split
    · rfl
    · split
      · rfl
      · split <;> rfl

theorem annotationAt_eq {value : Nat} (hv : value ≤ i) (h : i < buffer.length) :
    annotationAt buffer value i = some (decide (buffer.getD i 0 = charHash ∧ i ≠ value ∧
      isSpace (buffer.getD (i-1) 0) = true)) := by
  rw [annotationAt, readAt_eq h]
  simp only [Option.bind_eq_bind, Option.bind_some]
  split
  · next hhash =>
    have hpred : (i : Int) - 1 = (i - 1 : Nat) := by omega
    rw [hpred, readAt_eq (by omega)]
    simp only [Option.bind_some, hhash.1, hhash.2, ne_eq, not_false_eq_true, true_and,
      Bool.decide_eq_true]
  · next hhash =>
    rw [not_and] at hhash
    exact congrArg some (Eq.symm (decide_eq_false fun h => hhash h.1 h.2.1))

theorem sconfigLastCharAt_eq {value n : Nat} (hv : value ≤ i) (h : i + n ≤ buffer.length)
    (lastChar : Option Nat) : sconfigLastCharAt buffer value n i lastChar =
      some (sconfigLastChar buffer value n i lastChar) := by
  induction n generalizing i lastChar with
  | zero => rfl
  | succ n ih =>
    rw [sconfigLastCharAt, sconfigLastChar, annotationAt_eq hv (by omega), readAt_eq (by omega)]
    simp only [Option.bind_eq_bind, Option.bind_some]
    rw [ih (by omega) (by omega)]
    by_cases hend : buffer.getD i 0 = charHash ∧ i ≠ value ∧ isSpace (buffer.getD (i-1) 0) = true
    · rw [if_pos hend, if_pos (decide_eq_true hend)]
    · rw [if_neg hend, if_neg (by rwa [decide_eq_true_iff])]

theorem sconfigNameEnd_le {n : Nat} {hasAlpha a : Bool} {j : Nat}
    (h : sconfigNameEnd buffer n i hasAlpha = some (j, a)) : i ≤ j ∧ j ≤ i + n := by
  induction n generalizing i hasAlpha with
  | zero =>
    cases h
    exact ⟨le_refl _, le_refl _⟩
  | succ n ih =>
    simp only [sconfigNameEnd] at h
    split at h
    · cases h
      exact ⟨le_refl _, by omega⟩
    · split at h
      · have hj := ih h
        omega
      · split at h
        · have hj := ih h
          omega
        · cases h

theorem sconfigNameBegin_le {n j : Nat} (h : sconfigNameBegin buffer n i = some j) :
    i ≤ j ∧ j ≤ i + n := by
  induction n generalizing i with
  | zero =>
    cases h
    exact ⟨le_refl _, le_refl _⟩
  | succ n ih =>
    simp only [sconfigNameBegin] at h
    split at h
    · cases h
    · split at h
      · have hj := ih h
        omega
      · cases h
        exact ⟨le_refl _, by omega⟩

theorem sconfigLastChar_lt {value n k : Nat} {lastChar : Option Nat}
    (hlast : ∀ j, lastChar = some j → j < i)
    (h : sconfigLastChar buffer value n i lastChar = some k) : k < i + n := by
  induction n generalizing i lastChar with
  | zero => exact hlast k h
  | succ n ih =>
    simp only [sconfigLastChar] at h
    split at h
    · exact Nat.lt_of_lt_of_le (hlast k h) (by omega)
    · have hk := ih (i := i+1) (fun j hj => ?_) h
      · omega
      · split at hj
        · exact Nat.lt_succ_of_lt (hlast j hj)
        · cases hj
          omega

theorem sconfigParseValueAt_eq {len : Nat} (hi : i < len) (h : len < buffer.length) (name : Nat) :
    sconfigParseValueAt buffer len name i = some (sconfigParseValue buffer len name i) := by
  have hlen : (buffer.set i 0).length = buffer.length := List.length_set
  rw [sconfigParseValueAt, sconfigParseValue, writeAt_eq (by omega)]
  simp only [Option.bind_eq_bind, Option.bind_some]
  by_cases hend : i + 1 = len
  · rw [if_pos hend, if_pos hend]
  · rw [if_neg hend, if_neg hend, sconfigLastCharAt_eq (le_refl _) (by omega)]
    simp only [Option.bind_some]
    cases hlast : sconfigLastChar (buffer.set i 0) (i+1) (len - (i+1)) (i+1) none with
    | none =>
      dsimp only
      rw [writeAt_eq (by omega)]
      rfl
    | some lastChar =>
      have hlt := sconfigLastChar_lt (fun j hj => by cases hj) hlast
      have hsucc : (lastChar : Int) + 1 = (lastChar + 1 : Nat) := by omega
      dsimp only
      rw [readAt_eq (by omega), hsucc, writeAt_eq (by omega)]
      simp only [Option.bind_some]
      split <;> rfl

/-- With a byte behind the line, no index is outside of the buffer. -/
theorem sconfigParseLineAt_eq {len : Nat} (h : len < buffer.length) :
    sconfigParseLineAt buffer len = some (sconfigParseLine buffer len) := by
  rw [sconfigParseLineAt, sconfigParseLine, sconfigNameBeginAt_eq (by omega)]
  simp only [Option.bind_eq_bind, Option.bind_some]
  cases hbegin : sconfigNameBegin buffer len 0 with
  | none => rfl
  | some name =>
    have hname := sconfigNameBegin_le hbegin
    dsimp only
    rw [readAt_eq (by omega)]
    simp only [Option.bind_some]
    by_cases hlen : name = len
    · rw [if_pos hlen, if_pos (Or.inl hlen)]
    · rw [if_neg hlen]
      by_cases hhash : buffer.getD name 0 = charHash
      · rw [if_pos hhash, if_pos (Or.inr hhash)]
      · rw [if_neg hhash, if_neg (not_or.mpr ⟨hlen, hhash⟩), sconfigParseNameAt,
          sconfigNameEndAt_eq (by omega)]
        simp only [Option.bind_eq_bind, Option.bind_some]
        cases hend : sconfigNameEnd buffer (len - name) name false with
        | none => rfl
        | some x =>
          obtain ⟨i, hasAlpha⟩ := x
          have hi := sconfigNameEnd_le hend
          dsimp only
          split
          · rfl
          · next hgood =>
            rw [not_or] at hgood
            exact sconfigParseValueAt_eq (by omega) h name

end Inside

end SimpleKit
