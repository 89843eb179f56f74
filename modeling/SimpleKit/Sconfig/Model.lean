import SimpleKit.Key
import SimpleKit.Lib.SortedMap

/-!
sconfig: configuration files of lines `name=value`. The skip list that holds the items is the
ordered map that it implements; fgets, feof, strlen and the character classes are those of the
C standard and its locale. A read outside of the buffer gives the result `none`.
-/
set_option autoImplicit false

namespace SimpleKit

def charNewline : UInt8 := 10
def charEquals : UInt8 := 61
def charUnderscore : UInt8 := 95
def charHash : UInt8 := 35

def isSpace (c : UInt8) : Bool := c = 32 ∨ 9 ≤ c ∧ c ≤ 13
def isDigit (c : UInt8) : Bool := 48 ≤ c ∧ c ≤ 57
def isUpper (c : UInt8) : Bool := 65 ≤ c ∧ c ≤ 90
def isLower (c : UInt8) : Bool := 97 ≤ c ∧ c ≤ 122

/-- The string that begins at index `i`: what comes before the next NUL. -/
def cString (buffer : List UInt8) (i : Nat) : List UInt8 := (buffer.drop i).takeWhile (· ≠ 0)

def strlen (buffer : List UInt8) : Nat := (cString buffer 0).length

/-- A file that is read: what is left of it, and the indicator that feof tells. -/
structure CFile where
  rest : List UInt8
  eof : Bool
  deriving DecidableEq, Repr

def fgetsRead : Nat → List UInt8 → List UInt8 × CFile
  | 0, rest => ([], ⟨rest, false⟩)
  | _+1, [] => ([], ⟨[], true⟩)
  | n+1, c :: rest =>
    if c = charNewline then ([c], ⟨rest, false⟩)
    else
      let x := fgetsRead n rest
      (c :: x.1, x.2)

/-- The buffer ends with the NUL that fgets writes; `none` is NULL. -/
def fgets (size : Nat) (fp : CFile) : CFile × Option (List UInt8) :=
  let x := fgetsRead (size - 1) fp.rest
  ({ x.2 with eof := fp.eof || x.2.eof }, if x.1 = [] then none else some (x.1 ++ [0]))

/-- What `_sconfig_parse_line` returns and stores; the indices of name and value mean
something only if it returns 1 or 2. -/
structure ParsedLine where
  ret : Int
  name : Nat
  value : Nat
  buffer : List UInt8
  deriving DecidableEq, Repr

/-- Find name's begin, with `n` bytes from index `i` on to look at; `none` is -1. -/
def sconfigNameBegin (buffer : List UInt8) : Nat → Nat → Option Nat
  | 0, i => some i
  | n+1, i =>
    let c := buffer.getD i 0
    if c = charEquals ∨ c = charUnderscore ∨ isDigit c then none
    else if isSpace c then sconfigNameBegin buffer n (i+1)
    else some i

/-- Find name's end, and tell if there is a letter in it; `none` is -1. -/
def sconfigNameEnd (buffer : List UInt8) : Nat → Nat → Bool → Option (Nat × Bool)
  | 0, i, hasAlpha => some (i, hasAlpha)
  | n+1, i, hasAlpha =>
    let c := buffer.getD i 0
    if c = charEquals then some (i, hasAlpha)
    else if isUpper c ∨ isLower c then sconfigNameEnd buffer n (i+1) true
    else if isDigit c ∨ c = charUnderscore then sconfigNameEnd buffer n (i+1) hasAlpha
    else none

def sconfigLastChar (buffer : List UInt8) (value : Nat) : Nat → Nat → Option Nat → Option Nat
  | 0, _, lastChar => lastChar
  | n+1, i, lastChar =>
    let c := buffer.getD i 0
    if c = charHash ∧ i ≠ value ∧ isSpace (buffer.getD (i-1) 0) then lastChar
    else sconfigLastChar buffer value n (i+1) (if isSpace c then lastChar else some i)

/-- `_sconfig_parse_line`, from where the name has ended on. -/
def sconfigParseValue (buffer : List UInt8) (len name i : Nat) : ParsedLine :=
  let buffer := buffer.set i 0
  let value := i + 1
  if value = len then ⟨1, name, value, buffer⟩
  else
    match sconfigLastChar buffer value (len - value) value none with
    | none => ⟨1, name, value, buffer.set value 0⟩
    | some lastChar =>
      if isSpace (buffer.getD value 0) then ⟨-1, 0, 0, buffer⟩
      else ⟨2, name, value, buffer.set (lastChar + 1) 0⟩

def sconfigParseLine (buffer : List UInt8) (len : Nat) : ParsedLine :=
  match sconfigNameBegin buffer len 0 with
  | none => ⟨-1, 0, 0, buffer⟩
  | some name =>
    if name = len ∨ buffer.getD name 0 = charHash then ⟨0, 0, 0, buffer⟩
    else
      match sconfigNameEnd buffer (len - name) name false with
      | none => ⟨-1, 0, 0, buffer⟩
      | some (i, hasAlpha) =>
        if i = len ∨ hasAlpha = false then ⟨-1, 0, 0, buffer⟩
        else sconfigParseValue buffer len name i

structure SconfigItems where
  map : SortedMap Key (List UInt8)
  iterator : List (Key × List UInt8)

def sconfigItemsNew : SconfigItems := ⟨SortedMap.empty, []⟩

/-- The key of a name is its string with the NUL. -/
def sconfigKey (name : List UInt8) : Key := ⟨name ++ [0]⟩

/-- The loop of `_sconfig_load`, at most `fuel` times. -/
def sconfigLoadLoop : Nat → CFile → SconfigItems → Option (CFile × SconfigItems)
  | 0, _, _ => none
  | fuel+1, fp, items =>
    let (fp, line) := fgets 4096 fp
    match line with
    | none => some (fp, items)
    | some buffer =>
      let len := strlen buffer
      if len = 0 then none
      else if buffer.getD (len - 1) 0 ≠ charNewline then some (fp, items)
      else
        let len := len - 1
        let x := sconfigParseLine (buffer.set len 0) len
        if x.ret = -1 then some (fp, items)
        else if x.ret = 0 then sconfigLoadLoop fuel fp items
        else
          let key := sconfigKey (cString x.buffer x.name)
          if key ∈ items.map.keys then some (fp, items)
          else sconfigLoadLoop fuel fp
            { items with map := items.map.insert key (cString x.buffer x.value) }

/-- `_sconfig_load`; `file` is what the file holds, if it can be opened. -/
def sconfigLoad (file : Option (List UInt8)) (items : SconfigItems) : Option (SconfigItems × Int) :=
  match file with
  | none => some (items, -1)
  | some content => do
    let x ← sconfigLoadLoop (content.length + 1) ⟨content, false⟩ items
    some (x.2, if x.1.eof then 0 else -1)

/-- The file of a configuration is given with each call that reads it. -/
structure Sconfig where
  items : SconfigItems

def sconfigNew (file : Option (List UInt8)) : Option (Option Sconfig) := do
  let (items, ret) ← sconfigLoad file sconfigItemsNew
  if ret = -1 then some none else some (some ⟨items⟩)

def sconfigReload (sconf : Sconfig) (file : Option (List UInt8)) : Option (Sconfig × Int) := do
  let (items, ret) ← sconfigLoad file sconfigItemsNew
  if ret = -1 then some (sconf, -1) else some ({ sconf with items := items }, 0)

def sconfigReadStr (sconf : Sconfig) (name : List UInt8) : Option (List UInt8) :=
  sconf.items.map.lookup (sconfigKey name)

def sconfigBeginIterate (sconf : Sconfig) : Sconfig :=
  { sconf with items := { sconf.items with iterator := sconf.items.map.entries } }

/-- The strings that name and value point to, or `none` for -1. -/
def sconfigIterate (sconf : Sconfig) : Sconfig × Option (List UInt8 × List UInt8) :=
  match sconf.items.iterator with
  | [] => (sconf, none)
  | (key, value) :: iterator =>
    ({ sconf with items := { sconf.items with iterator := iterator } },
      some (cString key.bytes 0, value))

def sconfigEndIterate (sconf : Sconfig) : Sconfig :=
  { sconf with items := { sconf.items with iterator := [] } }

end SimpleKit
