import Mathlib.Data.List.DropRight
import SimpleKit.Sconfig.Checked

set_option autoImplicit false

namespace SimpleKit

def isAlpha (c : UInt8) : Bool := isUpper c || isLower c
def isNameChar (c : UInt8) : Bool := isAlpha c || isDigit c || c = charUnderscore

def IsName : List UInt8 → Prop
  | [] => False
  | c :: name => isAlpha c = true ∧ ∀ d ∈ name, isNameChar d = true

/-- What is before the first '#' that follows white space; `before` is the byte in front. -/
def cutNote : Option UInt8 → List UInt8 → List UInt8
  | _, [] => []
  | before, c :: rest =>
    if c = charHash ∧ before.any isSpace = true then [] else c :: cutNote (some c) rest

def lineValue (rest : List UInt8) : List UInt8 := (cutNote none rest).rdropWhile isSpace

/-- White space, and at most a comment after it. -/
def BlankLine (line : List UInt8) : Prop :=
  ∃ blanks rest, line = blanks ++ rest ∧ (∀ c ∈ blanks, isSpace c = true) ∧
    (rest = [] ∨ rest.head? = some charHash)

/-- A name and what follows its '=', with no white space in front of the value. -/
structure PairLine (line blanks name rest : List UInt8) : Prop where
  split : line = blanks ++ (name ++ charEquals :: rest)
  blanks : ∀ c ∈ blanks, isSpace c = true
  name : IsName name
  value : ∀ c, (lineValue rest).head? = some c → isSpace c = false

section Classes
variable {c : UInt8}

theorem isSpace_iff : isSpace c = true ↔ c.toNat = 32 ∨ 9 ≤ c.toNat ∧ c.toNat ≤ 13 := by
  rw [isSpace, decide_eq_true_iff, ← UInt8.toNat_inj]
  rfl

theorem isDigit_iff : isDigit c = true ↔ 48 ≤ c.toNat ∧ c.toNat ≤ 57 := by
  rw [isDigit, decide_eq_true_iff]
  rfl

theorem isAlpha_iff : isAlpha c = true ↔
    65 ≤ c.toNat ∧ c.toNat ≤ 90 ∨ 97 ≤ c.toNat ∧ c.toNat ≤ 122 := by
  rw [isAlpha, Bool.or_eq_true, isUpper, isLower, decide_eq_true_iff, decide_eq_true_iff]
  rfl

theorem eq_char_iff {d : UInt8} : c = d ↔ c.toNat = d.toNat := UInt8.toNat_inj.symm

theorem isSpace_not (h : isSpace c = true) :
    ¬ (c = charEquals ∨ c = charUnderscore ∨ isDigit c = true) := by
  rw [isSpace_iff] at h
  rw [isDigit_iff, eq_char_iff, eq_char_iff]
  show ¬ (c.toNat = 61 ∨ c.toNat = 95 ∨ _)
  omega

theorem isAlpha_not (h : isAlpha c = true) :
    ¬ (c = charEquals ∨ c = charUnderscore ∨ isDigit c = true) ∧ ¬ isSpace c = true ∧
      c ≠ charHash := by
  rw [isAlpha_iff] at h
  rw [isDigit_iff, isSpace_iff, ne_eq, eq_char_iff, eq_char_iff, eq_char_iff]
  show ¬ (c.toNat = 61 ∨ c.toNat = 95 ∨ _) ∧ _ ∧ ¬ c.toNat = 35
  omega

theorem isNameChar_not (h : isNameChar c = true) : c ≠ charEquals := by
  rw [isNameChar, Bool.or_eq_true, Bool.or_eq_true, isAlpha_iff, isDigit_iff, decide_eq_true_iff,
    eq_char_iff] at h
  rw [ne_eq, eq_char_iff]
  change (_ ∨ _) ∨ c.toNat = 95 at h
  show ¬ c.toNat = 61
  omega

end Classes

section Loops
variable (pre post : List UInt8)

theorem getD_append_cons (pre : List UInt8) (c : UInt8) (post : List UInt8) :
    (pre ++ c :: post).getD pre.length 0 = c := by
  rw [List.getD_eq_getElem?_getD, List.getElem?_append_right (le_refl _), Nat.sub_self]
  rfl

theorem sconfigNameBegin_blanks {blanks : List UInt8} (h : ∀ c ∈ blanks, isSpace c = true)
    (n : Nat) : sconfigNameBegin (pre ++ (blanks ++ post)) (blanks.length + n) pre.length =
      sconfigNameBegin (pre ++ (blanks ++ post)) n (pre.length + blanks.length) := by
  induction blanks generalizing pre with
  | nil => rw [List.length_nil, Nat.zero_add, Nat.add_zero]
  | cons c blanks ih =>
    rw [List.forall_mem_cons] at h
    have hn : (c :: blanks).length + n = (blanks.length + n) + 1 := by
      rw [List.length_cons]
      omega
    have hlist : pre ++ (c :: blanks ++ post) = (pre ++ [c]) ++ (blanks ++ post) := by simp
    have hlen : pre.length + 1 = (pre ++ [c]).length := by simp
    rw [hn, sconfigNameBegin]
    rw [List.cons_append, getD_append_cons, if_neg (isSpace_not h.1), if_pos h.1,
      ← List.cons_append, hlist, hlen, ih _ h.2, List.length_append, List.length_singleton,
      List.length_cons, Nat.add_assoc,
      Nat.add_comm 1]

theorem sconfigNameEnd_name {name : List UInt8} (h : ∀ c ∈ name, isNameChar c = true) (n : Nat)
    (hasAlpha : Bool) :
    sconfigNameEnd (pre ++ (name ++ post)) (name.length + n) pre.length hasAlpha =
      sconfigNameEnd (pre ++ (name ++ post)) n (pre.length + name.length)
        (hasAlpha || name.any isAlpha) := by
  induction name generalizing pre hasAlpha with
  | nil => rw [List.length_nil, Nat.zero_add, Nat.add_zero, List.any_nil, Bool.or_false]
  | cons c name ih =>
    rw [List.forall_mem_cons] at h
    have hn : (c :: name).length + n = (name.length + n) + 1 := by
      rw [List.length_cons]
      omega
    have hlist : pre ++ (c :: name ++ post) = (pre ++ [c]) ++ (name ++ post) := by simp
    have hlen : pre.length + 1 = (pre ++ [c]).length := by simp
    have hend : pre.length + (c :: name).length = (pre ++ [c]).length + name.length := by
      rw [List.length_cons, ← hlen]
      omega
    rw [hn, sconfigNameEnd]
    rw [List.cons_append, getD_append_cons, if_neg (isNameChar_not h.1), ← List.cons_append, hlist,
      hlen, ih _ h.2, ih _ h.2, hend, List.any_cons]
    by_cases halpha : isAlpha c = true
    · rw [if_pos (by simpa [isAlpha] using halpha), halpha, Bool.true_or, Bool.or_true]
    · have hrest : isDigit c = true ∨ c = charUnderscore := by
        have hc := h.1
        rw [isNameChar, Bool.or_eq_true, Bool.or_eq_true, decide_eq_true_iff] at hc
        tauto
      rw [if_neg (by simpa [isAlpha] using halpha), if_pos hrest,
        Bool.eq_false_of_not_eq_true halpha, Bool.false_or]

def lastIndex (value : Nat) (done : List UInt8) : Option Nat :=
  if done.rdropWhile isSpace = [] then none
  else some (value + (done.rdropWhile isSpace).length - 1)

theorem lastIndex_concat (value : Nat) (done : List UInt8) (c : UInt8) :
    lastIndex value (done ++ [c]) =
      if isSpace c = true then lastIndex value done else some (value + done.length) := by
  rw [lastIndex, List.rdropWhile_concat]
  split
  · rfl
  · rw [if_neg (by simp), List.length_append, List.length_singleton]
    rfl

/-- The scan of the value stops at an annotation, and knows the last byte that is not blank. -/
theorem sconfigLastChar_eq (done todo : List UInt8) :
    sconfigLastChar (pre ++ (done ++ (todo ++ post))) pre.length todo.length
        (pre.length + done.length) (lastIndex pre.length done) =
      lastIndex pre.length (done ++ cutNote done.getLast? todo) := by
  induction todo generalizing done with
  | nil => rw [cutNote, List.append_nil]; rfl
  | cons c todo ih =>
    have hlist : pre ++ (done ++ (c :: todo ++ post)) = (pre ++ done) ++ c :: (todo ++ post) := by
      simp
    have hnext : pre ++ (done ++ (c :: todo ++ post)) =
        pre ++ ((done ++ [c]) ++ (todo ++ post)) := by simp
    have hlen : pre.length + done.length = (pre ++ done).length := by simp
    have hsucc : pre.length + done.length + 1 = pre.length + (done ++ [c]).length := by
      rw [List.length_append, List.length_singleton, Nat.add_assoc]
    have hcur : (pre ++ (done ++ (c :: todo ++ post))).getD (pre.length + done.length) 0 = c := by
      rw [hlist, hlen, getD_append_cons]
    have hstop : (c = charHash ∧ pre.length + done.length ≠ pre.length ∧
        isSpace ((pre ++ (done ++ (c :: todo ++ post))).getD (pre.length + done.length - 1) 0) =
          true) ↔ c = charHash ∧ done.getLast?.any isSpace = true := by
      refine and_congr_right fun _ => ?_
      induction done using List.reverseRecOn with
      | nil => simp
      | append_singleton done d _ =>
        have hprev : (pre ++ (done ++ [d] ++ (c :: todo ++ post))).getD
            (pre.length + (done ++ [d]).length - 1) 0 = d := by
          have hlist : pre ++ (done ++ [d] ++ (c :: todo ++ post)) =
              (pre ++ done) ++ d :: (c :: todo ++ post) := by simp
          rw [hlist, List.length_append, List.length_singleton, ← Nat.add_assoc, Nat.add_sub_cancel,
            ← List.length_append, getD_append_cons]
        rw [hprev]
        simp
    rw [List.length_cons, sconfigLastChar, hcur, cutNote]
    by_cases hend : c = charHash ∧ done.getLast?.any isSpace = true
    · rw [if_pos (hstop.mpr hend), if_pos hend, List.append_nil]
    · rw [if_neg (mt hstop.mp hend), if_neg hend, hsucc, hnext]
      have hlast : (if isSpace c = true then lastIndex pre.length done
          else some (pre.length + done.length)) = lastIndex pre.length (done ++ [c]) :=
        (lastIndex_concat pre.length done c).symm
      rw [hlast, ih (done ++ [c]), List.append_assoc, List.getLast?_concat]
      rfl

end Loops

section Parse
variable {blanks name rest junk : List UInt8}

theorem cutNote_isPre (before : Option UInt8) (rest : List UInt8) :
    cutNote before rest <+: rest := by
  induction rest generalizing before with
  | nil => exact List.prefix_refl _
  | cons c rest ih =>
    rw [cutNote]
    split
    · exact List.nil_prefix
    · exact List.cons_prefix_cons.mpr ⟨rfl, ih (some c)⟩

theorem lineValue_isPre (rest : List UInt8) : lineValue rest <+: rest :=
  (List.rdropWhile_prefix _ _).trans (cutNote_isPre none rest)

theorem set_value_end (pre rest junk : List UInt8) : ∃ tail,
    (pre ++ (rest ++ 0 :: junk)).set (pre.length + (lineValue rest).length) 0 =
      pre ++ (lineValue rest ++ 0 :: tail) := by
  obtain ⟨left, hleft⟩ := lineValue_isPre rest
  obtain ⟨d, tail, htail⟩ : ∃ d tail, left ++ 0 :: junk = d :: tail :=
    List.exists_cons_of_ne_nil (by simp)
  refine ⟨tail, ?_⟩
  have hlist : pre ++ (rest ++ 0 :: junk) = (pre ++ lineValue rest) ++ d :: tail := by
    rw [← htail, List.append_assoc, ← List.append_assoc (lineValue rest), hleft]
  rw [hlist, ← List.length_append, List.set_append_right _ _ (le_refl _), Nat.sub_self,
    List.set_cons_zero, List.append_assoc]

/-- Behind the name, the value decides. -/
theorem sconfigParseValue_eq (pre rest junk : List UInt8) (name : Nat) :
    let x := sconfigParseValue (pre ++ charEquals :: (rest ++ 0 :: junk))
      (pre.length + (rest.length + 1)) name pre.length
    if ((lineValue rest).head?.any isSpace) = true then x.ret = -1
    else ∃ tail, x = ⟨if lineValue rest = [] then 1 else 2, name, pre.length + 1,
      pre ++ 0 :: (lineValue rest ++ 0 :: tail)⟩ := by
  have hset : (pre ++ charEquals :: (rest ++ 0 :: junk)).set pre.length 0 =
      (pre ++ [0]) ++ (rest ++ 0 :: junk) := by
    rw [List.set_append_right _ _ (le_refl _), Nat.sub_self, List.set_cons_zero]
    simp
  have hlen : pre.length + 1 = (pre ++ [0]).length := by simp
  dsimp only
  rw [sconfigParseValue, hset]
  by_cases hnil : rest = []
  · subst hnil
    have hvalue : lineValue [] = [] := rfl
    rw [List.length_nil, Nat.zero_add, if_pos rfl, hvalue, if_neg (by simp)]
    exact ⟨junk, by simp⟩
  · have hpos : 0 < rest.length := List.length_pos_iff.mpr hnil
    have hleft : pre.length + (rest.length + 1) - (pre.length + 1) = rest.length := by omega
    have hne : pre.length + 1 ≠ pre.length + (rest.length + 1) := by omega
    have hlast : sconfigLastChar (pre ++ [0] ++ (rest ++ 0 :: junk)) (pre.length + 1) rest.length
        (pre.length + 1) none = lastIndex (pre.length + 1) (cutNote none rest) := by
      have h := sconfigLastChar_eq (pre ++ [0]) (0 :: junk) [] rest
      rwa [← hlen] at h
    obtain ⟨tail, htail⟩ := set_value_end (pre ++ [0]) rest junk
    rw [← hlen] at htail
    rw [if_neg hne, hleft, hlast]
    by_cases hvalue : lineValue rest = []
    · have hindex : lastIndex (pre.length + 1) (cutNote none rest) = none := if_pos hvalue
      rw [hvalue, List.length_nil, Nat.add_zero] at htail
      rw [hindex, hvalue, if_neg (by simp)]
      refine ⟨tail, ?_⟩
      dsimp only
      rw [htail, if_pos rfl]
      simp
    · have hindex : lastIndex (pre.length + 1) (cutNote none rest) =
          some (pre.length + 1 + (lineValue rest).length - 1) := if_neg hvalue
      have hvpos : 0 < (lineValue rest).length := List.length_pos_iff.mpr hvalue
      obtain ⟨c, v, hcv⟩ := List.exists_cons_of_ne_nil hvalue
      obtain ⟨left, hleft⟩ := lineValue_isPre rest
      have hfirst : (pre ++ [0] ++ (rest ++ 0 :: junk)).getD (pre.length + 1) 0 = c := by
        rw [← hleft, hcv, hlen]
        exact getD_append_cons (pre ++ [0]) c _
      rw [hindex]
      dsimp only
      rw [hfirst, hcv, List.head?_cons, Option.any_some]
      by_cases hc : isSpace c = true
      · rw [if_pos hc, if_pos hc]
      · rw [if_neg hc, if_neg hc, ← hcv, Nat.sub_add_cancel (by omega), htail, if_neg hvalue]
        exact ⟨tail, by simp⟩

theorem sconfigParseLine_blanks (hb : ∀ c ∈ blanks, isSpace c = true) (r : List UInt8) :
    sconfigNameBegin (blanks ++ r ++ 0 :: junk) (blanks ++ r).length 0 =
      sconfigNameBegin (blanks ++ r ++ 0 :: junk) r.length blanks.length := by
  have h := sconfigNameBegin_blanks [] (r ++ 0 :: junk) hb r.length
  rw [List.nil_append, List.length_nil, Nat.zero_add] at h
  rw [List.length_append, List.append_assoc, h]

theorem sconfigParseLine_blank (hb : ∀ c ∈ blanks, isSpace c = true) {r : List UInt8}
    (hr : r = [] ∨ r.head? = some charHash) :
    (sconfigParseLine (blanks ++ r ++ 0 :: junk) (blanks ++ r).length).ret = 0 := by
  rw [sconfigParseLine, sconfigParseLine_blanks hb]
  cases r with
  | nil => simp [sconfigNameBegin]
  | cons c r =>
    obtain rfl : c = charHash := Option.some.inj (hr.resolve_left (List.cons_ne_nil _ _))
    have hcur : (blanks ++ charHash :: r ++ 0 :: junk).getD blanks.length 0 = charHash := by
      rw [List.append_assoc, List.cons_append, getD_append_cons]
    rw [List.length_cons, sconfigNameBegin, hcur, if_neg (by decide), if_neg (by decide)]
    dsimp only
    rw [if_pos (Or.inr hcur)]

def parseRest (buffer : List UInt8) (len name : Nat) : Option (Nat × Bool) → ParsedLine
  | none => ⟨-1, 0, 0, buffer⟩
  | some (i, hasAlpha) =>
    if i = len ∨ hasAlpha = false then ⟨-1, 0, 0, buffer⟩ else sconfigParseValue buffer len name i

variable (junk) in
theorem sconfigParseLine_name (hb : ∀ c ∈ blanks, isSpace c = true) {c : UInt8}
    (hspace : ¬ isSpace c = true) (hhash : c ≠ charHash) (r : List UInt8) :
    sconfigParseLine (blanks ++ c :: r ++ 0 :: junk) (blanks ++ c :: r).length =
      if c = charEquals ∨ c = charUnderscore ∨ isDigit c = true then
        ⟨-1, 0, 0, blanks ++ c :: r ++ 0 :: junk⟩
      else parseRest (blanks ++ c :: r ++ 0 :: junk) (blanks ++ c :: r).length blanks.length
        (sconfigNameEnd (blanks ++ c :: r ++ 0 :: junk) (r.length + 1) blanks.length false) := by
  have hcur : (blanks ++ c :: r ++ 0 :: junk).getD blanks.length 0 = c := by
    rw [List.append_assoc, List.cons_append, getD_append_cons]
  rw [sconfigParseLine, sconfigParseLine_blanks hb, List.length_cons, sconfigNameBegin, hcur]
  by_cases hbad : c = charEquals ∨ c = charUnderscore ∨ isDigit c = true
  · rw [if_pos hbad, if_pos hbad]
  · have hlt : blanks.length ≠ (blanks ++ c :: r).length := by
      rw [List.length_append, List.length_cons]
      omega
    have hleft : (blanks ++ c :: r).length - blanks.length = r.length + 1 := by
      rw [List.length_append, List.length_cons]
      omega
    rw [if_neg hbad, if_neg hbad, if_neg hspace]
    dsimp only
    rw [hcur, if_neg (not_or.mpr ⟨hlt, hhash⟩), hleft]
    rfl

theorem IsName.exists_cons (h : IsName name) : ∃ c r, name = c :: r ∧ isAlpha c = true ∧
    ∀ d ∈ name, isNameChar d = true := by
  cases name with
  | nil => exact h.elim
  | cons c r =>
    refine ⟨c, r, rfl, h.1, List.forall_mem_cons.mpr ⟨?_, h.2⟩⟩
    rw [isNameChar, h.1, Bool.true_or, Bool.true_or]

theorem sconfigParseLine_pair (hb : ∀ c ∈ blanks, isSpace c = true) (hn : IsName name) :
    sconfigParseLine (blanks ++ (name ++ charEquals :: rest) ++ 0 :: junk)
        (blanks ++ (name ++ charEquals :: rest)).length =
      sconfigParseValue ((blanks ++ name) ++ charEquals :: (rest ++ 0 :: junk))
        ((blanks ++ name).length + (rest.length + 1)) blanks.length (blanks ++ name).length := by
  obtain ⟨c, r, hname, halpha, hchars⟩ := hn.exists_cons
  obtain ⟨hbad, hspace, hhash⟩ := isAlpha_not halpha
  have hbuffer : blanks ++ (name ++ charEquals :: rest) ++ 0 :: junk =
      (blanks ++ name) ++ charEquals :: (rest ++ 0 :: junk) := by simp
  have hlen : (blanks ++ (name ++ charEquals :: rest)).length =
      (blanks ++ name).length + (rest.length + 1) := by
    simp only [List.length_append, List.length_cons]
    omega
  have hend : sconfigNameEnd (blanks ++ (name ++ charEquals :: rest) ++ 0 :: junk)
      (name.length + (rest.length + 1)) blanks.length false =
        some ((blanks ++ name).length, true) := by
    have h := sconfigNameEnd_name blanks (charEquals :: (rest ++ 0 :: junk)) hchars
      (rest.length + 1) false
    have hcur : (blanks ++ (name ++ charEquals :: (rest ++ 0 :: junk))).getD
        (blanks.length + name.length) 0 = charEquals := by
      rw [← List.append_assoc, ← List.length_append, getD_append_cons]
    have hany : name.any isAlpha = true := by rw [hname, List.any_cons, halpha, Bool.true_or]
    rw [sconfigNameEnd, hcur, if_pos rfl, hany, Bool.or_true, ← List.length_append] at h
    rw [hbuffer, List.append_assoc, h]
  have hline := sconfigParseLine_name junk hb hspace hhash (r ++ charEquals :: rest)
  rw [← List.cons_append, ← hname] at hline
  have hcount : (r ++ charEquals :: rest).length + 1 = name.length + (rest.length + 1) := by
    rw [hname, List.length_append, List.length_cons, List.length_cons]
    omega
  rw [hline, if_neg hbad, hcount, hend, hlen, parseRest, if_neg (by simp), hbuffer]

theorem sconfigNameEnd_other {pre post : List UInt8} (r : List UInt8) :
    sconfigNameEnd (pre ++ (r ++ post)) r.length pre.length false =
      match r.dropWhile isNameChar with
      | [] => some (pre.length + r.length, r.any isAlpha)
      | d :: _ =>
        if d = charEquals then
          some (pre.length + (r.takeWhile isNameChar).length, (r.takeWhile isNameChar).any isAlpha)
        else none := by
  have hsplit := List.takeWhile_append_dropWhile (p := isNameChar) (l := r)
  have hchars : ∀ c ∈ r.takeWhile isNameChar, isNameChar c = true :=
    fun c hc => List.mem_takeWhile_imp hc
  have hscan := sconfigNameEnd_name pre (r.dropWhile isNameChar ++ post) hchars
    (r.dropWhile isNameChar).length false
  rw [← List.append_assoc (r.takeWhile isNameChar), hsplit, ← List.length_append, hsplit,
    Bool.false_or] at hscan
  rw [hscan]
  cases hdrop : r.dropWhile isNameChar with
  | nil =>
    rw [hdrop, List.append_nil] at hsplit
    rw [hsplit]
    rfl
  | cons d tail =>
    have hd : isNameChar d = false := by
      have h := List.head?_dropWhile_not isNameChar r
      rw [hdrop] at h
      simpa using h
    have hcur : (pre ++ (r ++ post)).getD (pre.length + (r.takeWhile isNameChar).length) 0 = d := by
      have hlist : pre ++ (r ++ post) =
          (pre ++ r.takeWhile isNameChar) ++ d :: (tail ++ post) := by
        rw [← List.cons_append, ← hdrop, List.append_assoc,
          ← List.append_assoc (r.takeWhile isNameChar), hsplit]
      rw [hlist, ← List.length_append, getD_append_cons]
    rw [isNameChar, isAlpha, Bool.or_eq_false_iff, Bool.or_eq_false_iff, Bool.or_eq_false_iff,
      decide_eq_false_iff_not] at hd
    obtain ⟨⟨⟨hupper, hlower⟩, hdigit⟩, hunder⟩ := hd
    rw [List.length_cons, sconfigNameEnd, hcur]
    dsimp only
    split
    · rfl
    · rw [if_neg (by simp [hupper, hlower]), if_neg (by simp [hdigit, hunder])]

theorem sconfigParseLine_noName (hb : ∀ c ∈ blanks, isSpace c = true) {c : UInt8}
    (hspace : ¬ isSpace c = true) (hhash : c ≠ charHash) {r : List UInt8}
    (hno : ∀ name rest, c :: r = name ++ charEquals :: rest → ¬ IsName name) :
    (sconfigParseLine (blanks ++ c :: r ++ 0 :: junk) (blanks ++ c :: r).length).ret = -1 := by
  rw [sconfigParseLine_name junk hb hspace hhash]
  by_cases hbad : c = charEquals ∨ c = charUnderscore ∨ isDigit c = true
  · rw [if_pos hbad]
  · rw [if_neg hbad, ← List.length_cons (a := c), List.append_assoc, sconfigNameEnd_other]
    have hsplit := List.takeWhile_append_dropWhile (p := isNameChar) (l := c :: r)
    rw [not_or, not_or] at hbad
    cases hdrop : (c :: r).dropWhile isNameChar with
    | nil => simp [parseRest]
    | cons d tail =>
      dsimp only
      by_cases hd : d = charEquals
      · refine absurd ?_ (hno _ tail (by rw [← hd, ← hdrop, hsplit]))
        by_cases hc : isNameChar c = true
        · rw [List.takeWhile_cons_of_pos hc]
          refine ⟨?_, fun d hd => List.mem_takeWhile_imp hd⟩
          rw [isNameChar, Bool.or_eq_true, Bool.or_eq_true, decide_eq_true_iff] at hc
          exact (hc.resolve_right hbad.2.1).resolve_right hbad.2.2
        · rw [List.dropWhile_cons_of_neg hc] at hdrop
          exact absurd ((List.cons.inj hdrop).1.trans hd) hbad.1
      · rw [if_neg hd, parseRest]

theorem stringAt_append (pre : List UInt8) {s : List UInt8} (h : (0 : UInt8) ∉ s)
    (tail : List UInt8) : stringAt (pre ++ (s ++ 0 :: tail)) pre.length = some s := by
  rw [stringAt, if_pos (by simp), cString, List.drop_left, List.takeWhile_append_of_pos]
  · simp
  · intro c hc
    simpa using ne_of_mem_of_not_mem hc h

variable (junk) in
theorem sconfigParseLine_value (hb : ∀ c ∈ blanks, isSpace c = true) (hn : IsName name)
    (hnul : (0 : UInt8) ∉ blanks ++ (name ++ charEquals :: rest)) :
    let x := sconfigParseLine (blanks ++ (name ++ charEquals :: rest) ++ 0 :: junk)
      (blanks ++ (name ++ charEquals :: rest)).length
    if ((lineValue rest).head?.any isSpace) = true then x.ret = -1
    else x.ret = (if lineValue rest = [] then 1 else 2) ∧ stringAt x.buffer x.name = some name ∧
      stringAt x.buffer x.value = some (lineValue rest) := by
  dsimp only
  rw [sconfigParseLine_pair hb hn]
  have hvalue := sconfigParseValue_eq (blanks ++ name) rest junk blanks.length
  dsimp only at hvalue
  by_cases hspace : ((lineValue rest).head?.any isSpace) = true
  · rw [if_pos hspace] at hvalue ⊢
    exact hvalue
  · rw [if_neg hspace] at hvalue ⊢
    obtain ⟨tail, hx⟩ := hvalue
    simp only [List.mem_append, List.mem_cons, not_or] at hnul
    have hname : (0 : UInt8) ∉ name := hnul.2.1
    have hrest : (0 : UInt8) ∉ lineValue rest :=
      fun h => hnul.2.2.2 ((lineValue_isPre rest).subset h)
    rw [hx]
    refine ⟨rfl, ?_, ?_⟩
    · dsimp only
      rw [List.append_assoc, stringAt_append blanks hname]
    · have hlen : (blanks ++ name).length + 1 = (blanks ++ name ++ [0]).length := by
        simp only [List.length_append, List.length_singleton]
      have hlist : blanks ++ name ++ 0 :: (lineValue rest ++ 0 :: tail) =
          (blanks ++ name ++ [0]) ++ (lineValue rest ++ 0 :: tail) := by simp
      dsimp only
      rw [hlist, hlen, stringAt_append _ hrest]

theorem sconfigParseLine_refused {line : List UInt8} (hnul : (0 : UInt8) ∉ line)
    (hblank : ¬ BlankLine line) (hpair : ¬ ∃ blanks name rest, PairLine line blanks name rest) :
    (sconfigParseLine (line ++ 0 :: junk) line.length).ret = -1 := by
  have hsplit := List.takeWhile_append_dropWhile (p := isSpace) (l := line)
  have hb : ∀ c ∈ line.takeWhile isSpace, isSpace c = true := fun c hc => List.mem_takeWhile_imp hc
  cases hdrop : line.dropWhile isSpace with
  | nil => exact absurd ⟨_, _, hsplit.symm, hb, Or.inl hdrop⟩ hblank
  | cons c r =>
    have hspace : ¬ isSpace c = true := by
      have h := List.head?_dropWhile_not isSpace line
      rw [hdrop] at h
      simpa using h
    have hhash : c ≠ charHash := fun h =>
      hblank ⟨_, _, hsplit.symm, hb, Or.inr (by rw [hdrop, h]; rfl)⟩
    rw [hdrop] at hsplit
    generalize line.takeWhile isSpace = blanks at hsplit hb
    subst hsplit
    by_cases hno : ∀ name rest, c :: r = name ++ charEquals :: rest → ¬ IsName name
    · exact sconfigParseLine_noName hb hspace hhash hno
    · simp only [not_forall, not_not] at hno
      obtain ⟨name, rest, heq, hn⟩ := hno
      rw [heq] at hnul ⊢
      have hvalue := sconfigParseLine_value junk hb hn hnul
      dsimp only at hvalue
      by_cases hfirst : ((lineValue rest).head?.any isSpace) = true
      · rwa [if_pos hfirst] at hvalue
      · refine absurd ⟨blanks, name, rest, by rw [heq], hb, hn, fun c hc => ?_⟩ hpair
        rw [hc, Option.any_some] at hfirst
        exact Bool.eq_false_of_not_eq_true hfirst

variable (junk) in
theorem PairLine.parse {line : List UInt8} (h : PairLine line blanks name rest)
    (hnul : (0 : UInt8) ∉ line) :
    let x := sconfigParseLine (line ++ 0 :: junk) line.length
    x.ret = (if lineValue rest = [] then 1 else 2) ∧ stringAt x.buffer x.name = some name ∧
      stringAt x.buffer x.value = some (lineValue rest) := by
  obtain ⟨rfl, hb, hn, hv⟩ := h
  have hvalue := sconfigParseLine_value junk hb hn hnul
  have hfirst : ¬ ((lineValue rest).head?.any isSpace) = true := by
    cases hhead : (lineValue rest).head? with
    | none => simp
    | some c => simp [hv c hhead]
  dsimp only at hvalue ⊢
  rwa [if_neg hfirst] at hvalue

theorem BlankLine.parse {line : List UInt8} (h : BlankLine line) :
    (sconfigParseLine (line ++ 0 :: junk) line.length).ret = 0 := by
  obtain ⟨blanks, rest, rfl, hb, hr⟩ := h
  exact sconfigParseLine_blank hb hr

variable (junk) in
theorem sconfigParseLine_zero {line : List UInt8} (hnul : (0 : UInt8) ∉ line) :
    (sconfigParseLine (line ++ 0 :: junk) line.length).ret = 0 ↔ BlankLine line := by
  refine ⟨fun hret => ?_, fun h => h.parse⟩
  by_contra hblank
  by_cases hpair : ∃ blanks name rest, PairLine line blanks name rest
  · obtain ⟨blanks, name, rest, h⟩ := hpair
    have hone := (h.parse junk hnul).1
    rw [hret] at hone
    split at hone <;> cases hone
  · rw [sconfigParseLine_refused hnul hblank hpair] at hret
    cases hret

end Parse

/-- Exactly the lines of the grammar are accepted, with the strings of the name and the value. No
index is outside of the buffer even if it ends with the byte behind the line. -/
theorem sconfig_parse_line_grammar {line : List UInt8} (hnul : (0 : UInt8) ∉ line)
    (junk : List UInt8) : ∃ x, sconfigParseLineAt (line ++ 0 :: junk) line.length = some x ∧
      (x.ret = 0 ↔ BlankLine line) ∧
      (x.ret = 1 ∨ x.ret = 2 ↔ ∃ blanks name rest, PairLine line blanks name rest) ∧
      (∀ blanks name rest, PairLine line blanks name rest →
        stringAt x.buffer x.name = some name ∧ stringAt x.buffer x.value = some (lineValue rest) ∧
        (x.ret = 1 ↔ lineValue rest = []) ∧ (x.ret = 2 ↔ lineValue rest ≠ [])) ∧
      (x.ret = -1 ↔ ¬ BlankLine line ∧ ¬ ∃ blanks name rest, PairLine line blanks name rest) := by
  refine ⟨_, sconfigParseLineAt_eq (by simp), ?_⟩
  generalize hx : sconfigParseLine (line ++ 0 :: junk) line.length = x
  have hblank (h : BlankLine line) : x.ret = 0 := hx ▸ h.parse
  have hpair {blanks name rest} (h : PairLine line blanks name rest) :
      x.ret = (if lineValue rest = [] then 1 else 2) ∧ stringAt x.buffer x.name = some name ∧
        stringAt x.buffer x.value = some (lineValue rest) := hx ▸ h.parse junk hnul
  have hrefused (h1 : ¬ BlankLine line)
      (h2 : ¬ ∃ blanks name rest, PairLine line blanks name rest) : x.ret = -1 :=
    hx ▸ sconfigParseLine_refused hnul h1 h2
  have hret (h : ∃ blanks name rest, PairLine line blanks name rest) : x.ret = 1 ∨ x.ret = 2 := by
    obtain ⟨blanks, name, rest, h⟩ := h
    have hret := (hpair h).1
    split at hret
    · exact Or.inl hret
    · exact Or.inr hret
  -- The three results exclude each other, and one of the three kinds of line is at hand.
  by_cases h1 : BlankLine line
  · have h0 := hblank h1
    have h2 : ¬ ∃ blanks name rest, PairLine line blanks name rest := fun h => by
      have := hret h
      omega
    exact ⟨iff_of_true h0 h1, iff_of_false (by omega) h2,
      fun blanks name rest h => absurd ⟨blanks, name, rest, h⟩ h2,
      iff_of_false (by omega) fun h => h.1 h1⟩
  · by_cases h2 : ∃ blanks name rest, PairLine line blanks name rest
    · have hr := hret h2
      refine ⟨iff_of_false (by omega) h1, iff_of_true hr h2, fun blanks name rest h => ?_,
        iff_of_false (by omega) fun h => h.2 h2⟩
      obtain ⟨hret, hname, hvalue⟩ := hpair h
      refine ⟨hname, hvalue, ?_, ?_⟩ <;> rw [hret] <;> split <;> simp_all
    · have hr := hrefused h1 h2
      exact ⟨iff_of_false (by omega) h1, iff_of_false (by omega) h2,
        fun blanks name rest h => absurd ⟨blanks, name, rest, h⟩ h2, iff_of_true hr ⟨h1, h2⟩⟩

/-- The line `a=b# #c`, whose first '#' follows no white space. -/
theorem sconfig_parse_line_grammar_sample :
    ∃ x, sconfigParseLineAt [97, 61, 98, 35, 32, 35, 99, 0] 7 = some x ∧ x.ret = 2 ∧
      stringAt x.buffer x.name = some [97] ∧ stringAt x.buffer x.value = some [98, 35] := by
  obtain ⟨x, hx, -, -, hpair, -⟩ :=
    sconfig_parse_line_grammar (show (0 : UInt8) ∉ [97, 61, 98, 35, 32, 35, 99] by decide) []
  have hvalue : lineValue [98, 35, 32, 35, 99] = [98, 35] := by decide +kernel
  have hfirst (c : UInt8) (hc : (lineValue [98, 35, 32, 35, 99]).head? = some c) :
      isSpace c = false := by
    rw [hvalue, List.head?_cons, Option.some.injEq] at hc
    rw [← hc]
    decide
  obtain ⟨hname, hval, -, hret⟩ := hpair [] [97] [98, 35, 32, 35, 99]
    ⟨rfl, by simp, ⟨by decide, by simp⟩, hfirst⟩
  rw [hvalue] at hval hret
  exact ⟨x, hx, hret.mpr (by simp), hname, hval⟩

end SimpleKit
