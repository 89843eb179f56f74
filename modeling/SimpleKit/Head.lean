import SimpleKit.Lib.Bytes

set_option autoImplicit false

namespace SimpleKit

def sheadMagicNum : UInt32 := 0xF2A1C2CC

def sheadEncodeSize : Nat := 24

structure Shead where
  id : UInt64
  type : UInt32
  magicNum : UInt32
  reserved : UInt32
  bodyLen : UInt32
  deriving DecidableEq, Repr

inductive ByteOrder where
  | little : ByteOrder
  | big : ByteOrder
  deriving DecidableEq, Repr

/-- An integer of `n` bytes in the memory of the host. -/
def hostBytes (e : ByteOrder) (n v : Nat) : List UInt8 :=
  match e with
  | .little => Bytes.ofNat n v
  | .big => (Bytes.ofNat n v).reverse

def hostValue (e : ByteOrder) (bytes : List UInt8) : Nat :=
  match e with
  | .little => Bytes.toNat bytes
  | .big => Bytes.toNat bytes.reverse

def sheadReverseLoop : Nat → Nat → List UInt8 → List UInt8
  | i, j, bytes =>
    if i < j then
      sheadReverseLoop (i+1) (j-1) ((bytes.set i (bytes.getD j 0)).set j (bytes.getD i 0))
    else bytes
  termination_by i j => j - i

def sheadReverseBytes (bytes : List UInt8) : List UInt8 :=
  sheadReverseLoop 0 (bytes.length - 1) bytes

def sheadCheckBigendian (e : ByteOrder) (bytes : List UInt8) : List UInt8 :=
  if (hostBytes e 4 1).head? = some 1 then sheadReverseBytes bytes else bytes

def sheadField (e : ByteOrder) (n v : Nat) : List UInt8 :=
  sheadCheckBigendian e (hostBytes e n v)

def sheadEncode (e : ByteOrder) (head : Shead) (output : List UInt8) : List UInt8 × Int :=
  if output.length < sheadEncodeSize then (output, -1)
  else
    let output := Bytes.copy output 0 (sheadField e 8 head.id.toNat)
    let output := Bytes.copy output 8 (sheadField e 4 head.type.toNat)
    let output := Bytes.copy output 12 (sheadField e 4 sheadMagicNum.toNat)
    let output := Bytes.copy output 16 (sheadField e 4 head.reserved.toNat)
    let output := Bytes.copy output 20 (sheadField e 4 head.bodyLen.toNat)
    (output, 0)

def sheadRead (e : ByteOrder) (input : List UInt8) (offset n : Nat) : Nat :=
  hostValue e (sheadCheckBigendian e (Bytes.read input offset n))

def sheadDecode (e : ByteOrder) (head : Shead) (input : List UInt8) : Shead × Int :=
  if input.length < sheadEncodeSize then (head, -1)
  else
    let magicNum := UInt32.ofNat (sheadRead e input 12 4)
    if magicNum ≠ sheadMagicNum then (head, -1)
    else
      let head := { head with magicNum := magicNum }
      let head := { head with id := UInt64.ofNat (sheadRead e input 0 8) }
      let head := { head with type := UInt32.ofNat (sheadRead e input 8 4) }
      let head := { head with reserved := UInt32.ofNat (sheadRead e input 16 4) }
      let head := { head with bodyLen := UInt32.ofNat (sheadRead e input 20 4) }
      (head, 0)

theorem getD_reverseLoop (i j : Nat) (bytes : List UInt8) (hj : j < bytes.length) (k : Nat) :
    (sheadReverseLoop i j bytes).getD k 0 =
      if i ≤ k ∧ k ≤ j then bytes.getD (i + j - k) 0 else bytes.getD k 0 := by
  fun_induction sheadReverseLoop i j bytes with
  | case1 i j bytes hij ih =>
    rw [ih (by simp only [List.length_set]; omega)]
    simp only [List.getD_eq_getElem?_getD, List.getElem?_set, List.length_set]
    by_cases hki : k = i
    · grind
    · by_cases hkj : k = j
      · grind
      · have hmid : i+1 ≤ k ∧ k ≤ j-1 ↔ i ≤ k ∧ k ≤ j := by omega
        grind
  | case2 i j bytes hij =>
    split
    · next hk =>
      congr 1
      omega
    · rfl

theorem length_reverseLoop (i j : Nat) (bytes : List UInt8) :
    (sheadReverseLoop i j bytes).length = bytes.length := by
  fun_induction sheadReverseLoop i j bytes with
  | case1 i j bytes hij ih => rw [ih, List.length_set, List.length_set]
  | case2 => rfl

theorem sheadReverseBytes_eq (bytes : List UInt8) : sheadReverseBytes bytes = bytes.reverse := by
  have hlen : (sheadReverseBytes bytes).length = bytes.length := length_reverseLoop _ _ _
  refine List.ext_getElem (by rw [hlen, List.length_reverse]) fun k hk hk' => ?_
  have hk0 : k < bytes.length := hlen ▸ hk
  have hloop : (sheadReverseBytes bytes).getD k 0 = bytes.getD (0 + (bytes.length - 1) - k) 0 :=
    (getD_reverseLoop 0 (bytes.length - 1) bytes (by omega) k).trans (if_pos (by omega))
  rw [List.getElem_reverse]
  simpa [List.getD_eq_getElem?_getD, hk, hk0, show bytes.length - 1 - k < bytes.length by omega]
    using hloop

theorem sheadCheckBigendian_eq (e : ByteOrder) (bytes : List UInt8) : sheadCheckBigendian e bytes =
    match e with
    | .little => bytes.reverse
    | .big => bytes := by
  cases e with
  | little => exact (if_pos (by decide)).trans (sheadReverseBytes_eq bytes)
  | big => exact if_neg (by decide)

/-- Whatever the host, a field is stored with its most significant byte first. -/
theorem sheadField_eq (e : ByteOrder) (n v : Nat) :
    sheadField e n v = (Bytes.ofNat n v).reverse := by
  rw [sheadField, sheadCheckBigendian_eq]
  cases e <;> rfl

theorem sheadRead_eq (e : ByteOrder) (input : List UInt8) (offset n : Nat) :
    sheadRead e input offset n = Bytes.toNat (Bytes.read input offset n).reverse := by
  rw [sheadRead, sheadCheckBigendian_eq]
  cases e with
  | little => rfl
  | big => rfl

def sheadWire (head : Shead) : List UInt8 :=
  (Bytes.ofNat 8 head.id.toNat).reverse ++ ((Bytes.ofNat 4 head.type.toNat).reverse ++
    ((Bytes.ofNat 4 sheadMagicNum.toNat).reverse ++ ((Bytes.ofNat 4 head.reserved.toNat).reverse ++
      (Bytes.ofNat 4 head.bodyLen.toNat).reverse)))

@[simp] theorem length_sheadWire (head : Shead) : (sheadWire head).length = sheadEncodeSize := by
  simp [sheadWire, sheadEncodeSize]

theorem sheadEncode_eq (e : ByteOrder) (head : Shead) {output : List UInt8}
    (hlen : sheadEncodeSize ≤ output.length) :
    sheadEncode e head output = (sheadWire head ++ output.drop sheadEncodeSize, 0) := by
  rw [sheadEncode, if_neg (by omega)]
  simp only [sheadField_eq]
  rw [← List.nil_append output, Bytes.copy_append List.length_nil, Bytes.copy_append (by simp),
    Bytes.copy_append (by simp), Bytes.copy_append (by simp), Bytes.copy_append (by simp)]
  simp [sheadWire, sheadEncodeSize]

theorem sheadRead_wire (e : ByteOrder) {a r : List UInt8} {offset : Nat} (n v : Nat)
    (ha : a.length = offset) (hv : v < 256^n) :
    sheadRead e (a ++ ((Bytes.ofNat n v).reverse ++ r)) offset n = v := by
  rw [sheadRead_eq, Bytes.read_append ha (by simp), List.reverse_reverse, Bytes.toNat_ofNat,
    Nat.mod_eq_of_lt hv]

/-- Decoding inverts the layout, and fills in the magic number. -/
theorem sheadDecode_wire (e : ByteOrder) (head head0 : Shead) (r : List UInt8) :
    sheadDecode e head0 (sheadWire head ++ r) = ({ head with magicNum := sheadMagicNum }, 0) := by
  generalize hw : sheadWire head ++ r = w
  have hlen : ¬ w.length < sheadEncodeSize := by
    rw [← hw]
    simp
  simp only [sheadWire, List.append_assoc] at hw
  have hid : sheadRead e w 0 8 = head.id.toNat := by
    rw [← hw]
    exact sheadRead_wire e (a := []) 8 _ rfl head.id.toNat_lt
  have htype : sheadRead e w 8 4 = head.type.toNat := by
    rw [← hw]
    exact sheadRead_wire e 4 _ (by simp) head.type.toNat_lt
  rw [← List.append_assoc] at hw
  have hmagic : sheadRead e w 12 4 = sheadMagicNum.toNat := by
    rw [← hw]
    exact sheadRead_wire e 4 _ (by simp) sheadMagicNum.toNat_lt
  rw [← List.append_assoc] at hw
  have hreserved : sheadRead e w 16 4 = head.reserved.toNat := by
    rw [← hw]
    exact sheadRead_wire e 4 _ (by simp) head.reserved.toNat_lt
  rw [← List.append_assoc] at hw
  have hbody : sheadRead e w 20 4 = head.bodyLen.toNat := by
    rw [← hw]
    exact sheadRead_wire e 4 _ (by simp) head.bodyLen.toNat_lt
  rw [sheadDecode, if_neg hlen, hmagic, hid, htype, hreserved, hbody]
  simp only [UInt32.ofNat_toNat, UInt64.ofNat_toNat, ne_eq, not_true_eq_false, if_false]

theorem sheadWire_eq (head : Shead) : sheadWire head =
    Bytes.bigEndian 8 head.id.toNat ++ (Bytes.bigEndian 4 head.type.toNat ++
      (Bytes.bigEndian 4 sheadMagicNum.toNat ++ (Bytes.bigEndian 4 head.reserved.toNat ++
        Bytes.bigEndian 4 head.bodyLen.toNat))) := by
  simp only [sheadWire, Bytes.reverse_ofNat]

theorem sheadRead_lt (e : ByteOrder) (input : List UInt8) (offset n : Nat) :
    sheadRead e input offset n < 256^n := by
  rw [sheadRead_eq]
  refine lt_of_lt_of_le (Bytes.toNat_lt _) (Nat.pow_le_pow_right (by decide) ?_)
  rw [List.length_reverse, Bytes.length_read]
  exact Nat.min_le_left _ _

theorem bigEndian_sheadRead (e : ByteOrder) {input : List UInt8} {offset n : Nat}
    (hlen : offset + n ≤ input.length) :
    Bytes.bigEndian n (sheadRead e input offset n) = Bytes.read input offset n := by
  have hn : (Bytes.read input offset n).reverse.length = n := by
    rw [List.length_reverse, Bytes.length_read]
    omega
  have hbytes := Bytes.ofNat_toNat (Bytes.read input offset n).reverse
  rw [hn] at hbytes
  rw [sheadRead_eq, ← Bytes.reverse_ofNat, hbytes, List.reverse_reverse]

theorem sheadRead_eq_iff (e : ByteOrder) {input : List UInt8} {offset n v : Nat}
    (hlen : offset + n ≤ input.length) (hv : v < 256^n) :
    sheadRead e input offset n = v ↔ Bytes.read input offset n = Bytes.bigEndian n v := by
  constructor
  · intro h
    rw [← bigEndian_sheadRead e hlen, h]
  · intro h
    rw [sheadRead_eq, h, ← Bytes.reverse_ofNat, List.reverse_reverse, Bytes.toNat_ofNat,
      Nat.mod_eq_of_lt hv]

def sheadFields (e : ByteOrder) (input : List UInt8) : Shead :=
  { id := UInt64.ofNat (sheadRead e input 0 8)
    type := UInt32.ofNat (sheadRead e input 8 4)
    magicNum := sheadMagicNum
    reserved := UInt32.ofNat (sheadRead e input 16 4)
    bodyLen := UInt32.ofNat (sheadRead e input 20 4) }

theorem sheadDecode_eq (e : ByteOrder) (head : Shead) {input : List UInt8}
    (hlen : sheadEncodeSize ≤ input.length) : sheadDecode e head input =
      if Bytes.read input 12 4 = Bytes.bigEndian 4 sheadMagicNum.toNat then
        (sheadFields e input, 0)
      else (head, -1) := by
  have hlen' : 12 + 4 ≤ input.length := le_trans (by decide) hlen
  have hmagic : UInt32.ofNat (sheadRead e input 12 4) = sheadMagicNum ↔
      Bytes.read input 12 4 = Bytes.bigEndian 4 sheadMagicNum.toNat := by
    rw [← sheadRead_eq_iff e hlen' sheadMagicNum.toNat_lt, ← UInt32.toNat_inj,
      UInt32.toNat_ofNat_of_lt' (sheadRead_lt e input 12 4)]
  rw [sheadDecode, if_neg (by omega)]
  by_cases h : UInt32.ofNat (sheadRead e input 12 4) = sheadMagicNum
  · simp only [if_pos (hmagic.mp h), h, ne_eq, not_true_eq_false, if_false, sheadFields]
  · simp only [if_neg (mt hmagic.mpr h), if_pos h]

theorem sheadWire_fields (e : ByteOrder) {input : List UInt8}
    (hlen : sheadEncodeSize ≤ input.length)
    (hmagic : Bytes.read input 12 4 = Bytes.bigEndian 4 sheadMagicNum.toNat) :
    sheadWire (sheadFields e input) = input.take sheadEncodeSize := by
  have hlen24 : 24 ≤ input.length := hlen
  have hfield (offset : Nat) (h : offset + 4 ≤ 24) :
      Bytes.bigEndian 4 (UInt32.ofNat (sheadRead e input offset 4)).toNat =
        Bytes.read input offset 4 := by
    rw [UInt32.toNat_ofNat_of_lt' (sheadRead_lt e input offset 4),
      bigEndian_sheadRead e (by omega)]
  have hid : Bytes.bigEndian 8 (UInt64.ofNat (sheadRead e input 0 8)).toNat =
      Bytes.read input 0 8 := by
    rw [UInt64.toNat_ofNat_of_lt' (sheadRead_lt e input 0 8), bigEndian_sheadRead e (by omega)]
  calc sheadWire (sheadFields e input)
      = Bytes.read input 0 8 ++ (Bytes.read input 8 4 ++ (Bytes.read input 12 4 ++
          (Bytes.read input 16 4 ++ Bytes.read input 20 4))) := by
        rw [sheadWire_eq, sheadFields, hid, hfield 8 (by decide), hfield 16 (by decide),
          hfield 20 (by decide), hmagic]
    _ = Bytes.read input 0 24 := by
        rw [Bytes.read_add input 16, Bytes.read_add input 12, Bytes.read_add input 8,
          Bytes.read_add input 0]
    _ = input.take sheadEncodeSize := rfl

/-- Encoding and decoding are inverse on any two hosts, the layout is big-endian, and a call
that fails changes nothing. -/
theorem shead_codec (e e' : ByteOrder) :
    (∀ head head0 output, sheadEncodeSize ≤ output.length →
      (sheadEncode e head output).2 = 0 ∧
      sheadDecode e' head0 (sheadEncode e head output).1 =
        ({ head with magicNum := sheadMagicNum }, 0) ∧
      (sheadEncode e head output).1 =
        Bytes.bigEndian 8 head.id.toNat ++ Bytes.bigEndian 4 head.type.toNat ++
          Bytes.bigEndian 4 sheadMagicNum.toNat ++ Bytes.bigEndian 4 head.reserved.toNat ++
          Bytes.bigEndian 4 head.bodyLen.toNat ++ output.drop sheadEncodeSize) ∧
    (∀ input, input.length = sheadEncodeSize → ∀ head,
      ((sheadDecode e head input).2 = 0 ↔
        Bytes.read input 12 4 = Bytes.bigEndian 4 sheadMagicNum.toNat) ∧
      ((sheadDecode e head input).2 = 0 → ∀ output, sheadEncodeSize ≤ output.length →
        sheadEncode e' (sheadDecode e head input).1 output =
          (input ++ output.drop sheadEncodeSize, 0))) ∧
    (∀ head input, (sheadDecode e head input).2 = -1 → (sheadDecode e head input).1 = head) ∧
    (∀ head output, (sheadEncode e head output).2 = -1 →
      (sheadEncode e head output).1 = output) := by
  refine ⟨fun head head0 output hlen => ?_, fun input hlen head => ?_, fun head input h => ?_,
    fun head output h => ?_⟩
  · rw [sheadEncode_eq e head hlen]
    refine ⟨rfl, sheadDecode_wire e' head head0 _, ?_⟩
    simp only [sheadWire_eq, List.append_assoc]
  · rw [sheadDecode_eq e head (le_of_eq hlen.symm)]
    split
    · next hmagic =>
      refine ⟨by simp only [hmagic], fun _ output hout => ?_⟩
      rw [sheadEncode_eq e' _ hout, sheadWire_fields e (le_of_eq hlen.symm) hmagic, ← hlen,
        List.take_length]
    · next hmagic => exact ⟨by simp [hmagic], fun h => absurd h (by simp)⟩
  · rcases Nat.lt_or_ge input.length sheadEncodeSize with hlen | hlen
    · rw [sheadDecode, if_pos hlen]
    · rw [sheadDecode_eq e head hlen] at h ⊢
      split at h
      · cases h
      · next hmagic => rw [if_neg hmagic]
  · rcases Nat.lt_or_ge output.length sheadEncodeSize with hlen | hlen
    · rw [sheadEncode, if_pos hlen]
    · rw [sheadEncode_eq e head hlen] at h
      cases h

end SimpleKit
