import SimpleKit.Io.Buffer
import SimpleKit.Lib.Bytes
import SimpleKit.Lib.Run

/-!
sio_buffer with the unsigned 64-bit arithmetic of its offsets, and with every copy checked
against the allocations that it reads and writes. It does what the model over numbers does, and
is a queue of bytes.
-/
set_option autoImplicit false

namespace SimpleKit.Mem
open Runs

structure SioBuffer where
  buffer : List UInt8
  start : UInt64
  stop : UInt64
  capacity : UInt64
  deriving DecidableEq, Repr

def malloc (size : UInt64) : List UInt8 := List.replicate size.toNat 0

/-- memcpy and memmove of `n` bytes from `src + from` to `dst + to`. -/
def memcpy (dst : List UInt8) (dstAt : UInt64) (src : List UInt8) (srcAt n : UInt64) :
    Option (List UInt8) :=
  if dstAt.toNat + n.toNat ≤ dst.length ∧ srcAt.toNat + n.toNat ≤ src.length then
    some (Bytes.copy dst dstAt.toNat (Bytes.read src srcAt.toNat n.toNat))
  else none

def sioBufferInitCapacity : UInt64 := 16384

def sioBufferShrinkCapacity : UInt64 := 1048576

def sioBufferNew : SioBuffer where
  buffer := malloc sioBufferInitCapacity
  start := 0
  stop := 0
  capacity := sioBufferInitCapacity

def sioBufferReserve (b : SioBuffer) (size : UInt64) : Option SioBuffer :=
  if size ≤ b.capacity - b.stop then some b
  else if size ≤ b.capacity - b.stop + b.start then do
    let buffer ← memcpy b.buffer 0 b.buffer b.start (b.stop - b.start)
    some { b with buffer := buffer, start := 0, stop := b.stop - b.start }
  else do
    let newCapacity := b.stop - b.start + size
    let newCapacity := if newCapacity < b.capacity*2 then b.capacity*2 else newCapacity
    let buffer ← memcpy (malloc newCapacity) 0 b.buffer b.start (b.stop - b.start)
    some { buffer := buffer, start := 0, stop := b.stop - b.start, capacity := newCapacity }

def sioBufferAppend (b : SioBuffer) (data : List UInt8) (size : UInt64) : Option SioBuffer := do
  let b ← sioBufferReserve b size
  let buffer ← memcpy b.buffer b.stop data 0 size
  some { b with buffer := buffer, stop := b.stop + size }

def sioBufferSeek (b : SioBuffer) (size : UInt64) : SioBuffer := { b with stop := b.stop + size }

def sioBufferErase (b : SioBuffer) (size : UInt64) : Option SioBuffer :=
  let b := { b with start := b.start + size }
  if sioBufferShrinkCapacity ≤ b.capacity ∧ b.stop - b.start < sioBufferInitCapacity then do
    let buffer ← memcpy (malloc sioBufferInitCapacity) 0 b.buffer b.start (b.stop - b.start)
    some { buffer := buffer, start := 0, stop := b.stop - b.start,
           capacity := sioBufferInitCapacity }
  else some b

def sioBufferLength (b : SioBuffer) : UInt64 := b.stop - b.start

def sioBufferCapacity (b : SioBuffer) : UInt64 := b.capacity

def sioBufferSpace (b : SioBuffer) : UInt64 × UInt64 := (b.stop, b.capacity - b.stop)

def sioBufferData (b : SioBuffer) : UInt64 × UInt64 := (b.start, b.stop - b.start)

def dataBytes (b : SioBuffer) : List UInt8 :=
  Bytes.read b.buffer (sioBufferData b).1.toNat (sioBufferData b).2.toNat

def fillSpace (b : SioBuffer) (data : List UInt8) : Option SioBuffer := do
  let buffer ← memcpy b.buffer (sioBufferSpace b).1 data 0 (UInt64.ofNat data.length)
  some { b with buffer := buffer }

/-- The buffer in the model over numbers. -/
def SioBuffer.abs (b : SioBuffer) : SimpleKit.SioBuffer :=
  ⟨b.buffer, b.start.toNat, b.stop.toNat, b.capacity.toNat⟩

structure SioBuffer.Wf (b : SioBuffer) : Prop where
  start : b.start ≤ b.stop
  stop : b.stop ≤ b.capacity
  size : b.capacity.toNat = b.buffer.length
  initial : sioBufferInitCapacity ≤ b.capacity

variable {b : SioBuffer}

theorem SioBuffer.Wf.abs (h : b.Wf) : b.abs.Wf :=
  ⟨UInt64.le_iff_toNat_le.mp h.start, UInt64.le_iff_toNat_le.mp h.stop, h.size.symm⟩

theorem SioBuffer.Wf.length (h : b.Wf) :
    (b.stop - b.start).toNat = SimpleKit.sioBufferLength b.abs :=
  UInt64.toNat_sub_of_le _ _ h.start

theorem SioBuffer.Wf.data (h : b.Wf) : dataBytes b = SimpleKit.sioBufferData b.abs := by
  rw [dataBytes, Bytes.read, SimpleKit.sioBufferData, ← h.length]
  rfl

theorem memcpy_eq {dst src : List UInt8} {dstAt srcAt n : UInt64}
    (hd : dstAt.toNat + n.toNat ≤ dst.length) (hs : srcAt.toNat + n.toNat ≤ src.length) :
    memcpy dst dstAt src srcAt n =
      some (Bytes.copy dst dstAt.toNat (Bytes.read src srcAt.toNat n.toNat)) := if_pos ⟨hd, hs⟩

theorem SioBuffer.Wf.copy_front (h : b.Wf) {dst : List UInt8}
    (hd : SimpleKit.sioBufferLength b.abs ≤ dst.length) :
    memcpy dst 0 b.buffer b.start (b.stop - b.start) =
      some (SimpleKit.sioBufferData b.abs ++ dst.drop (SimpleKit.sioBufferLength b.abs)) := by
  have hstart := h.abs.start
  have hstop := h.abs.stop
  have hsize := h.abs.size
  have hlen := h.length
  have hdata : Bytes.read b.buffer b.start.toNat (b.stop - b.start).toNat =
      SimpleKit.sioBufferData b.abs := h.data
  have hn : SimpleKit.sioBufferLength b.abs = b.abs.stop - b.abs.start := rfl
  rw [memcpy_eq (by rw [hlen]; exact (Nat.zero_add _).trans_le hd) ?_, hdata]
  · rw [Bytes.copy, h.abs.length_data]
    simp
  · rw [hlen, hn]
    change b.abs.start + (b.abs.stop - b.abs.start) ≤ b.abs.buffer.length
    omega

theorem SioBuffer.Wf.move (h : b.Wf) (capacity : UInt64)
    (hc : SimpleKit.sioBufferLength b.abs ≤ capacity.toNat) :
    ∃ buffer, memcpy (malloc capacity) 0 b.buffer b.start (b.stop - b.start) = some buffer ∧
      (⟨buffer, 0, b.stop - b.start, capacity⟩ : SioBuffer).abs =
        sioBufferMove b.abs capacity.toNat := by
  refine ⟨_, h.copy_front (by rwa [malloc, List.length_replicate]), ?_⟩
  rw [malloc, List.drop_replicate, SioBuffer.abs, sioBufferMove]
  simp only [h.length]
  rfl

theorem SioBuffer.Wf.of_abs {n : SimpleKit.SioBuffer} (habs : b.abs = n) (h : n.Wf)
    (hinit : SimpleKit.sioBufferInitCapacity ≤ n.capacity) : b.Wf := by
  subst habs
  exact ⟨UInt64.le_iff_toNat_le.mpr h.start, UInt64.le_iff_toNat_le.mpr h.stop, h.size.symm,
    UInt64.le_iff_toNat_le.mpr hinit⟩

theorem reserve_capacity {n : SimpleKit.SioBuffer} (h : n.Wf) (size : Nat) :
    n.capacity ≤ (SimpleKit.sioBufferReserve n size).capacity := by
  have hstart := h.start
  have hstop := h.stop
  rw [SimpleKit.sioBufferReserve]
  split
  · exact Nat.le_refl _
  · split
    · exact Nat.le_refl _
    · dsimp only [sioBufferMove]
      split <;> omega

/-- With the length and the requested size below 2^63 together no sum or product wraps. -/
theorem SioBuffer.Wf.reserve (h : b.Wf) {size : UInt64}
    (hsize : SimpleKit.sioBufferLength b.abs + size.toNat < 2^63) :
    ∃ b', sioBufferReserve b size = some b' ∧
      b'.abs = SimpleKit.sioBufferReserve b.abs size.toNat ∧ b'.Wf := by
  have hstart : b.start.toNat ≤ b.stop.toNat := h.abs.start
  have hstop : b.stop.toNat ≤ b.capacity.toNat := h.abs.stop
  have hcap := b.capacity.toNat_lt
  have hlen : SimpleKit.sioBufferLength b.abs = b.stop.toNat - b.start.toNat := rfl
  have hspace : (b.capacity - b.stop).toNat = b.capacity.toNat - b.stop.toNat :=
    UInt64.toNat_sub_of_le _ _ h.stop
  have hslide : (b.capacity - b.stop + b.start).toNat =
      b.capacity.toNat - b.stop.toNat + b.start.toNat := by
    rw [UInt64.toNat_add, hspace, Nat.mod_eq_of_lt (by omega)]
  have hkeep {b' : SioBuffer} (habs : b'.abs = SimpleKit.sioBufferReserve b.abs size.toNat) :
      b'.Wf :=
    .of_abs habs (h.abs.reserve size.toNat).1
      (Nat.le_trans (UInt64.le_iff_toNat_le.mp h.initial) (reserve_capacity h.abs size.toNat))
  have hfits : size ≤ b.capacity - b.stop ↔ size.toNat ≤ b.abs.capacity - b.abs.stop := by
    rw [UInt64.le_iff_toNat_le, hspace]
    rfl
  have hslides : size ≤ b.capacity - b.stop + b.start ↔
      size.toNat ≤ b.abs.capacity - b.abs.stop + b.abs.start := by
    rw [UInt64.le_iff_toNat_le, hslide]
    rfl
  suffices hsome : ∃ b', sioBufferReserve b size = some b' ∧
      b'.abs = SimpleKit.sioBufferReserve b.abs size.toNat by
    obtain ⟨b', hrun, habs⟩ := hsome
    exact ⟨b', hrun, habs, hkeep habs⟩
  rw [sioBufferReserve, SimpleKit.sioBufferReserve]
  by_cases h1 : size ≤ b.capacity - b.stop
  · rw [if_pos h1, if_pos (hfits.mp h1)]
    exact ⟨b, rfl, rfl⟩
  · rw [if_neg h1, if_neg (mt hfits.mpr h1)]
    by_cases h2 : size ≤ b.capacity - b.stop + b.start
    · rw [if_pos h2, if_pos (hslides.mp h2), h.copy_front (by have := h.size; omega)]
      refine ⟨_, rfl, ?_⟩
      simp only [SioBuffer.abs, h.length]
      rfl
    · rw [if_neg h2, if_neg (mt hslides.mpr h2)]
      have h2' : ¬ size.toNat ≤ b.capacity.toNat - b.stop.toNat + b.start.toNat := mt hslides.mpr h2
      have hnew : (b.stop - b.start + size).toNat = b.stop.toNat - b.start.toNat + size.toNat := by
        rw [UInt64.toNat_add, h.length, hlen, Nat.mod_eq_of_lt (by omega)]
      have hdouble : (b.capacity*2).toNat = b.capacity.toNat*2 := by
        rw [UInt64.toNat_mul]
        exact Nat.mod_eq_of_lt (by change b.capacity.toNat*2 < 2^64; omega)
      dsimp only
      by_cases h3 : b.stop - b.start + size < b.capacity*2
      · have h3' : b.abs.stop - b.abs.start + size.toNat < b.abs.capacity*2 := by
          rw [UInt64.lt_iff_toNat_lt, hnew, hdouble] at h3
          exact h3
        obtain ⟨buffer, hcopy, habs⟩ := h.move (b.capacity*2) (by omega)
        rw [if_pos h3, if_pos h3', hcopy]
        exact ⟨_, rfl, habs.trans (congrArg _ hdouble)⟩
      · have h3' : ¬ b.abs.stop - b.abs.start + size.toNat < b.abs.capacity*2 := by
          rw [UInt64.lt_iff_toNat_lt, hnew, hdouble] at h3
          exact h3
        obtain ⟨buffer, hcopy, habs⟩ := h.move (b.stop - b.start + size) (by omega)
        rw [if_neg h3, if_neg h3', hcopy]
        exact ⟨_, rfl, habs.trans (congrArg _ hnew)⟩

theorem fill_seek_le {n : SimpleKit.SioBuffer} (h : n.Wf) {data : List UInt8} {size : Nat}
    (hdata : data.length ≤ n.capacity - n.stop) (hsize : size ≤ data.length) :
    (SimpleKit.sioBufferSeek (sioBufferFill n data) size).Wf ∧
      SimpleKit.sioBufferData (SimpleKit.sioBufferSeek (sioBufferFill n data) size) =
        SimpleKit.sioBufferData n ++ data.take size := by
  obtain ⟨hwf, hbytes⟩ := h.fill_seek hdata
  have hstart := h.start
  have hstop := h.stop
  have hlen : n.stop + size - n.start =
      min (n.stop - n.start + size) (n.stop + data.length - n.start) := by omega
  refine ⟨⟨?_, ?_, hwf.size⟩, ?_⟩
  · exact Nat.le_trans hstart (Nat.le_add_right _ _)
  · show n.stop + size ≤ n.capacity
    omega
  · calc SimpleKit.sioBufferData (SimpleKit.sioBufferSeek (sioBufferFill n data) size)
        = (SimpleKit.sioBufferData
            (SimpleKit.sioBufferSeek (sioBufferFill n data) data.length)).take
              (n.stop - n.start + size) := by
          rw [SimpleKit.sioBufferData, SimpleKit.sioBufferData, List.take_take]
          exact congrArg (fun k => List.take k _) hlen
      _ = SimpleKit.sioBufferData n ++ data.take size := by
          have hcount : n.stop - n.start = (SimpleKit.sioBufferData n).length :=
            h.length_data.symm
          rw [hbytes, hcount, List.take_length_add_append]

theorem SioBuffer.Wf.fill_seek (h : b.Wf) (data : List UInt8) (size : UInt64)
    (hdata : data.length ≤ (b.capacity - b.stop).toNat) (hsize : size.toNat ≤ data.length) :
    ∃ b', fillSpace b data = some b' ∧ (sioBufferSeek b' size).Wf ∧
      dataBytes (sioBufferSeek b' size) = dataBytes b ++ data.take size.toNat := by
  have hstop : b.stop.toNat ≤ b.capacity.toNat := h.abs.stop
  have hcap := b.capacity.toNat_lt
  have hspace : (b.capacity - b.stop).toNat = b.capacity.toNat - b.stop.toNat :=
    UInt64.toNat_sub_of_le _ _ h.stop
  have hbuffer := h.size
  rw [hspace] at hdata
  have hcount : (UInt64.ofNat data.length).toNat = data.length :=
    UInt64.toNat_ofNat_of_lt' (by change data.length < 2^64; omega)
  have hzero : (0 : UInt64).toNat = 0 := rfl
  have hcopy : memcpy b.buffer b.stop data 0 (UInt64.ofNat data.length) =
      some (Bytes.copy b.buffer b.stop.toNat data) := by
    rw [memcpy_eq (by omega) (by omega), hcount, hzero, Bytes.read, List.drop_zero,
      List.take_length]
  have hseek : (b.stop + size).toNat = b.stop.toNat + size.toNat := by
    rw [UInt64.toNat_add, Nat.mod_eq_of_lt (by omega)]
  have habs : (sioBufferSeek { b with buffer := Bytes.copy b.buffer b.stop.toNat data } size).abs =
      SimpleKit.sioBufferSeek (sioBufferFill b.abs data) size.toNat := by
    simp only [SioBuffer.abs, sioBufferSeek, hseek]
    rfl
  obtain ⟨hwf, hbytes⟩ := fill_seek_le (n := b.abs) h.abs hdata hsize
  have hwf' := SioBuffer.Wf.of_abs habs hwf (UInt64.le_iff_toNat_le.mp h.initial)
  refine ⟨{ b with buffer := Bytes.copy b.buffer b.stop.toNat data }, ?_, hwf', ?_⟩
  · rw [fillSpace, sioBufferSpace, hcopy]
    rfl
  · rw [hwf'.data, habs, hbytes, h.data]

theorem memcpy_take (dst : List UInt8) (dstAt : UInt64) {data : List UInt8} {size : UInt64}
    (h : size.toNat ≤ data.length) : memcpy dst dstAt data 0 size =
      memcpy dst dstAt (data.take size.toNat) 0
        (UInt64.ofNat (data.take size.toNat).length) := by
  have hcount : (data.take size.toNat).length = size.toNat := by
    rw [List.length_take, Nat.min_eq_left h]
  have hzero : (0 : UInt64).toNat = 0 := rfl
  rw [hcount, UInt64.ofNat_toNat, memcpy, memcpy, hcount, hzero, Nat.zero_add, Bytes.read,
    Bytes.read, List.drop_zero, List.drop_zero, List.take_take, Nat.min_self]
  simp only [h, Nat.le_refl]

theorem SioBuffer.Wf.append (h : b.Wf) {data : List UInt8} {size : UInt64}
    (hdata : size.toNat ≤ data.length)
    (hsize : SimpleKit.sioBufferLength b.abs + size.toNat < 2^63) :
    ∃ b', sioBufferAppend b data size = some b' ∧ b'.Wf ∧
      dataBytes b' = dataBytes b ++ data.take size.toNat := by
  obtain ⟨b1, hrun, habs, h1⟩ := h.reserve hsize
  obtain ⟨-, hsame, hroom⟩ := h.abs.reserve size.toNat
  rw [← habs] at hsame hroom
  have hcount : (data.take size.toNat).length = size.toNat := by
    rw [List.length_take, Nat.min_eq_left hdata]
  have hspace : (b1.capacity - b1.stop).toNat = b1.capacity.toNat - b1.stop.toNat :=
    UInt64.toNat_sub_of_le _ _ h1.stop
  obtain ⟨b2, hfill, h2, hbytes⟩ := h1.fill_seek (data.take size.toNat) size
    (by rw [hcount, hspace]; exact hroom) hcount.ge
  rw [fillSpace, sioBufferSpace, ← memcpy_take _ _ hdata] at hfill
  obtain ⟨buffer, hcopy, hb2⟩ := Option.bind_eq_some_iff.mp hfill
  refine ⟨sioBufferSeek b2 size, ?_, h2, ?_⟩
  · rw [sioBufferAppend, hrun, ← Option.some.inj hb2]
    simp only [Option.bind_eq_bind, Option.bind_some, hcopy]
    rfl
  · rw [hbytes, h1.data, hsame, h.data, List.take_take, Nat.min_self]

theorem SioBuffer.Wf.erase (h : b.Wf) {size : UInt64}
    (hsize : size.toNat ≤ SimpleKit.sioBufferLength b.abs) :
    ∃ b', sioBufferErase b size = some b' ∧ b'.Wf ∧
      dataBytes b' = (dataBytes b).drop size.toNat := by
  have hstart : b.start.toNat ≤ b.stop.toNat := h.abs.start
  have hstop := b.stop.toNat_lt
  have hlen : SimpleKit.sioBufferLength b.abs = b.stop.toNat - b.start.toNat := rfl
  have hnext : (b.start + size).toNat = b.start.toNat + size.toNat := by
    rw [UInt64.toNat_add, Nat.mod_eq_of_lt (by omega)]
  obtain ⟨hwf, hbytes⟩ := h.abs.erase hsize
  have h1 : ({ b with start := b.start + size } : SioBuffer).Wf := by
    refine ⟨UInt64.le_iff_toNat_le.mpr ?_, h.stop, h.size, h.initial⟩
    rw [hnext]
    show b.start.toNat + size.toNat ≤ b.stop.toNat
    omega
  have habs1 : ({ b with start := b.start + size } : SioBuffer).abs =
      { b.abs with start := b.abs.start + size.toNat } := by
    simp only [SioBuffer.abs, hnext]
  have hcond : sioBufferShrinkCapacity ≤ b.capacity ∧
      b.stop - (b.start + size) < sioBufferInitCapacity ↔
      SimpleKit.sioBufferShrinkCapacity ≤ b.abs.capacity ∧
        b.abs.stop - (b.abs.start + size.toNat) < SimpleKit.sioBufferInitCapacity := by
    rw [UInt64.le_iff_toNat_le, UInt64.lt_iff_toNat_lt, UInt64.toNat_sub_of_le _ _ h1.start, hnext]
    rfl
  rw [sioBufferErase]
  rw [SimpleKit.sioBufferErase] at hwf hbytes
  dsimp only at hwf hbytes ⊢
  by_cases hshrink : sioBufferShrinkCapacity ≤ b.capacity ∧
      b.stop - (b.start + size) < sioBufferInitCapacity
  · rw [if_pos (hcond.mp hshrink)] at hwf hbytes
    have hfits : SimpleKit.sioBufferLength ({ b with start := b.start + size } : SioBuffer).abs ≤
        sioBufferInitCapacity.toNat := by
      rw [habs1]
      exact Nat.le_of_lt (hcond.mp hshrink).2
    obtain ⟨buffer, hcopy, habs⟩ := h1.move sioBufferInitCapacity hfits
    rw [habs1] at habs
    have h2 := SioBuffer.Wf.of_abs habs hwf (Nat.le_refl _)
    rw [if_pos hshrink]
    refine ⟨_, by rw [hcopy]; rfl, h2, ?_⟩
    rw [h2.data, habs, h.data]
    exact hbytes
  · rw [if_neg (mt hcond.mpr hshrink)] at hbytes
    rw [if_neg hshrink]
    refine ⟨_, rfl, h1, ?_⟩
    rw [h1.data, habs1, h.data]
    exact hbytes

/-- The calls of the interface; `fill` stores bytes in the space and seeks over some of them. -/
inductive SioBufferOp where
  | append : List UInt8 → UInt64 → SioBufferOp
  | reserve : UInt64 → SioBufferOp
  | fill : List UInt8 → UInt64 → SioBufferOp
  | erase : UInt64 → SioBufferOp
  deriving DecidableEq, Repr

def sioBufferStep (b : SioBuffer) : SioBufferOp → Option SioBuffer
  | .append data size => sioBufferAppend b data size
  | .reserve size => sioBufferReserve b size
  | .fill data size => (fillSpace b data).map fun b => sioBufferSeek b size
  | .erase size => sioBufferErase b size

/-- What the caller owes: bytes to read, room for what is stored, and no more than there is. -/
def SioBufferOp.Ok (b : SioBuffer) : SioBufferOp → Prop
  | .append data size => size.toNat ≤ data.length ∧ (sioBufferLength b).toNat + size.toNat < 2^63
  | .reserve size => (sioBufferLength b).toNat + size.toNat < 2^63
  | .fill data size => data.length ≤ (sioBufferSpace b).2.toNat ∧ size.toNat ≤ data.length
  | .erase size => size ≤ sioBufferLength b

instance (b : SioBuffer) : (op : SioBufferOp) → Decidable (op.Ok b)
  | .append _ _ | .fill _ _ => inferInstanceAs (Decidable (_ ∧ _))
  | .reserve _ => inferInstanceAs (Decidable (_ < _))
  | .erase _ => inferInstanceAs (Decidable (_ ≤ _))

def SioBufferOp.added : SioBufferOp → List UInt8
  | .append data size => data.take size.toNat
  | .fill data size => data.take size.toNat
  | _ => []

def SioBufferOp.erased : SioBufferOp → Nat
  | .erase size => size.toNat
  | _ => 0

theorem SioBuffer.Wf.step (h : b.Wf) {op : SioBufferOp} (hop : op.Ok b) :
    ∃ b', sioBufferStep b op = some b' ∧ b'.Wf ∧
      dataBytes b' = (dataBytes b ++ op.added).drop op.erased ∧
      op.erased ≤ (dataBytes b).length := by
  have hcount : (sioBufferLength b).toNat = SimpleKit.sioBufferLength b.abs := h.length
  cases op with
  | append data size =>
    obtain ⟨b', hrun, h', hbytes⟩ := h.append hop.1 (hcount ▸ hop.2)
    exact ⟨b', hrun, h', hbytes, Nat.zero_le _⟩
  | reserve size =>
    have hsize : SimpleKit.sioBufferLength b.abs + size.toNat < 2^63 := hcount ▸ hop
    obtain ⟨b', hrun, habs, h'⟩ := h.reserve hsize
    refine ⟨b', hrun, h', ?_, Nat.zero_le _⟩
    rw [h'.data, habs, (h.abs.reserve size.toNat).2.1, h.data]
    exact (List.append_nil _).symm
  | fill data size =>
    obtain ⟨b', hrun, h', hbytes⟩ := h.fill_seek data size hop.1 hop.2
    exact ⟨sioBufferSeek b' size, by rw [sioBufferStep, hrun]; rfl, h', hbytes, Nat.zero_le _⟩
  | erase size =>
    have hsize : size.toNat ≤ SimpleKit.sioBufferLength b.abs :=
      hcount ▸ UInt64.le_iff_toNat_le.mp hop
    obtain ⟨b', hrun, h', hbytes⟩ := h.erase hsize
    refine ⟨b', hrun, h', ?_, ?_⟩
    · rw [hbytes]
      exact congrArg _ (List.append_nil _).symm
    · rw [h.data, h.abs.length_data]
      exact hsize

/-- All bytes added so far, and how many of them were taken away. -/
def byteQueueStep (t : List UInt8 × Nat) (op : SioBufferOp) : (List UInt8 × Nat) × Unit :=
  ((t.1 ++ op.added, t.2 + op.erased), ())

theorem specRun_byteQueue (t : List UInt8 × Nat) (ops : List SioBufferOp) :
    (specRun byteQueueStep t ops).1 =
      (t.1 ++ ops.flatMap SioBufferOp.added, t.2 + (ops.map SioBufferOp.erased).sum) := by
  induction ops generalizing t with
  | nil => simp [specRun]
  | cons op ops ih =>
    rw [specRun, ih, byteQueueStep]
    simp only [List.flatMap_cons, List.map_cons, List.sum_cons, List.append_assoc, Nat.add_assoc]

def SioBuffer.Queues (b : SioBuffer) (t : List UInt8 × Nat) : Prop :=
  b.Wf ∧ t.2 ≤ t.1.length ∧ dataBytes b = t.1.drop t.2

theorem sioBufferStep_queues (b : SioBuffer) (t : List UInt8 × Nat) (op : SioBufferOp)
    (h : b.Queues t) (hop : op.Ok b) : ∃ b' r, plain sioBufferStep b op = some (b', r) ∧
      b'.Queues (byteQueueStep t op).1 ∧ r = (byteQueueStep t op).2 := by
  obtain ⟨hwf, hle, hdata⟩ := h
  obtain ⟨b', hrun, hwf', hdata', herased⟩ := hwf.step hop
  refine ⟨b', (), by rw [plain, hrun]; rfl, ⟨hwf', ?_, ?_⟩, rfl⟩
  · rw [hdata, List.length_drop] at herased
    show t.2 + op.erased ≤ (t.1 ++ op.added).length
    rw [List.length_append]
    omega
  · rw [hdata', hdata, ← List.drop_append_of_le_length hle, List.drop_drop]
    rfl

theorem sioBufferNew_queues : sioBufferNew.Queues ([], 0) := by
  refine ⟨⟨by decide, by decide, ?_, by decide⟩, Nat.le_refl 0, ?_⟩
  · exact List.length_replicate.symm
  · have hlen : (sioBufferData sioBufferNew).2.toNat = 0 := rfl
    rw [dataBytes, hlen, Bytes.read, List.take_zero, List.drop_nil]

/-- In any run of such calls nothing is copied outside of an allocation, and what is there after
it are the bytes added less those erased; a reserve changes none of them and leaves its room. -/
theorem sio_buffer_fifo {ops : List SioBufferOp}
    (hops : Along (plain sioBufferStep) SioBufferOp.Ok sioBufferNew ops) :
    ∃ b rets, run (plain sioBufferStep) sioBufferNew ops = some (b, rets) ∧
      b.start ≤ b.stop ∧ b.stop ≤ b.capacity ∧ b.capacity.toNat = b.buffer.length ∧
      16384 ≤ b.capacity ∧
      dataBytes b = (ops.flatMap SioBufferOp.added).drop (ops.map SioBufferOp.erased).sum ∧
      (sioBufferLength b).toNat = (dataBytes b).length ∧
      ∀ size : UInt64, (sioBufferLength b).toNat + size.toNat < 2^63 →
        ∃ b', sioBufferReserve b size = some b' ∧ dataBytes b' = dataBytes b ∧
          size ≤ (sioBufferSpace b').2 := by
  obtain ⟨b, rets, hrun, ⟨hwf, -, hdata⟩, -⟩ := run_simulates SioBuffer.Queues Eq
    sioBufferStep_queues sioBufferNew_queues hops
  rw [specRun_byteQueue, List.nil_append, Nat.zero_add] at hdata
  refine ⟨b, rets, hrun, hwf.start, hwf.stop, hwf.size, hwf.initial, hdata, ?_,
    fun size hsize => ?_⟩
  · rw [hwf.data, hwf.abs.length_data]
    exact hwf.length
  · have hcount : (sioBufferLength b).toNat = SimpleKit.sioBufferLength b.abs := hwf.length
    obtain ⟨b', hrun', habs, hwf'⟩ := hwf.reserve (hcount ▸ hsize)
    obtain ⟨-, hsame, hroom⟩ := hwf.abs.reserve size.toNat
    rw [← habs] at hsame hroom
    refine ⟨b', hrun', by rw [hwf'.data, hsame, hwf.data], UInt64.le_iff_toNat_le.mpr ?_⟩
    rw [sioBufferSpace, UInt64.toNat_sub_of_le _ _ hwf'.stop]
    exact hroom

/-- The first reserve moves the byte that is left to the front, and the second allocates anew. -/
def sampleBufferOps : List SioBufferOp :=
  [.append [1, 2, 3] 3, .erase 2, .reserve 16382, .reserve 16384, .fill [4, 5] 1]

theorem sio_buffer_fifo_sample :
    Along (plain sioBufferStep) SioBufferOp.Ok sioBufferNew sampleBufferOps ∧
      ∃ b rets, run (plain sioBufferStep) sioBufferNew sampleBufferOps = some (b, rets) ∧
        dataBytes b = [3, 4] := by
  have hops : Along (plain sioBufferStep) SioBufferOp.Ok sioBufferNew sampleBufferOps := by
    decide +kernel
  obtain ⟨b, rets, hrun, -, -, -, -, hdata, -⟩ := sio_buffer_fifo hops
  exact ⟨hops, b, rets, hrun, hdata.trans (by decide +kernel)⟩

end SimpleKit.Mem
