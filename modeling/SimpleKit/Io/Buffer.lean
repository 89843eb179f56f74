import Mathlib.Algebra.Group.Nat.Defs
import Mathlib.Data.List.Basic

/-!
sio_buffer. The bytes of an allocation that were never written read as 0; `stop` is the
source's `end`. Offsets are below the size of an allocation, so they are numbers.
-/
set_option autoImplicit false

namespace SimpleKit

structure SioBuffer where
  buffer : List UInt8
  start : Nat
  stop : Nat
  capacity : Nat
  deriving DecidableEq, Repr

def sioBufferInitCapacity : Nat := 16384

def sioBufferShrinkCapacity : Nat := 1048576

def sioBufferNew : SioBuffer where
  buffer := List.replicate sioBufferInitCapacity 0
  start := 0
  stop := 0
  capacity := sioBufferInitCapacity

def sioBufferLength (b : SioBuffer) : Nat := b.stop - b.start

/-- The bytes that `sio_buffer_data` points to. -/
def sioBufferData (b : SioBuffer) : List UInt8 := (b.buffer.drop b.start).take (sioBufferLength b)

def sioBufferMove (b : SioBuffer) (capacity : Nat) : SioBuffer where
  buffer := sioBufferData b ++ List.replicate (capacity - sioBufferLength b) 0
  start := 0
  stop := sioBufferLength b
  capacity := capacity

def sioBufferReserve (b : SioBuffer) (size : Nat) : SioBuffer :=
  if size ≤ b.capacity - b.stop then b
  else if size ≤ b.capacity - b.stop + b.start then
    { b with
      buffer := sioBufferData b ++ b.buffer.drop (sioBufferLength b)
      start := 0
      stop := sioBufferLength b }
  else
    let newCapacity := b.stop - b.start + size
    sioBufferMove b (if newCapacity < b.capacity*2 then b.capacity*2 else newCapacity)

def sioBufferFill (b : SioBuffer) (data : List UInt8) : SioBuffer :=
  { b with buffer := b.buffer.take b.stop ++ data ++ b.buffer.drop (b.stop + data.length) }

def sioBufferSeek (b : SioBuffer) (size : Nat) : SioBuffer := { b with stop := b.stop + size }

def sioBufferAppend (b : SioBuffer) (data : List UInt8) : SioBuffer :=
  sioBufferSeek (sioBufferFill (sioBufferReserve b data.length) data) data.length

def sioBufferErase (b : SioBuffer) (size : Nat) : SioBuffer :=
  let b := { b with start := b.start + size }
  if sioBufferShrinkCapacity ≤ b.capacity ∧ b.stop - b.start < sioBufferInitCapacity then
    sioBufferMove b sioBufferInitCapacity
  else b

structure SioBuffer.Wf (b : SioBuffer) : Prop where
  start : b.start ≤ b.stop
  stop : b.stop ≤ b.capacity
  size : b.buffer.length = b.capacity

variable {b : SioBuffer}

theorem sioBufferNew_wf : sioBufferNew.Wf :=
  ⟨Nat.le_refl _, Nat.zero_le _, List.length_replicate ..⟩

@[simp] theorem sioBufferData_new : sioBufferData sioBufferNew = [] := List.take_zero ..

theorem SioBuffer.Wf.length_data (h : b.Wf) : (sioBufferData b).length = sioBufferLength b := by
  have hstart := h.start
  have hstop := h.stop
  have hsize := h.size
  rw [sioBufferData, List.length_take, List.length_drop, sioBufferLength]
  omega

theorem SioBuffer.Wf.move (h : b.Wf) (capacity : Nat) (hc : sioBufferLength b ≤ capacity) :
    (sioBufferMove b capacity).Wf ∧ sioBufferData (sioBufferMove b capacity) = sioBufferData b := by
  refine ⟨⟨Nat.zero_le _, hc, ?_⟩, ?_⟩
  · rw [sioBufferMove, List.length_append, h.length_data, List.length_replicate]
    exact Nat.add_sub_cancel' hc
  · rw [sioBufferData, sioBufferLength, sioBufferMove, List.drop_zero, Nat.sub_zero]
    exact List.take_left' h.length_data

theorem SioBuffer.Wf.reserve (h : b.Wf) (size : Nat) :
    (sioBufferReserve b size).Wf ∧ sioBufferData (sioBufferReserve b size) = sioBufferData b ∧
      size ≤ (sioBufferReserve b size).capacity - (sioBufferReserve b size).stop := by
  have hlen : sioBufferLength b = b.stop - b.start := rfl
  have hstart := h.start
  have hstop := h.stop
  have hsize := h.size
  rw [sioBufferReserve]
  split
  · next hfits => exact ⟨h, rfl, hfits⟩
  · split
    · next hfits =>
      refine ⟨⟨Nat.zero_le _, by simp only; omega, ?_⟩, ?_, by simp only; omega⟩
      · rw [List.length_append, h.length_data, List.length_drop]
        simp only
        omega
      · rw [sioBufferData, sioBufferLength, List.drop_zero, Nat.sub_zero]
        exact List.take_left' h.length_data
    · next hfull =>
      dsimp only
      split
      · next hdouble =>
        obtain ⟨hwf, hdata⟩ := h.move (b.capacity*2) (by omega)
        exact ⟨hwf, hdata, by simp only [sioBufferMove]; omega⟩
      · next hlinear =>
        obtain ⟨hwf, hdata⟩ := h.move (b.stop - b.start + size) (by omega)
        exact ⟨hwf, hdata, by simp only [sioBufferMove]; omega⟩

theorem SioBuffer.Wf.fill_seek (h : b.Wf) {data : List UInt8}
    (hd : data.length ≤ b.capacity - b.stop) :
    (sioBufferSeek (sioBufferFill b data) data.length).Wf ∧
      sioBufferData (sioBufferSeek (sioBufferFill b data) data.length) =
        sioBufferData b ++ data := by
  have hstart := h.start
  have hstop := h.stop
  have hsize := h.size
  have htake : (b.buffer.take b.stop).length = b.stop := by
    rw [List.length_take]
    omega
  refine ⟨⟨?_, ?_, ?_⟩, ?_⟩
  · simp only [sioBufferSeek, sioBufferFill]
    omega
  · simp only [sioBufferSeek, sioBufferFill]
    omega
  · simp only [sioBufferSeek, sioBufferFill, List.length_append, htake, List.length_drop]
    omega
  · have hlen : b.stop + data.length - b.start = b.stop - b.start + data.length := by omega
    simp only [sioBufferData, sioBufferLength, sioBufferSeek, sioBufferFill, hlen,
      List.append_assoc]
    rw [List.drop_append_of_le_length (by omega), List.take_append, List.length_drop, htake,
      List.take_of_length_le (by rw [List.length_drop]; omega), Nat.add_sub_cancel_left,
      List.take_left, List.drop_take]

theorem SioBuffer.Wf.append (h : b.Wf) (data : List UInt8) :
    (sioBufferAppend b data).Wf ∧
      sioBufferData (sioBufferAppend b data) = sioBufferData b ++ data := by
  obtain ⟨hwf, hdata, hroom⟩ := h.reserve data.length
  rw [← hdata]
  exact hwf.fill_seek hroom

theorem SioBuffer.Wf.erase (h : b.Wf) {size : Nat} (hs : size ≤ sioBufferLength b) :
    (sioBufferErase b size).Wf ∧
      sioBufferData (sioBufferErase b size) = (sioBufferData b).drop size := by
  have hlen : sioBufferLength b = b.stop - b.start := rfl
  have hstart := h.start
  have hwf : ({ b with start := b.start + size } : SioBuffer).Wf :=
    ⟨by simp only; omega, h.stop, h.size⟩
  have hdata : sioBufferData { b with start := b.start + size } = (sioBufferData b).drop size := by
    simp only [sioBufferData, sioBufferLength]
    rw [List.drop_take, List.drop_drop]
    congr 1
    omega
  rw [sioBufferErase]
  split
  · next hshrink =>
    obtain ⟨hmove, hsame⟩ := hwf.move sioBufferInitCapacity (Nat.le_of_lt hshrink.2)
    exact ⟨hmove, hsame.trans hdata⟩
  · exact ⟨hwf, hdata⟩

end SimpleKit
