import SimpleKit.Head
import SimpleKit.Io.Buffer
import SimpleKit.Lib.Framing

/-!
The loop that cuts the input of a connection into frames. Server and client differ in what
they do with a frame, so the loop takes that as `handle`; whatever it does, the frames are
those of the bytes received, however they were cut.
-/
set_option autoImplicit false

namespace SimpleKit
open Framing

variable {σ : Type}

structure Frame where
  head : Shead
  body : List UInt8
  deriving DecidableEq, Repr

/-- What `struct shead head` is before it is decoded does not matter. -/
def sheadNone : Shead := ⟨0, 0, 0, 0, 0⟩

/-- The loop of `_sio_rpc_dstream_parse_request` and `_sio_rpc_upstream_parse_response`. It
waits with the number of bytes used, or has found a bad header. The sum that is added to
`used` is one of 32 bits, so the loop may not end: at most `fuel` frames are handled. -/
def sioRpcParse (e : ByteOrder) (handle : σ → Frame → Option σ) (data : List UInt8) :
    Nat → σ → Nat → Option (σ × Nat × Outcome Nat)
  | fuel, s, used =>
    if used < data.length then
      let left := data.length - used
      if left < sheadEncodeSize then some (s, fuel, .wait used)
      else
        let (head, ret) := sheadDecode e sheadNone (Bytes.read data used sheadEncodeSize)
        if ret = -1 then some (s, fuel, .bad)
        else if left - sheadEncodeSize < head.bodyLen.toNat then some (s, fuel, .wait used)
        else match fuel with
          | 0 => some (s, 0, .more)
          | fuel+1 => do
            let body := Bytes.read data (used + sheadEncodeSize) head.bodyLen.toNat
            let s ← handle s ⟨head, body⟩
            sioRpcParse e handle data fuel s (used + (24 + head.bodyLen).toNat)
    else some (s, fuel, .wait used)

def sioRpcInput (e : ByteOrder) (handle : σ → Frame → Option σ) (fuel : Nat) (s : σ)
    (input : SioBuffer) : Option (σ × Nat × Outcome SioBuffer) := do
  let x ← sioRpcParse e handle (sioBufferData input) fuel s 0
  some (x.1, x.2.1, x.2.2.map fun used => sioBufferErase input used)

/-- Reads that are appended to the input buffer, each followed by the function, until the
connection is dropped. -/
def sioRpcReads (e : ByteOrder) (handle : σ → Frame → Option σ) :
    Nat → σ → SioBuffer → List (List UInt8) → Option (σ × Nat × Outcome SioBuffer)
  | fuel, s, input, [] => some (s, fuel, .wait input)
  | fuel, s, input, c :: cs => do
    let x ← sioRpcInput e handle fuel s (sioBufferAppend input c)
    match x.2.2 with
    | .wait input => sioRpcReads e handle x.2.1 x.1 input cs
    | _ => some x

def rpcNext (e : ByteOrder) (l : List UInt8) : Next Frame :=
  if l.length < sheadEncodeSize then .wait
  else
    let head := (sheadDecode e sheadNone (l.take sheadEncodeSize)).1
    if (sheadDecode e sheadNone (l.take sheadEncodeSize)).2 = -1 then .bad
    else if l.length - sheadEncodeSize < head.bodyLen.toNat then .wait
    else .item ⟨head, Bytes.read l sheadEncodeSize head.bodyLen.toNat⟩ (24 + head.bodyLen).toNat

/-- The host of a party; whether after a failed write all later ones on the stream fail; what
may be in the input buffer of a stream, known by its address, and which frames may come in. -/
structure RpcView where
  order : ByteOrder
  lasting : Prop
  input : Nat → List UInt8 → Prop
  received : Nat → Frame → Prop
  frame : ∀ st l f n, input st l → rpcNext order l = .item f n →
    received st f ∧ input st (l.drop n)

/-- Anything may come in on a stream, and writes may fail as they like. -/
def RpcView.any (e : ByteOrder) : RpcView where
  order := e
  lasting := False
  input _ _ := True
  received _ _ := True
  frame _ _ _ _ _ _ := ⟨trivial, trivial⟩

theorem advance_le (n : UInt32) : (24 + n).toNat ≤ sheadEncodeSize + n.toNat := by
  rw [UInt32.toNat_add]
  exact Nat.mod_le _ _

theorem rpcNext_stable (e : ByteOrder) : Stable (rpcNext e) := by
  have htake : ∀ l m : List UInt8, ¬ l.length < sheadEncodeSize →
      (l ++ m).take sheadEncodeSize = l.take sheadEncodeSize :=
    fun l m hl => List.take_append_of_le_length (by omega)
  refine ⟨fun l m h => ?_, fun l m b n h => ?_, fun l b n h => ?_⟩
  · unfold rpcNext at h ⊢
    split at h
    · cases h
    · next hl =>
      rw [if_neg (by rw [List.length_append]; omega), htake l m hl]
      dsimp only at h ⊢
      split at h
      · next hbad => rw [if_pos hbad]
      · split at h <;> cases h
  · unfold rpcNext at h ⊢
    split at h
    · cases h
    · next hl =>
      rw [if_neg (by rw [List.length_append]; omega), htake l m hl]
      dsimp only at h ⊢
      split at h
      · cases h
      · next hgood =>
        rw [if_neg hgood]
        split at h
        · cases h
        · next hbody =>
          rw [if_neg (by rw [List.length_append]; omega), ← h, Bytes.read, Bytes.read,
            List.drop_append_of_le_length (by omega),
            List.take_append_of_le_length (by rw [List.length_drop]; omega)]
  · unfold rpcNext at h
    split at h
    · cases h
    · dsimp only at h
      split at h
      · cases h
      · split at h
        · cases h
        · next hl _ hbody =>
          cases h
          have := advance_le (sheadDecode e sheadNone (l.take sheadEncodeSize)).1.bodyLen
          omega

theorem sioRpcParse_next (e : ByteOrder) (handle : σ → Frame → Option σ) (data : List UInt8)
    (fuel : Nat) (s : σ) {used : Nat} (hused : used ≤ data.length) :
    sioRpcParse e handle data fuel s used =
      match rpcNext e (data.drop used) with
      | .wait => some (s, fuel, .wait used)
      | .bad => some (s, fuel, .bad)
      | .item f n =>
        match fuel with
        | 0 => some (s, 0, .more)
        | fuel+1 => (handle s f).bind fun s => sioRpcParse e handle data fuel s (used + n) := by
  have hleft : (data.drop used).length = data.length - used := List.length_drop
  have hbody : ∀ n, Bytes.read (data.drop used) sheadEncodeSize n =
      Bytes.read data (used + sheadEncodeSize) n := by
    intro n
    rw [Bytes.read, Bytes.read, List.drop_drop]
  unfold rpcNext
  rw [hleft]
  by_cases hshort : data.length - used < sheadEncodeSize
  · rw [if_pos hshort]
    rw [sioRpcParse.eq_def]
    dsimp only
    rw [if_pos hshort, ite_self]
  · rw [if_neg hshort]
    have hlt : used < data.length := by
      have : 0 < sheadEncodeSize := by decide
      omega
    have htake : (data.drop used).take sheadEncodeSize = Bytes.read data used sheadEncodeSize := rfl
    rw [sioRpcParse.eq_def]
    dsimp only
    rw [if_pos hlt, if_neg hshort, htake, hbody]
    by_cases hbad : (sheadDecode e sheadNone (Bytes.read data used sheadEncodeSize)).2 = -1
    · rw [if_pos hbad, if_pos hbad]
    · rw [if_neg hbad, if_neg hbad]
      split <;> cases fuel <;> rfl

/-- The loop scans the bytes that are left. -/
theorem sioRpcParse_eq (e : ByteOrder) (handle : σ → Frame → Option σ) (data : List UInt8)
    (fuel : Nat) (s : σ) {used : Nat} (hused : used ≤ data.length) :
    sioRpcParse e handle data fuel s used =
      (scan (rpcNext e) handle fuel s (data.drop used)).map fun x =>
        (x.1, x.2.1, x.2.2.map fun l => data.length - l.length) := by
  have hwait : data.length - (data.drop used).length = used := by
    rw [List.length_drop]
    omega
  induction fuel generalizing s used with
  | zero =>
    rw [sioRpcParse_next e handle data 0 s hused]
    cases h : rpcNext e (data.drop used) with
    | wait => simp only [scan_wait h, Option.map_some, Outcome.map, hwait]
    | bad => rw [scan_bad h]; rfl
    | item f n => rw [scan_zero h]; rfl
  | succ fuel ih =>
    rw [sioRpcParse_next e handle data (fuel+1) s hused]
    cases h : rpcNext e (data.drop used) with
    | wait => simp only [scan_wait h, Option.map_some, Outcome.map, hwait]
    | bad => rw [scan_bad h]; rfl
    | item f n =>
      have hn := (rpcNext_stable e).within _ _ _ h
      rw [List.length_drop] at hn
      rw [scan_item h]
      dsimp only
      cases handle s f with
      | none => rfl
      | some s' =>
        rw [Option.bind_some, Option.bind_some, List.drop_drop]
        exact ih s' (by omega) (by rw [List.length_drop]; omega)

theorem sioRpcParse_keeps (inv : σ → Prop) {e : ByteOrder} {handle : σ → Frame → Option σ}
    (hstep : ∀ s f s', inv s → handle s f = some s' → inv s') {data : List UInt8} {fuel : Nat}
    {s : σ} {x : σ × Nat × Outcome Nat} (hs : inv s)
    (h : sioRpcParse e handle data fuel s 0 = some x) : inv x.1 := by
  rw [sioRpcParse_eq e handle data fuel s (Nat.zero_le _)] at h
  obtain ⟨y, hscan, rfl⟩ := Option.map_eq_some_iff.mp h
  exact scan_keeps inv hstep hs hscan

def inputLeft (x : σ × Nat × Outcome SioBuffer) : σ × Nat × Outcome (List UInt8) :=
  (x.1, x.2.1, x.2.2.map sioBufferData)

theorem sioRpcInput_eq (e : ByteOrder) (handle : σ → Frame → Option σ) (fuel : Nat) (s : σ)
    {input : SioBuffer} (hb : input.Wf) :
    (sioRpcInput e handle fuel s input).map inputLeft =
        scan (rpcNext e) handle fuel s (sioBufferData input) ∧
      ∀ x b, sioRpcInput e handle fuel s input = some x → x.2.2 = .wait b → b.Wf := by
  rw [sioRpcInput, sioRpcParse_eq e handle _ fuel s (Nat.zero_le _), List.drop_zero]
  cases hscan : scan (rpcNext e) handle fuel s (sioBufferData input) with
  | none => exact ⟨rfl, fun x b h => by cases h⟩
  | some x =>
    obtain ⟨s', left, o⟩ := x
    cases o with
    | bad => exact ⟨rfl, fun x b h hx => by cases h; cases hx⟩
    | more => exact ⟨rfl, fun x b h hx => by cases h; cases hx⟩
    | wait l =>
      have hsuffix := (scan_rest hscan).2
      have hsize : (sioBufferData input).length - l.length ≤ sioBufferLength input := by
        rw [hb.length_data]
        exact Nat.sub_le _ _
      obtain ⟨hwf, hdata⟩ := hb.erase hsize
      rw [← List.suffix_iff_eq_drop.mp hsuffix] at hdata
      refine ⟨?_, fun x b h hx => ?_⟩
      · simp only [Option.map_some, Option.bind_eq_bind, Option.bind_some, Outcome.map, inputLeft,
          hdata]
      · cases h
        cases hx
        exact hwf

theorem sioRpcReads_eq (e : ByteOrder) (handle : σ → Frame → Option σ) (fuel : Nat) (s : σ)
    {input : SioBuffer} (hb : input.Wf) (cs : List (List UInt8)) :
    (sioRpcReads e handle fuel s input cs).map inputLeft =
      feed (rpcNext e) handle fuel s (sioBufferData input) cs := by
  induction cs generalizing fuel s input with
  | nil => rfl
  | cons c cs ih =>
    obtain ⟨hwf, hdata⟩ := hb.append c
    obtain ⟨heq, hleft⟩ := sioRpcInput_eq e handle fuel s hwf
    rw [hdata] at heq
    rw [sioRpcReads, feed, ← heq]
    cases hin : sioRpcInput e handle fuel s (sioBufferAppend input c) with
    | none => rfl
    | some x =>
      obtain ⟨s', left, o⟩ := x
      cases o with
      | wait b => exact ih left s' (hleft _ b hin rfl)
      | bad => rfl
      | more => rfl

def frameWire (e : ByteOrder) (f : Frame) : List UInt8 :=
  (sheadEncode e f.head (List.replicate sheadEncodeSize 0)).1 ++ f.body

theorem length_sheadEncode (e : ByteOrder) (head : Shead) :
    (sheadEncode e head (List.replicate sheadEncodeSize 0)).1.length = sheadEncodeSize := by
  rw [sheadEncode_eq e head (by simp)]
  simp

/-- The header tells the length of the body, and the length of the frame has 32 bits. -/
def Frame.Sendable (f : Frame) : Prop :=
  f.head.bodyLen.toNat = f.body.length ∧ f.body.length < 2^32 - 24

instance (f : Frame) : Decidable f.Sendable := inferInstanceAs (Decidable (_ ∧ _))

/-- The receiver sees the magic number, which the sender need not have set. -/
def Frame.received (f : Frame) : Frame :=
  { f with head := { f.head with magicNum := sheadMagicNum } }

theorem frameWire_eq (e : ByteOrder) (f : Frame) : frameWire e f = sheadWire f.head ++ f.body := by
  rw [frameWire, sheadEncode_eq e f.head (by simp)]
  simp

theorem frameWire_received (e : ByteOrder) (f : Frame) :
    frameWire e f.received = frameWire e f := by
  rw [frameWire_eq, frameWire_eq]
  rfl

/-- The loop sees a frame where one was sent, and goes on by a sum of 32 bits. -/
theorem rpcNext_frame (e e' : ByteOrder) {f : Frame} (hf : f.head.bodyLen.toNat = f.body.length)
    (l : List UInt8) :
    rpcNext e (frameWire e' f ++ l) = .item f.received (24 + f.head.bodyLen).toNat := by
  have hlen := length_sheadWire f.head
  have hdecode : sheadDecode e sheadNone (sheadWire f.head) = (f.received.head, 0) := by
    have h := sheadDecode_wire e f.head sheadNone []
    rwa [List.append_nil] at h
  rw [frameWire_eq, rpcNext, List.append_assoc, List.length_append, hlen, if_neg (by omega),
    List.take_left' hlen, hdecode]
  dsimp only
  rw [if_neg (by decide), if_neg (by
    rw [Frame.received, List.length_append]
    simp only
    omega)]
  simp only [Frame.received, hf, Bytes.read, List.drop_left' hlen, List.take_left]

theorem rpcNext_wire (e e' : ByteOrder) {f : Frame} (hf : f.Sendable) (l : List UInt8) :
    rpcNext e (frameWire e' f ++ l) = .item f.received (frameWire e' f).length := by
  obtain ⟨hbody, hmax⟩ := hf
  have hadvance : (24 + f.head.bodyLen).toNat = (frameWire e' f).length := by
    rw [frameWire_eq, List.length_append, length_sheadWire, UInt32.toNat_add, hbody]
    exact Nat.mod_eq_of_lt (by simp only [UInt32.reduceToNat]; omega)
  rw [rpcNext_frame e e' hbody, hadvance]

/-- A receiver sees the frames as if they had been received before they were sent. -/
theorem frameWires_received (e e' : ByteOrder) (frames : List Frame) :
    (frames.map Frame.received).map (frameWire e) = frames.map (frameWire e') := by
  rw [List.map_map]
  exact List.map_congr_left fun f _ =>
    (frameWire_received e f).trans ((frameWire_eq e f).trans (frameWire_eq e' f).symm)

theorem encodes_received (e e' : ByteOrder) {frames : List Frame}
    (hf : ∀ f ∈ frames, Frame.Sendable f) :
    Encodes (rpcNext e) (frameWire e') (frames.map Frame.received) := by
  intro b hb l
  obtain ⟨f, hmem, rfl⟩ := List.mem_map.mp hb
  rw [frameWire_received, rpcNext_wire e e' (hf f hmem)]

/-- The loops of server and client, whatever they do with a frame and wherever the bytes
are cut: any stream is handled like the same stream in one read, a bad header included; and
of a stream of frames exactly those are handled, in order, of which the last byte has
arrived, and what has arrived of the next one stays in the buffer. -/
theorem rpc_framing (e : ByteOrder) (handle : σ → Frame → Option σ) (s : σ) :
    (∀ fuel cs, (sioRpcReads e handle fuel s sioBufferNew cs).map inputLeft =
      (sioRpcReads e handle fuel s sioBufferNew [cs.flatten]).map inputLeft) ∧
    ∀ e' frames, (∀ f ∈ frames, Frame.Sendable f) → ∀ cs later,
      cs.flatten ++ later = (frames.map (frameWire e')).flatten →
      ∃ done rest part, frames = done ++ rest ∧
        cs.flatten = (done.map (frameWire e')).flatten ++ part ∧
        Partial (frameWire e') rest part ∧
        ∀ fuel, (sioRpcReads e handle (fuel + done.length) s sioBufferNew cs).map inputLeft =
          ((done.map Frame.received).foldlM handle s).map fun s' => (s', fuel, .wait part) := by
  have hnil : rpcNext e [] = .wait := rfl
  have hstable := rpcNext_stable e
  refine ⟨fun fuel cs => ?_, fun e' frames hf cs later hcs => ?_⟩
  · rw [sioRpcReads_eq e handle fuel s sioBufferNew_wf,
      sioRpcReads_eq e handle fuel s sioBufferNew_wf,
      sioBufferData_new, feed_eq_scan hstable fuel s hnil, feed_eq_scan hstable fuel s hnil,
      List.flatten_singleton]
  · have hwire := frameWires_received e' e'
    rw [← hwire] at hcs
    obtain ⟨done, rest, part, hframes, hflat, hpart, hfeed⟩ :=
      feed_encoded handle hstable hnil (encodes_received e e' hf) cs later hcs
    obtain ⟨done, rest, rfl, rfl, rfl⟩ := List.map_eq_append_iff.mp hframes
    refine ⟨done, rest, part, rfl, by rw [hflat, hwire], ?_, fun fuel => ?_⟩
    · rcases hpart with hempty | ⟨b, rest', hrest, hprefix, hne⟩
      · exact Or.inl hempty
      · obtain ⟨f, fs, rfl, rfl, rfl⟩ := List.map_eq_cons_iff.mp hrest
        rw [frameWire_received] at hprefix hne
        exact Or.inr ⟨f, fs, rfl, hprefix, hne⟩
    · rw [sioRpcReads_eq e handle _ s sioBufferNew_wf, sioBufferData_new]
      have h := hfeed fuel s
      rwa [List.length_map] at h

def recordFrame (fs : List Frame) (f : Frame) : Option (List Frame) := some (fs ++ [f])

def sampleFrames : List Frame := [⟨⟨7, 3, 0, 0, 2⟩, [8, 9]⟩, ⟨⟨8, 3, 0, 1, 0⟩, []⟩]

/-- The first frame is cut in its header; of the second a byte is missing. -/
def sampleReads : List (List UInt8) :=
  [(sampleFrames.map (frameWire .big)).flatten.take 10,
    ((sampleFrames.map (frameWire .big)).flatten.drop 10).take 39]

theorem rpc_framing_sample : ∃ done rest part, sampleFrames = done ++ rest ∧
    sampleReads.flatten = (done.map (frameWire .big)).flatten ++ part ∧
    Partial (frameWire .big) rest part ∧
    ∀ fuel, (sioRpcReads .little recordFrame (fuel + done.length) [] sioBufferNew
        sampleReads).map inputLeft =
      ((done.map Frame.received).foldlM recordFrame []).map fun s' => (s', fuel, .wait part) :=
  (rpc_framing .little recordFrame []).2 .big sampleFrames (by decide) sampleReads
    ((sampleFrames.map (frameWire .big)).flatten.drop 49) (by decide)

end SimpleKit
