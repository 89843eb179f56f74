import SimpleKit.Rpc.Frame

/-!
How far the frame loops get. A round adds `24 + body_len` to `used`, and that is the length of
the frame only if it has 32 bits: then every frame of the input is handled once and the loop
ends. A longer frame is handled again, or cut into others, and may be handled for ever.
-/
set_option autoImplicit false

namespace SimpleKit
open Framing

inductive UsedAt (e : ByteOrder) (data : List UInt8) : Nat → Prop where
  | start : UsedAt e data 0
  | round {used : Nat} {f : Frame} {n : Nat} : UsedAt e data used →
      rpcNext e (data.drop used) = .item f n → UsedAt e data (used + n)

/-- The length of a frame that begins with `head`, whatever is needed to write it. -/
def Shead.frameLen (head : Shead) : Nat := sheadEncodeSize + head.bodyLen.toNat

theorem Shead.frameLen_pos (head : Shead) : 0 < head.frameLen := by
  rw [frameLen, sheadEncodeSize]
  omega

def bufferedUpTo (e : ByteOrder) : Nat → List UInt8 → List Frame
  | 0, _ => []
  | k+1, l =>
    match rpcNext e l with
    | .item f _ => f :: bufferedUpTo e k (l.drop f.head.frameLen)
    | _ => []

def buffered (e : ByteOrder) (l : List UInt8) : List Frame := bufferedUpTo e l.length l

/-- The loop makes progress on `data`: a round goes on by the length of the frame, `used` stays
in the input, and each of the buffered frames is handled once, in order, whatever is done with
it, after which the loop ends. -/
structure Progress (e : ByteOrder) (data : List UInt8) : Prop where
  exact : ∀ used f n, UsedAt e data used → rpcNext e (data.drop used) = .item f n →
    n = f.head.frameLen
  within : ∀ used, UsedAt e data used → used ≤ data.length
  once : ∃ o, o ≠ .more ∧ ∀ (σ : Type) (handle : σ → Frame → Option σ) fuel s,
    sioRpcParse e handle data (fuel + (buffered e data).length) s 0 =
      ((buffered e data).foldlM handle s).map fun s' => (s', fuel, o)
  few : sheadEncodeSize * (buffered e data).length ≤ data.length

section
variable {e : ByteOrder}

theorem rpcNext_item {l : List UInt8} {f : Frame} {n : Nat} (h : rpcNext e l = .item f n) :
    n = (24 + f.head.bodyLen).toNat ∧ f.head.frameLen ≤ l.length := by
  unfold rpcNext at h
  split at h
  · cases h
  · dsimp only at h
    split at h
    · cases h
    · split at h
      · cases h
      · cases h
        unfold Shead.frameLen
        dsimp only
        exact ⟨rfl, by omega⟩

/-- The sum of a round is the length of the frame if that has 32 bits. -/
theorem advance_exact (head : Shead) :
    (24 + head.bodyLen).toNat = head.frameLen ↔ head.bodyLen.toNat < 2^32 - 24 := by
  have hlt := head.bodyLen.toNat_lt
  rw [UInt32.toNat_add, Shead.frameLen]
  simp only [UInt32.reduceToNat, sheadEncodeSize]
  omega

theorem bufferedUpTo_enough {k k' : Nat} {l : List UInt8} (hk : l.length ≤ k)
    (hk' : l.length ≤ k') :
    bufferedUpTo e k l = bufferedUpTo e k' l := by
  have hempty : ∀ j l, l.length = 0 → bufferedUpTo e j l = [] := by
    intro j l hl
    obtain rfl := List.length_eq_zero_iff.mp hl
    cases j <;> rfl
  induction k generalizing k' l with
  | zero => rw [hempty _ l (by omega), hempty _ l (by omega)]
  | succ k ih =>
    cases k' with
    | zero => rw [hempty _ l (by omega), hempty _ l (by omega)]
    | succ k' =>
      unfold bufferedUpTo
      cases h : rpcNext e l with
      | wait => rfl
      | bad => rfl
      | item f n =>
        have hlen := (rpcNext_item h).2
        have hpos : 0 < f.head.frameLen := Shead.frameLen_pos f.head
        have hdrop : (l.drop f.head.frameLen).length + 1 ≤ l.length := by
          rw [List.length_drop]
          omega
        have hrest : bufferedUpTo e k (l.drop f.head.frameLen) =
            bufferedUpTo e k' (l.drop f.head.frameLen) := ih (by omega) (by omega)
        dsimp only
        rw [hrest]

theorem buffered_item {l : List UInt8} {f : Frame} {n : Nat} (h : rpcNext e l = .item f n) :
    buffered e l = f :: buffered e (l.drop f.head.frameLen) := by
  have hlen := (rpcNext_item h).2
  have hpos := Shead.frameLen_pos f.head
  obtain ⟨k, hk⟩ : ∃ k, l.length = k + 1 := ⟨l.length - 1, by omega⟩
  rw [buffered, hk, bufferedUpTo]
  rw [h]
  dsimp only
  rw [buffered, bufferedUpTo_enough (l := l.drop f.head.frameLen) (k := k) (by
    rw [List.length_drop]
    omega) (Nat.le_refl _)]

theorem buffered_of_no_item {l : List UInt8} (h : ∀ f n, rpcNext e l ≠ .item f n) :
    buffered e l = [] := by
  rw [buffered]
  cases l.length with
  | zero => rfl
  | succ k =>
    rw [bufferedUpTo]
    cases hl : rpcNext e l with
    | wait => rfl
    | bad => rfl
    | item f n => exact absurd hl (h f n)

/-- The length of every buffered frame has 32 bits. -/
def ShortFrames (e : ByteOrder) (l : List UInt8) : Prop :=
  ∀ f ∈ buffered e l, f.head.bodyLen.toNat < 2^32 - 24

theorem ShortFrames.item {l : List UInt8} {f : Frame} {n : Nat} (hs : ShortFrames e l)
    (h : rpcNext e l = .item f n) : n = f.head.frameLen ∧ ShortFrames e (l.drop n) := by
  rw [ShortFrames, buffered_item h] at hs
  have hn : n = f.head.frameLen :=
    (rpcNext_item h).1.trans ((advance_exact f.head).mpr (hs f List.mem_cons_self))
  rw [hn]
  exact ⟨rfl, fun g hg => hs g (List.mem_cons_of_mem f hg)⟩

theorem ShortFrames.used {data : List UInt8} (hs : ShortFrames e data) {used : Nat}
    (h : UsedAt e data used) : used ≤ data.length ∧ ShortFrames e (data.drop used) := by
  induction h with
  | start => exact ⟨Nat.zero_le _, hs⟩
  | round _ hitem ih =>
    have hlen := (rpcNext_item hitem).2
    obtain ⟨hn, hshort⟩ := ih.2.item hitem
    rw [List.length_drop] at hlen
    rw [List.drop_drop] at hshort
    exact ⟨by omega, hshort⟩

theorem ShortFrames.scan {l : List UInt8} (hs : ShortFrames e l) :
    sheadEncodeSize * (buffered e l).length ≤ l.length ∧
    ∃ o, o ≠ .more ∧ ∀ (σ : Type) (handle : σ → Frame → Option σ) fuel s,
      scan (rpcNext e) handle (fuel + (buffered e l).length) s l =
        ((buffered e l).foldlM handle s).map fun s' => (s', fuel, o) := by
  induction hlen : l.length using Nat.strongRecOn generalizing l with
  | ind len ih =>
    cases h : rpcNext e l with
    | wait =>
      rw [buffered_of_no_item fun f n hf => by rw [h] at hf; cases hf]
      exact ⟨Nat.zero_le _, .wait l, (by intro ho; cases ho),
        fun σ handle fuel s => scan_wait h fuel s⟩
    | bad =>
      rw [buffered_of_no_item fun f n hf => by rw [h] at hf; cases hf]
      exact ⟨Nat.zero_le _, .bad, (by intro ho; cases ho), fun σ handle fuel s => scan_bad h fuel s⟩
    | item f n =>
      have hle := (rpcNext_item h).2
      obtain ⟨rfl, hshort⟩ := hs.item h
      have hdrop : (l.drop f.head.frameLen).length = len - f.head.frameLen := by
        rw [List.length_drop, hlen]
      have hhead : sheadEncodeSize ≤ f.head.frameLen := Nat.le_add_right _ _
      have hpos := Shead.frameLen_pos f.head
      obtain ⟨hfew, o, ho, hscan⟩ := ih _ (by omega) hshort hdrop
      rw [buffered_item h, List.length_cons, Nat.mul_add, Nat.mul_one]
      refine ⟨by omega, o, ho, fun σ handle fuel s => ?_⟩
      rw [← Nat.add_assoc, scan_item h, List.foldlM_cons]
      cases handle s f with
      | none => rfl
      | some s' => exact hscan σ handle fuel s'

theorem ShortFrames.progress {data : List UInt8} (hs : ShortFrames e data) : Progress e data := by
  obtain ⟨hfew, o, ho, hscan⟩ := hs.scan
  refine ⟨fun used f n hused hitem => ((hs.used hused).2.item hitem).1,
    fun used hused => (hs.used hused).1,
    ⟨o.map fun l => data.length - l.length, fun h => ?_, fun σ handle fuel s => ?_⟩, hfew⟩
  · cases o with
    | wait l => cases h
    | bad => cases h
    | more => exact ho rfl
  · rw [sioRpcParse_eq e handle data _ s (Nat.zero_le _), List.drop_zero, hscan, Option.map_map]
    rfl

/-- If all rounds go on by the length of the frame, the loop comes to every buffered frame. -/
theorem Progress.short {data : List UInt8} (h : Progress e data) {used : Nat}
    (hused : UsedAt e data used) : ShortFrames e (data.drop used) := by
  induction hlen : (data.drop used).length using Nat.strongRecOn generalizing used with
  | ind len ih =>
    cases hnext : rpcNext e (data.drop used) with
    | wait =>
      rw [ShortFrames, buffered_of_no_item fun f n hf => by rw [hnext] at hf; cases hf]
      exact fun f hf => absurd hf List.not_mem_nil
    | bad =>
      rw [ShortFrames, buffered_of_no_item fun f n hf => by rw [hnext] at hf; cases hf]
      exact fun f hf => absurd hf List.not_mem_nil
    | item f n =>
      have hn := h.exact used f n hused hnext
      have hlt := (advance_exact f.head).mp ((rpcNext_item hnext).1.symm.trans hn)
      have hle := (rpcNext_item hnext).2
      have hpos := Shead.frameLen_pos f.head
      have hrest := ih (data.drop (used + n)).length (by
        rw [List.length_drop] at hlen hle ⊢
        omega) (hused.round hnext) rfl
      rw [ShortFrames, buffered_item hnext, List.drop_drop, ← hn]
      intro g hg
      rcases List.mem_cons.mp hg with rfl | hg
      · exact hlt
      · exact hrest g hg

end

/-- The loops of client and server make progress on an input exactly if the length of every
frame it holds has 32 bits. -/
theorem rpc_loop_progress (e : ByteOrder) (data : List UInt8) :
    Progress e data ↔ ∀ f ∈ buffered e data, f.head.bodyLen.toNat < 2^32 - 24 :=
  ⟨fun h => h.short .start, ShortFrames.progress⟩

/-- The body is as long that the sum of a round is zero. -/
def stuckFrame : Frame :=
  ⟨⟨0, 3, sheadMagicNum, 0, 4294967272⟩, List.replicate 4294967272 0⟩

theorem rpcNext_stuck (e : ByteOrder) :
    rpcNext e (frameWire .little stuckFrame) = .item stuckFrame 0 := by
  have h := rpcNext_frame e .little (f := stuckFrame) (by
    rw [stuckFrame, List.length_replicate]
    decide) []
  rw [List.append_nil] at h
  exact h

/-- The loop handles the one frame of the input as often as it is let. -/
theorem rpc_loop_stuck : ¬ Progress .little (frameWire .little stuckFrame) ∧
    ∀ fuel, sioRpcParse .little recordFrame (frameWire .little stuckFrame) fuel [] 0 =
      some (List.replicate fuel stuckFrame, 0, .more) := by
  have hnext := rpcNext_stuck .little
  refine ⟨fun h => ?_, fun fuel => ?_⟩
  · have hzero := h.exact 0 stuckFrame 0 .start hnext
    rw [Shead.frameLen, sheadEncodeSize] at hzero
    omega
  · have hloop : ∀ fuel fs,
      sioRpcParse .little recordFrame (frameWire .little stuckFrame) fuel fs 0 =
        some (fs ++ List.replicate fuel stuckFrame, 0, .more) := by
      intro fuel
      induction fuel with
      | zero =>
        intro fs
        rw [sioRpcParse_next .little recordFrame _ 0 fs (Nat.zero_le _), List.drop_zero, hnext,
          List.replicate_zero, List.append_nil]
      | succ fuel ih =>
        intro fs
        rw [sioRpcParse_next .little recordFrame _ (fuel+1) fs (Nat.zero_le _), List.drop_zero,
          hnext]
        dsimp only [recordFrame]
        rw [Option.bind_some, ih, List.append_assoc, List.replicate_succ]
        rfl
    exact hloop fuel []

end SimpleKit
