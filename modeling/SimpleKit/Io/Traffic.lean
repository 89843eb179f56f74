import Mathlib.Algebra.Order.Ring.Nat
import SimpleKit.Io.Detached

set_option autoImplicit false

namespace SimpleKit
open Runs

inductive StreamUse where
  | op : StreamOp → StreamUse
  | erase : Nat → StreamUse

def useStep (s : SioStream) : StreamUse → Option (SioStream × StreamRet)
  | .op op => streamStep s op
  | .erase size => some ({ s with inbuf := sioBufferErase s.inbuf size }, .void)

def sioStreamMade (type : SioStreamType) : SioStream :=
  sioStreamNew type <| match type with
    | .listen => sioWatchRead (sioAdd .accept)
    | .connect => sioWatchWrite (sioAdd .connect)
    | .normal => sioWatchRead (sioAdd .stream)

/-- No NULL sfd is used, and no more is erased than there is. -/
def UseOk (s : SioStream) : StreamUse → Prop
  | .op op => DetachedOk s op ∧ SparesSfd s op
  | .erase size => size ≤ sioBufferLength s.inbuf

def receivedBytes : StreamUse → StreamRet → List UInt8
  | .op (.ready (.read (.ok bytes))), .event (some .data) => bytes
  | _, _ => []

def sentBytes : StreamUse → StreamRet → List UInt8
  | .op op, ret => acceptedBytes op ret
  | .erase _, _ => []

def erasedCount : StreamUse → Nat
  | .op _ => 0
  | .erase size => size

/-- What a stream carries: the bytes of writes that were accepted are with the kernel or wait, and
those received and not erased are in inbuf, all in order. -/
structure SioStream.Carries (s : SioStream) (sent received : List UInt8) (taken : Nat) : Prop where
  inbuf : s.inbuf.Wf
  outbuf : s.outbuf.Wf
  written : s.sock ++ sioBufferData s.outbuf = sent
  there : taken ≤ received.length
  read : sioBufferData s.inbuf = received.drop taken

variable {s s' : SioStream} {ret : StreamRet}

theorem sioRunReady_inbuf (h : s.inbuf.Wf) {e : SioReady} (he : StreamOk s (.ready e)) :
    sioBufferData (sioRunReady s e).1.inbuf = sioBufferData s.inbuf ++
      receivedBytes (.op (.ready e)) (.event (sioRunReady s e).2) := by
  obtain ⟨hroomy, hdata, hroom⟩ := h.reserve 4096
  have hnone : ∀ {event : Option SioStreamEvent}, event ≠ some .data →
      receivedBytes (.op (.ready e)) (.event event) = [] := by
    intro event hne
    unfold receivedBytes
    split
    · next heq => exact absurd (StreamRet.event.inj heq) hne
    · rfl
  cases hrun : sioRunReady s e with
  | mk s' event =>
    cases sioRunReady_serves hrun with
    | idle | fails | flush | connected =>
      rw [hnone (fun he => by cases he)]
      exact (List.append_nil _).symm
    | unread hevent =>
      rw [hnone (by rcases hevent with rfl | rfl | rfl <;> exact fun he => by cases he),
        List.append_nil]
      exact hdata
    | data =>
      rw [← hdata]
      exact (hroomy.fill_seek (Nat.le_trans he hroom)).2

theorem streamStep_inbuf {op : StreamOp} (h : s.inbuf.Wf) (hop : DetachedOk s op)
    (hstep : streamStep s op = some (s', ret)) :
    sioBufferData s'.inbuf = sioBufferData s.inbuf ++ receivedBytes (.op op) ret := by
  cases op with
  | write data write =>
    obtain ⟨x, hx, heq⟩ := Option.map_eq_some_iff.mp hstep
    obtain ⟨rfl, rfl⟩ := Prod.mk.inj heq
    rw [(sioStreamWrite_frame hx).2.1]
    exact (List.append_nil _).symm
  | ready e =>
    obtain ⟨rfl, rfl⟩ := Prod.mk.inj (Option.some.inj hstep)
    exact sioRunReady_inbuf h (by cases e <;> exact hop)
  | detach =>
    obtain ⟨y, hy, heq⟩ := Option.map_eq_some_iff.mp hstep
    obtain ⟨fd, -, rfl⟩ := Option.map_eq_some_iff.mp hy
    obtain ⟨rfl, rfl⟩ := Prod.mk.inj heq
    exact (List.append_nil _).symm
  | attach ok =>
    obtain ⟨rfl, rfl⟩ := Prod.mk.inj (Option.some.inj hstep)
    cases ok <;> exact (List.append_nil _).symm

theorem streamStep_written {op : StreamOp} (hin : s.inbuf.Wf) (hout : s.outbuf.Wf)
    (hop : DetachedOk s op) (hstep : streamStep s op = some (s', ret)) :
    s'.inbuf.Wf ∧ s'.outbuf.Wf ∧ s'.written = s.written ++ acceptedBytes op ret := by
  cases op with
  | write data write =>
    obtain ⟨x, hx, heq⟩ := Option.map_eq_some_iff.mp hstep
    obtain ⟨rfl, rfl⟩ := Prod.mk.inj heq
    refine ⟨?_, sioStreamWrite_written hout hx⟩
    rw [(sioStreamWrite_frame hx).2.1]
    exact hin
  | ready e =>
    obtain ⟨rfl, rfl⟩ := Prod.mk.inj (Option.some.inj hstep)
    obtain ⟨hin', hout', hwritten⟩ :=
      (sioRunReady_serves rfl).written hin hout (show StreamOk s (.ready e) by cases e <;> exact hop)
    exact ⟨hin', hout', hwritten.trans (List.append_nil _).symm⟩
  | detach =>
    obtain ⟨y, hy, heq⟩ := Option.map_eq_some_iff.mp hstep
    obtain ⟨fd, -, rfl⟩ := Option.map_eq_some_iff.mp hy
    obtain ⟨rfl, rfl⟩ := Prod.mk.inj heq
    exact ⟨hin, hout, (List.append_nil _).symm⟩
  | attach ok =>
    obtain ⟨rfl, rfl⟩ := Prod.mk.inj (Option.some.inj hstep)
    cases ok <;> exact ⟨hin, hout, (List.append_nil _).symm⟩

theorem SioStream.Carries.step {sent received : List UInt8} {taken : Nat} {use : StreamUse}
    (h : s.Carries sent received taken) (hok : UseOk s use)
    (hstep : useStep s use = some (s', ret)) :
    s'.Carries (sent ++ sentBytes use ret) (received ++ receivedBytes use ret)
      (taken + erasedCount use) := by
  have hle := h.there
  cases use with
  | op op =>
    obtain ⟨hin, hout, hwritten⟩ := streamStep_written h.inbuf h.outbuf hok.1 hstep
    refine ⟨hin, hout, ?_, ?_, ?_⟩
    · rw [← h.written]
      exact hwritten
    · rw [List.length_append]
      exact Nat.le_add_right_of_le hle
    · rw [streamStep_inbuf h.inbuf hok.1 hstep, h.read]
      exact (List.drop_append_of_le_length hle).symm
  | erase size =>
    obtain ⟨rfl, rfl⟩ := Prod.mk.inj (Option.some.inj hstep)
    obtain ⟨hwf, hdata⟩ := h.inbuf.erase hok
    have hlen : (sioBufferData s.inbuf).length = sioBufferLength s.inbuf := h.inbuf.length_data
    rw [h.read, List.length_drop] at hlen
    have hsize : size ≤ sioBufferLength s.inbuf := hok
    refine ⟨hwf, h.outbuf, h.written.trans (List.append_nil _).symm, ?_, ?_⟩
    · change taken + size ≤ (received ++ []).length
      rw [List.append_nil]
      omega
    · change sioBufferData (sioBufferErase s.inbuf size) = (received ++ []).drop (taken + size)
      rw [hdata, h.read, List.drop_drop, List.append_nil]

theorem sioStreamMade_carries (type : SioStreamType) : (sioStreamMade type).Carries [] [] 0 := by
  have hnew : sioBufferData sioBufferNew = [] := sioBufferData_new
  refine ⟨sioBufferNew_wf, sioBufferNew_wf, ?_, Nat.le_refl _, hnew⟩
  exact hnew

/-- A stream that connects or is connected keeps what it sends watched, whatever is done to it. -/
theorem SioStream.Sends.use (h : s.Sends) {use : StreamUse} (hok : UseOk s use)
    (hstep : useStep s use = some (s', ret)) : s'.Sends := by
  cases use with
  | op op =>
    rcases streamStep_detached h hok.1 with ⟨hnone, -⟩ | ⟨-, s1, ret1, hrun, h', -⟩
    · rw [useStep, hnone] at hstep
      cases hstep
    · obtain ⟨rfl, -⟩ := Prod.mk.inj (Option.some.inj (hrun.symm.trans hstep))
      exact h'
  | erase size =>
    obtain ⟨rfl, -⟩ := Prod.mk.inj (Option.some.inj hstep)
    exact ⟨(h.inbuf.erase hok).1, h.outbuf, h.type, h.callback, h.watched⟩

theorem sioStreamMade_sends {type : SioStreamType} (htype : type ≠ .listen) :
    (sioStreamMade type).Sends := by
  cases type with
  | listen => exact absurd rfl htype
  | connect =>
    have hmade : sioStreamConnect true = some (sioStreamMade .connect) := rfl
    exact (sioStreamConnect_sends hmade).1
  | normal =>
    have hmade : sioStreamAccept true = some (sioStreamMade .normal) := rfl
    exact (sioStreamAccept_sends hmade).1

/-- Whatever is done to a stream that uses no NULL sfd, its bytes go both ways in order. -/
theorem SioStream.Carries.run {sent received : List UInt8} {taken : Nat} {uses : List StreamUse}
    {rets : List StreamRet} (h : s.Carries sent received taken) (hok : Along useStep UseOk s uses)
    (hrun : run useStep s uses = some (s', rets)) :
    s'.Carries (sent ++ (uses.zipWith sentBytes rets).flatten)
      (received ++ (uses.zipWith receivedBytes rets).flatten)
      (taken + (uses.map erasedCount).sum) := by
  induction uses generalizing s sent received taken rets with
  | nil =>
    obtain ⟨rfl, rfl⟩ := Prod.mk.inj (Option.some.inj hrun)
    simpa using h
  | cons use uses ih =>
    obtain ⟨s1, r, rs1, he, hy, rfl⟩ := run_cons_some hrun
    have hrest := ih (h.step hok.1 he) (hok.2 _ _ he) hy
    rw [List.zipWith_cons_cons, List.zipWith_cons_cons, List.flatten_cons, List.flatten_cons,
      List.map_cons, List.sum_cons, ← List.append_assoc, ← List.append_assoc, ← Nat.add_assoc]
    exact hrest

/-- A stream that is attached is watched for reading, unless its connection is under way. -/
structure SioStream.Reads (s : SioStream) (listens : Prop) : Prop where
  listen : s.type = .listen ↔ listens
  read : ∀ fd, s.sfd = some fd → fd.watchRead = decide (s.type ≠ .connect)
  callback : ∀ fd, s.sfd = some fd → (fd.callback = .connect ↔ s.type = .connect)

variable {listens : Prop}

theorem SioStream.Reads.keep (h : s.Reads listens) {t : SioStream} (htype : t.type = s.type)
    (hsfd : ∀ fd, t.sfd = some fd → ∃ fd', s.sfd = some fd' ∧ fd.watchRead = fd'.watchRead ∧
      fd.callback = fd'.callback) : t.Reads listens := by
  refine ⟨htype ▸ h.listen, fun fd hfd => ?_, fun fd hfd => ?_⟩
  · obtain ⟨fd', hfd', hread, -⟩ := hsfd fd hfd
    rw [hread, htype]
    exact h.read fd' hfd'
  · obtain ⟨fd', hfd', -, hcall⟩ := hsfd fd hfd
    rw [hcall, htype]
    exact h.callback fd' hfd'

theorem SioStream.Reads.same (h : s.Reads listens) {t : SioStream} (htype : t.type = s.type)
    (hsfd : t.sfd = s.sfd) : t.Reads listens :=
  h.keep htype fun fd hfd => ⟨fd, hsfd ▸ hfd, rfl, rfl⟩

theorem SioStream.Reads.ready (h : s.Reads listens) (e : SioReady) :
    (sioRunReady s e).1.Reads listens := by
  cases hrun : sioRunReady s e with
  | mk s' event =>
    cases sioRunReady_serves hrun with
    | idle | fails => exact h
    | unread | data => exact h.same rfl rfl
    | @flush fd _ _ hfd _ =>
      refine h.keep rfl fun fd' hfd' => ⟨fd, hfd, ?_⟩
      obtain rfl := Option.some.inj hfd'
      split <;> exact ⟨rfl, rfl⟩
    | @connected fd _ hfd hcall =>
      -- the connection is made: the sfd is read from, with another callback
      have htype := (h.callback fd hfd).mp hcall
      refine ⟨?_, fun fd' hfd' => ?_, fun fd' hfd' => ?_⟩
      · rw [← h.listen, htype]
        exact iff_of_false (fun he => by cases he) (fun he => by cases he)
      · obtain rfl := Option.some.inj hfd'
        rw [sioSet]
        split <;> rfl
      · obtain rfl := Option.some.inj hfd'
        exact iff_of_false (fun he => by cases he) (fun he => by cases he)

theorem sioStreamSfd_reads (s : SioStream) :
    (sioStreamSfd s).watchRead = decide (s.type ≠ .connect) ∧
      ((sioStreamSfd s).callback = .connect ↔ s.type = .connect) := by
  rw [sioStreamSfd]
  split
  · next hty => simp [hty, sioWatchRead, sioAdd]
  · next hty => simp [hty, sioWatchWrite, sioAdd]
  · next hty =>
    dsimp only
    split <;> simp [hty, sioWatchRead, sioWatchWrite, sioAdd]

theorem SioStream.Reads.step (h : s.Reads listens) {use : StreamUse}
    (hstep : useStep s use = some (s', ret)) : s'.Reads listens := by
  cases use with
  | erase size =>
    obtain ⟨rfl, -⟩ := Prod.mk.inj (Option.some.inj hstep)
    exact h.same rfl rfl
  | op op =>
    cases op with
    | write data write =>
      obtain ⟨x, hx, heq⟩ := Option.map_eq_some_iff.mp hstep
      obtain ⟨rfl, -⟩ := Prod.mk.inj heq
      obtain ⟨htype, -, hsfd⟩ := sioStreamWrite_frame hx
      exact h.keep htype hsfd
    | ready e =>
      obtain ⟨rfl, -⟩ := Prod.mk.inj (Option.some.inj hstep)
      exact h.ready e
    | detach =>
      obtain ⟨y, hy, heq⟩ := Option.map_eq_some_iff.mp hstep
      obtain ⟨fd, -, rfl⟩ := Option.map_eq_some_iff.mp hy
      obtain ⟨rfl, -⟩ := Prod.mk.inj heq
      exact h.keep rfl (fun _ hfd => by cases hfd)
    | attach ok =>
      obtain ⟨rfl, -⟩ := Prod.mk.inj (Option.some.inj hstep)
      cases ok with
      | false => exact h.keep rfl (fun _ hfd => by cases hfd)
      | true =>
        refine ⟨h.listen, fun fd hfd => ?_, fun fd hfd => ?_⟩ <;> obtain rfl := Option.some.inj hfd
        · exact (sioStreamSfd_reads s).1
        · exact (sioStreamSfd_reads s).2

theorem sioStreamMade_reads (type : SioStreamType) :
    (sioStreamMade type).Reads (type = .listen) := by
  refine ⟨Iff.rfl, fun fd hfd => ?_, fun fd hfd => ?_⟩ <;> cases type <;>
    obtain rfl := Option.some.inj hfd <;> decide

end SimpleKit
