import SimpleKit.Io.Stream

set_option autoImplicit false

namespace SimpleKit
open Runs

inductive StreamOp where
  | write : List UInt8 → Except Errno Nat → StreamOp
  | ready : SioReady → StreamOp
  | detach : StreamOp
  | attach : Bool → StreamOp

inductive StreamRet where
  | void : StreamRet
  | code : Int → StreamRet
  | event : Option SioStreamEvent → StreamRet
  deriving DecidableEq, Repr

def streamStep (s : SioStream) : StreamOp → Option (SioStream × StreamRet)
  | .write data write => (sioStreamWrite s data write).map fun x => (x.1, .code x.2)
  | .ready ready => some ((sioRunReady s ready).1, .event (sioRunReady s ready).2)
  | .detach => (sioStreamDetach s).map fun s => (s, .void)
  | .attach ok => some ((sioStreamAttach s ok).1, .code (sioStreamAttach s ok).2)

def WroteAtMost (size : Nat) : Except Errno Nat → Prop
  | .ok bytes => bytes ≤ size
  | .error _ => True

def ReadAtMost (size : Nat) : Except Errno (List UInt8) → Prop
  | .ok bytes => bytes.length ≤ size
  | .error _ => True

instance (size : Nat) : (write : Except Errno Nat) → Decidable (WroteAtMost size write)
  | .ok bytes => inferInstanceAs (Decidable (bytes ≤ size))
  | .error _ => .isTrue trivial

instance (size : Nat) : (read : Except Errno (List UInt8)) → Decidable (ReadAtMost size read)
  | .ok bytes => inferInstanceAs (Decidable (bytes.length ≤ size))
  | .error _ => .isTrue trivial

/-- Writes and detaches are made while the stream is attached, an attach that may fail
while it is not, and system calls do not transfer more than they are asked to. -/
def StreamOk (s : SioStream) : StreamOp → Prop
  | .write data write => s.sfd.isSome ∧ WroteAtMost data.length write
  | .ready (.write _ write) => WroteAtMost (sioBufferLength s.outbuf) write
  | .ready (.read read) => ReadAtMost 4096 read
  | .ready .error => True
  | .detach => s.sfd.isSome
  | .attach ok => ok ∨ s.sfd = none

instance (s : SioStream) : (op : StreamOp) → Decidable (StreamOk s op)
  | .write data write =>
    inferInstanceAs (Decidable (s.sfd.isSome ∧ WroteAtMost data.length write))
  | .ready (.write _ write) =>
    inferInstanceAs (Decidable (WroteAtMost (sioBufferLength s.outbuf) write))
  | .ready (.read read) => inferInstanceAs (Decidable (ReadAtMost 4096 read))
  | .ready .error => .isTrue trivial
  | .detach => inferInstanceAs (Decidable (s.sfd.isSome = true))
  | .attach ok => inferInstanceAs (Decidable (ok = true ∨ s.sfd = none))

def acceptedBytes : StreamOp → StreamRet → List UInt8
  | .write data _, ret => if ret = .code 0 then data else []
  | _, _ => []

/-- A stream that sends: while it is attached, a backlog or a connection under way is
watched. -/
structure SioStream.Sends (s : SioStream) : Prop where
  inbuf : s.inbuf.Wf
  outbuf : s.outbuf.Wf
  type : s.type ≠ .listen
  callback : ∀ fd, s.sfd = some fd → fd.callback = if s.type = .connect then .connect else .stream
  watched : ∀ fd, s.sfd = some fd → sioBufferLength s.outbuf ≠ 0 ∨ s.type = .connect →
    fd.watchWrite = true

def SioStream.written (s : SioStream) : List UInt8 := s.sock ++ sioBufferData s.outbuf

variable {s s' : SioStream}

theorem sioStreamConnect_sends {ok : Bool} (h : sioStreamConnect ok = some s) :
    s.Sends ∧ s.written = [] := by
  cases ok with
  | false => cases h
  | true =>
    cases h
    exact ⟨⟨sioBufferNew_wf, sioBufferNew_wf, nofun, by rintro fd ⟨⟩; rfl,
      by rintro fd ⟨⟩ _; rfl⟩, rfl⟩

theorem sioStreamAccept_sends {ok : Bool} (h : sioStreamAccept ok = some s) :
    s.Sends ∧ s.written = [] := by
  cases ok with
  | false => cases h
  | true =>
    cases h
    refine ⟨⟨sioBufferNew_wf, sioBufferNew_wf, nofun, by rintro fd ⟨⟩; rfl, ?_⟩, rfl⟩
    rintro fd ⟨⟩ (h | h)
    · exact absurd rfl h
    · cases h

theorem sioBufferData_eq_nil {b : SioBuffer} (h : b.Wf) (h0 : ¬ sioBufferLength b ≠ 0) :
    sioBufferData b = [] := by
  rw [← List.length_eq_zero_iff, h.length_data]
  exact not_not.mp h0

def SioStream.Direct (s : SioStream) : Prop := sioBufferLength s.outbuf = 0 ∧ s.type ≠ .connect

theorem SioStream.Direct.iff_not : s.Direct ↔
    ¬ (sioBufferLength s.outbuf ≠ 0 ∨ s.type = .connect) := by
  rw [not_or, not_not]
  exact Iff.rfl

/-- A write fails if nothing waits and the kernel says so, and then does nothing. -/
structure SioStream.Wrote (s : SioStream) (data : List UInt8) (write : Except Errno Nat)
    (s' : SioStream) (ret : Int) : Prop where
  sends : s'.Sends
  sfd : s'.sfd.isSome
  type : s'.type = s.type
  inbuf : s'.inbuf = s.inbuf
  written : s'.written = s.written ++ if ret = 0 then data else []
  failed : ret ≠ 0 ↔ s.Direct ∧ write = .error .other
  same : ret ≠ 0 → s' = s
  direct : data ≠ [] →
    (s'.Direct ↔ s.Direct ∧ (write = .error .other ∨ write = .ok data.length))

theorem SioStream.Sends.backlog (h : s.Sends) (hfd : s.sfd.isSome) (data : List UInt8) :
    ∃ s', sioStreamBacklog s data = some s' ∧ s'.Sends ∧ s'.sfd.isSome ∧ s'.type = s.type ∧
      s'.inbuf = s.inbuf ∧ s'.written = s.written ++ data ∧ (data ≠ [] → ¬ s'.Direct) := by
  obtain ⟨fd, hfd⟩ := Option.isSome_iff_exists.mp hfd
  obtain ⟨hwf, hdata⟩ := h.outbuf.append data
  unfold sioStreamBacklog
  rw [hfd, Option.map_some]
  refine ⟨_, rfl, ⟨h.inbuf, hwf, h.type, ?_, ?_⟩, rfl, rfl, rfl, ?_, fun hne hdirect => ?_⟩
  · rintro _ ⟨⟩
    exact h.callback fd hfd
  · rintro _ ⟨⟩ _
    rfl
  · rw [SioStream.written, hdata, SioStream.written, List.append_assoc]
  · refine hne (List.append_eq_nil_iff.mp (hdata.symm.trans ?_)).2
    exact sioBufferData_eq_nil hwf (not_not.mpr hdirect.1)

/-- A write leaves the rest alone: of the sfd only the watch for writing changes. -/
theorem sioStreamWrite_frame {data : List UInt8} {write : Except Errno Nat} {ret : Int}
    (h : sioStreamWrite s data write = some (s', ret)) :
    s'.type = s.type ∧ s'.inbuf = s.inbuf ∧ ∀ fd, s'.sfd = some fd →
      ∃ fd', s.sfd = some fd' ∧ fd.watchRead = fd'.watchRead ∧ fd.callback = fd'.callback := by
  have hback : ∀ (t : SioStream) (rest : List UInt8), t.type = s.type → t.inbuf = s.inbuf →
      t.sfd = s.sfd → (sioStreamBacklog t rest).map (fun s => (s, (0 : Int))) = some (s', ret) →
        s'.type = s.type ∧ s'.inbuf = s.inbuf ∧ ∀ fd, s'.sfd = some fd →
          ∃ fd', s.sfd = some fd' ∧ fd.watchRead = fd'.watchRead ∧ fd.callback = fd'.callback := by
    intro t rest htype hin hsfd hb
    obtain ⟨y, hy, heq⟩ := Option.map_eq_some_iff.mp hb
    obtain ⟨fd, hfd, rfl⟩ := Option.map_eq_some_iff.mp hy
    obtain ⟨rfl, rfl⟩ := Prod.mk.inj heq
    refine ⟨htype, hin, ?_⟩
    rintro _ ⟨⟩
    exact ⟨fd, hsfd ▸ hfd, rfl, rfl⟩
  have hsame : ∀ {t : SioStream}, t = s' → t.type = s.type → t.inbuf = s.inbuf → t.sfd = s.sfd →
      s'.type = s.type ∧ s'.inbuf = s.inbuf ∧ ∀ fd, s'.sfd = some fd →
        ∃ fd', s.sfd = some fd' ∧ fd.watchRead = fd'.watchRead ∧ fd.callback = fd'.callback := by
    rintro _ rfl htype hin hsfd
    exact ⟨htype, hin, fun fd hfd => ⟨fd, hsfd ▸ hfd, rfl, rfl⟩⟩
  unfold sioStreamWrite at h
  split at h
  · exact hsame (Prod.mk.inj (Option.some.inj h)).1 rfl rfl rfl
  · split at h
    · exact hsame (Prod.mk.inj (Option.some.inj h)).1 rfl rfl rfl
    · exact hback s data rfl rfl rfl h
    · next bytes =>
      dsimp only at h
      split at h
      · exact hsame (Prod.mk.inj (Option.some.inj h)).1 rfl rfl rfl
      · exact hback { s with sock := s.sock ++ data.take bytes } _ rfl rfl rfl h

/-- A write is added to the bytes that were accepted, unless it fails. -/
theorem sioStreamWrite_written (h : s.outbuf.Wf) {data : List UInt8} {write : Except Errno Nat}
    {ret : Int} (hrun : sioStreamWrite s data write = some (s', ret)) :
    s'.outbuf.Wf ∧
      s'.written = s.written ++ acceptedBytes (.write data write) (.code ret) := by
  have hback : ∀ (t : SioStream) (rest : List UInt8), t.outbuf.Wf →
      (sioStreamBacklog t rest).map (fun s => (s, (0 : Int))) = some (s', ret) →
        s'.outbuf.Wf ∧ s'.written = t.written ++ rest ∧ ret = 0 := by
    intro t rest ht hb
    obtain ⟨y, hy, heq⟩ := Option.map_eq_some_iff.mp hb
    obtain ⟨fd, -, rfl⟩ := Option.map_eq_some_iff.mp hy
    obtain ⟨rfl, rfl⟩ := Prod.mk.inj heq
    obtain ⟨hwf, hdata⟩ := ht.append rest
    exact ⟨hwf, by rw [SioStream.written, hdata, SioStream.written, List.append_assoc], rfl⟩
  unfold sioStreamWrite at hrun
  split at hrun
  · obtain ⟨rfl, rfl⟩ := Prod.mk.inj (Option.some.inj hrun)
    obtain ⟨hwf, hdata⟩ := h.append data
    refine ⟨hwf, ?_⟩
    rw [SioStream.written, hdata, SioStream.written, List.append_assoc]
    rfl
  · next hwait =>
    have hempty := sioBufferData_eq_nil h fun hlen => hwait (Or.inl hlen)
    split at hrun
    · obtain ⟨rfl, rfl⟩ := Prod.mk.inj (Option.some.inj hrun)
      exact ⟨h, (List.append_nil _).symm⟩
    · obtain ⟨hwf, hwritten, rfl⟩ := hback s data h hrun
      exact ⟨hwf, hwritten⟩
    · next bytes =>
      have hsock : ({ s with sock := s.sock ++ data.take bytes } : SioStream).written =
          s.written ++ data.take bytes := by
        simp only [SioStream.written, hempty, List.append_nil]
      dsimp only at hrun
      split at hrun
      · next hall =>
        obtain ⟨rfl, rfl⟩ := Prod.mk.inj (Option.some.inj hrun)
        refine ⟨h, hsock.trans ?_⟩
        rw [hall, List.take_length]
        rfl
      · obtain ⟨hwf, hwritten, rfl⟩ :=
          hback { s with sock := s.sock ++ data.take bytes } _ h hrun
        refine ⟨hwf, ?_⟩
        rw [hwritten, hsock, List.append_assoc, List.take_append_drop]
        rfl

theorem SioStream.Sends.write (h : s.Sends) (hfd : s.sfd.isSome) {data : List UInt8}
    {write : Except Errno Nat} (hw : WroteAtMost data.length write) :
    ∃ s' ret, sioStreamWrite s data write = some (s', ret) ∧ s.Wrote data write s' ret := by
  unfold sioStreamWrite
  split
  · next hwait =>
    obtain ⟨hwf, hdata⟩ := h.outbuf.append data
    have hno : ¬ s.Direct := fun hd => SioStream.Direct.iff_not.mp hd hwait
    refine ⟨_, _, rfl, ⟨⟨h.inbuf, hwf, h.type, h.callback, fun fd hfd _ => h.watched fd hfd hwait⟩,
      hfd, rfl, rfl, ?_, ⟨fun hne => absurd rfl hne, fun hf => absurd hf.1 hno⟩,
      fun hne => absurd rfl hne, fun hne => ⟨fun hd => ?_, fun hd => absurd hd.1 hno⟩⟩⟩
    · rw [SioStream.written, hdata, SioStream.written, List.append_assoc, if_pos rfl]
    · have hempty := sioBufferData_eq_nil hwf (not_not.mpr hd.1)
      exact absurd (List.append_eq_nil_iff.mp (hdata.symm.trans hempty)).2 hne
  · next hwait =>
    have hdirect : s.Direct := SioStream.Direct.iff_not.mpr hwait
    have hempty := sioBufferData_eq_nil h.outbuf (not_not.mpr hdirect.1)
    -- what the kernel has not taken, if it has not failed, waits
    have hlater : ∀ e, e ≠ .other → ∃ s' ret,
        (sioStreamBacklog s data).map (fun s => (s, (0 : Int))) = some (s', ret) ∧
          s.Wrote data (.error e) s' ret := by
      intro e he
      obtain ⟨s', hrun, h', hfd', hty, hin, hwritten, hno⟩ := h.backlog hfd data
      refine ⟨s', 0, by rw [hrun]; rfl,
        ⟨h', hfd', hty, hin, hwritten, ?_, fun hne => absurd rfl hne,
        fun hne => ⟨fun hd => absurd hd (hno hne), ?_⟩⟩⟩
      · exact ⟨fun hne => absurd rfl hne, fun hf => absurd (Except.error.inj hf.2) he⟩
      · rintro ⟨-, hf | hf⟩
        · exact absurd (Except.error.inj hf) he
        · cases hf
    cases write with
    | error e =>
      cases e with
      | other =>
        exact ⟨s, -1, rfl, h, hfd, rfl, rfl, (List.append_nil _).symm,
          ⟨fun _ => ⟨hdirect, rfl⟩, fun _ => by decide⟩, fun _ => rfl,
          fun _ => ⟨fun hd => ⟨hd, Or.inl rfl⟩, fun hd => hd.1⟩⟩
      | eintr => exact hlater _ nofun
      | eagain => exact hlater _ nofun
    | ok bytes =>
      have hsent : ({ s with sock := s.sock ++ data.take bytes } : SioStream).Sends :=
        ⟨h.inbuf, h.outbuf, h.type, h.callback, h.watched⟩
      have hsock : ({ s with sock := s.sock ++ data.take bytes } : SioStream).written =
          s.written ++ data.take bytes := by
        simp only [SioStream.written, hempty, List.append_nil]
      dsimp only
      split
      · next hall =>
        refine ⟨_, _, rfl, hsent, hfd, rfl, rfl, ?_, ⟨fun hne => absurd rfl hne, nofun⟩,
          fun hne => absurd rfl hne, fun _ => ⟨fun _ => ⟨hdirect, ?_⟩, fun _ => hdirect⟩⟩
        · rw [hsock, hall, List.take_length, if_pos rfl]
        · exact Or.inr (congrArg _ hall)
      · next hpart =>
        obtain ⟨s', hrun, h', hfd', hty, hin, hwritten, hno⟩ := hsent.backlog hfd (data.drop bytes)
        have hleft : data.drop bytes ≠ [] := fun hd => hpart
          (Nat.le_antisymm hw (List.drop_eq_nil_iff.mp hd))
        refine ⟨s', 0, by rw [hrun]; rfl, ⟨h', hfd', hty, hin, ?_,
          ⟨fun hne => absurd rfl hne, nofun⟩, fun hne => absurd rfl hne,
          fun _ => ⟨fun hd => absurd hd (hno hleft), ?_⟩⟩⟩
        · rw [hwritten, hsock, List.append_assoc, List.take_append_drop, if_pos rfl]
        · rintro ⟨-, hf | hf⟩
          · cases hf
          · exact absurd (Except.ok.inj hf) hpart

structure SioStream.WroteTwo (s : SioStream) (head body : List UInt8)
    (write1 write2 : Except Errno Nat) (s' : SioStream) (ret1 ret2 : Int) : Prop where
  sends : s'.Sends
  sfd : s'.sfd.isSome
  type : s'.type = s.type
  inbuf : s'.inbuf = s.inbuf
  written : s'.written =
    s.written ++ ((if ret1 = 0 then head else []) ++ if ret2 = 0 then body else [])
  failed1 : ret1 ≠ 0 ↔ s.Direct ∧ write1 = .error .other
  failed2 : ret2 ≠ 0 ↔ s.Direct ∧ write2 = .error .other ∧
    (write1 = .error .other ∨ write1 = .ok head.length)
  stuck : ret2 ≠ 0 → s'.Direct

theorem SioStream.Sends.writeTwo (h : s.Sends) (hfd : s.sfd.isSome) {head : List UInt8}
    (body : List UInt8) (hne : head ≠ []) {write1 write2 : Except Errno Nat}
    (hw1 : WroteAtMost head.length write1)
    (hw2 : WroteAtMost body.length write2) :
    ∃ s1 ret1 s2 ret2, sioStreamWrite s head write1 = some (s1, ret1) ∧
      sioStreamWrite s1 body write2 = some (s2, ret2) ∧
      s.WroteTwo head body write1 write2 s2 ret1 ret2 := by
  obtain ⟨s1, ret1, hrun1, h1⟩ := h.write hfd hw1
  obtain ⟨s2, ret2, hrun2, h2⟩ := h1.sends.write h1.sfd hw2
  refine ⟨s1, ret1, s2, ret2, hrun1, hrun2, h2.sends, h2.sfd, h2.type.trans h1.type,
    h2.inbuf.trans h1.inbuf, ?_, h1.failed, ?_, fun hf => ?_⟩
  · rw [h2.written, h1.written, List.append_assoc]
  · rw [h2.failed, h1.direct hne]
    tauto
  · rw [h2.same hf]
    exact (h2.failed.mp hf).1

section WroteTwo
variable {head body : List UInt8} {write1 write2 : Except Errno Nat} {ret1 ret2 : Int}

theorem SioStream.WroteTwo.whole (h : s.WroteTwo head body write1 write2 s' ret1 ret2)
    (h1 : ret1 = 0) (h2 : ret2 = 0) : s'.written = s.written ++ (head ++ body) := by
  rw [h.written, if_pos h1, if_pos h2]

theorem SioStream.WroteTwo.refused_iff (h : s.WroteTwo head body write1 write2 s' ret1 ret2) :
    ¬ (ret1 = 0 ∧ ret2 = 0) ↔ s.Direct ∧ (write1 = .error .other ∨
      write1 = .ok head.length ∧ write2 = .error .other) := by
  rw [not_and_or]
  constructor
  · rintro (hf | hf)
    · obtain ⟨hd, hw⟩ := h.failed1.mp hf
      exact ⟨hd, Or.inl hw⟩
    · obtain ⟨hd, hw2, hw1⟩ := h.failed2.mp hf
      exact ⟨hd, hw1.imp_right fun hw => ⟨hw, hw2⟩⟩
  · rintro ⟨hd, hw | ⟨hw1, hw2⟩⟩
    · exact Or.inl (h.failed1.mpr ⟨hd, hw⟩)
    · exact Or.inr (h.failed2.mpr ⟨hd, hw2, Or.inr hw1⟩)

/-- When failures last, no byte of the body follows a header that was refused. -/
theorem SioStream.WroteTwo.lasting (h : s.WroteTwo head body write1 write2 s' ret1 ret2)
    (hlast : write1 = .error .other → write2 = .error .other) :
    s'.written <+: s.written ++ (head ++ body) ∧ (¬ (ret1 = 0 ∧ ret2 = 0) → s'.Direct) := by
  have hboth : ret1 ≠ 0 → ret2 ≠ 0 := fun hf => by
    obtain ⟨hd, hw⟩ := h.failed1.mp hf
    exact h.failed2.mpr ⟨hd, hlast hw, Or.inl hw⟩
  refine ⟨?_, fun hf => ?_⟩
  · rw [h.written, List.prefix_append_right_inj]
    by_cases h2 : ret2 = 0
    · have h1 : ret1 = 0 := of_not_not fun h1 => hboth h1 h2
      have hall : ((if ret1 = 0 then head else []) ++ if ret2 = 0 then body else []) =
          head ++ body := by rw [if_pos h1, if_pos h2]
      exact hall ▸ List.prefix_refl _
    · rw [if_neg h2, List.append_nil]
      split
      · exact List.prefix_append _ _
      · exact List.nil_prefix
  · refine h.stuck fun h2 => ?_
    exact hf ⟨of_not_not fun h1 => hboth h1 h2, h2⟩

end WroteTwo

/-- What `sio_run` does with an event of a stream, and what its user is called for. -/
inductive SioServes (s : SioStream) : SioReady → SioStream → Option SioStreamEvent → Prop
  | idle {e : SioReady} : SioServes s e s none
  | fails {e : SioReady} : SioServes s e s (some .error)
  -- there is room in inbuf, but nothing is read
  | unread {read : Except Errno (List UInt8)} {event : Option SioStreamEvent} :
      event = none ∨ event = some .error ∨ event = some .close →
      SioServes s (.read read) { s with inbuf := sioBufferReserve s.inbuf 4096 } event
  | data {bytes : List UInt8} :
      SioServes s (.read (.ok bytes))
        { s with
          inbuf := sioBufferSeek (sioBufferFill (sioBufferReserve s.inbuf 4096) bytes)
            bytes.length } (some .data)
  | flush {fd : SioFd} {conn : Bool} {bytes : Nat} : s.sfd = some fd → fd.callback = .stream →
      SioServes s (.write conn (.ok bytes))
        { s with
          sock := s.sock ++ (sioBufferData s.outbuf).take bytes
          outbuf := sioBufferErase s.outbuf bytes
          sfd := some (if bytes = sioBufferLength s.outbuf then sioUnwatchWrite fd else fd) } none
  | connected {fd : SioFd} {write : Except Errno Nat} : s.sfd = some fd → fd.callback = .connect →
      SioServes s (.write true write)
        { s with
          type := .normal
          sfd := some (sioSet (if sioBufferLength s.outbuf = 0 then sioUnwatchWrite (sioWatchRead fd)
            else sioWatchRead fd) .stream) } (some .connected)

theorem sioRunReady_serves {e : SioReady} {event : Option SioStreamEvent}
    (hrun : sioRunReady s e = (s', event)) : SioServes s e s' event := by
  unfold sioRunReady at hrun
  split at hrun
  · cases hrun
    exact .idle
  · next fd hfd =>
    split at hrun
    · unfold sioCallback at hrun
      split at hrun
      · cases hrun
        exact .idle
      · next hcall =>
        unfold sioConnectCallback at hrun
        split at hrun <;> cases hrun
        · exact .connected hfd hcall
        · exact .fails
        · exact .fails
        · exact .idle
      · next hcall =>
        cases e with
        | read read =>
          change sioStreamOnRead s read = _ at hrun
          unfold sioStreamOnRead at hrun
          split at hrun <;> cases hrun
          · exact .unread (Or.inr (Or.inl rfl))
          · exact .unread (Or.inl rfl)
          · exact .unread (Or.inr (Or.inr rfl))
          · exact .data
        | write conn write =>
          change sioStreamOnWrite s fd write = _ at hrun
          unfold sioStreamOnWrite at hrun
          split at hrun <;> cases hrun
          · exact .fails
          · exact .idle
          · exact .flush hfd hcall
        | error =>
          cases hrun
          exact .fails
    · cases hrun
      exact .idle

/-- An event moves bytes from outbuf to the kernel, at most. -/
theorem SioServes.written {e : SioReady} {event : Option SioStreamEvent}
    (h : SioServes s e s' event) (hin : s.inbuf.Wf) (hout : s.outbuf.Wf)
    (he : StreamOk s (.ready e)) : s'.inbuf.Wf ∧ s'.outbuf.Wf ∧ s'.written = s.written := by
  obtain ⟨hroomy, -, hroom⟩ := hin.reserve 4096
  cases h with
  | idle | fails | connected => exact ⟨hin, hout, rfl⟩
  | unread => exact ⟨hroomy, hout, rfl⟩
  | data => exact ⟨(hroomy.fill_seek (Nat.le_trans he hroom)).1, hout, rfl⟩
  | flush =>
    obtain ⟨hwf, hdata⟩ := hout.erase he
    refine ⟨hin, hwf, ?_⟩
    rw [SioStream.written, hdata, SioStream.written, List.append_assoc, List.take_append_drop]

theorem SioStream.Sends.serves (h : s.Sends) {e : SioReady} {event : Option SioStreamEvent}
    (hserves : SioServes s e s' event) (he : StreamOk s (.ready e)) :
    s'.Sends ∧ s'.written = s.written := by
  obtain ⟨hin, hout, hwritten⟩ := hserves.written h.inbuf h.outbuf he
  refine ⟨?_, hwritten⟩
  cases hserves with
  | idle | fails => exact h
  | unread | data => exact ⟨hin, h.outbuf, h.type, h.callback, h.watched⟩
  | @flush fd _ bytes hfd hcall =>
    have hty : s.type ≠ .connect := fun hty => by
      rw [h.callback fd hfd, if_pos hty] at hcall
      cases hcall
    refine ⟨h.inbuf, hout, h.type, ?_, ?_⟩
    · rintro _ ⟨⟩
      rw [← h.callback fd hfd]
      split <;> rfl
    · rintro _ ⟨⟩ hwait
      have hne : bytes ≠ sioBufferLength s.outbuf := by
        rintro rfl
        refine hwait.elim (fun hlen => hlen ?_) hty
        rw [← hout.length_data, (h.outbuf.erase he).2, ← h.outbuf.length_data, List.drop_length]
        rfl
      rw [if_neg hne]
      refine h.watched fd hfd (Or.inl fun h0 => hne ?_)
      have hle : bytes ≤ sioBufferLength s.outbuf := he
      rw [h0] at hle
      exact (Nat.le_zero.mp hle).trans h0.symm
  | @connected fd _ hfd hcall =>
    have hty : s.type = .connect := of_not_not fun hty => by
      rw [h.callback fd hfd, if_neg hty] at hcall
      cases hcall
    refine ⟨h.inbuf, h.outbuf, nofun, by rintro _ ⟨⟩; rfl, ?_⟩
    rintro _ ⟨⟩ (hlen | hcon)
    · dsimp only at hlen
      rw [if_neg hlen]
      exact h.watched fd hfd (Or.inr hty)
    · cases hcon

theorem SioStream.Sends.ready (h : s.Sends) {e : SioReady} (he : StreamOk s (.ready e)) :
    (sioRunReady s e).1.Sends ∧ (sioRunReady s e).1.written = s.written := by
  cases hrun : sioRunReady s e with
  | mk s' event => exact h.serves (sioRunReady_serves hrun) he

theorem sioRunReady_sfd (e : SioReady) (hfd : s.sfd.isSome) : (sioRunReady s e).1.sfd.isSome := by
  cases hrun : sioRunReady s e with
  | mk s' event =>
    cases sioRunReady_serves hrun with
    | idle | fails | unread | data => exact hfd
    | flush | connected => rfl

theorem sioRunReady_event (s : SioStream) (e : SioReady) : (sioRunReady s e).2 ≠ some .accept := by
  cases hrun : sioRunReady s e with
  | mk s' event =>
    cases sioRunReady_serves hrun with
    | unread hevent => rcases hevent with rfl | rfl | rfl <;> nofun
    | _ => nofun

theorem SioStream.Sends.ready_normal (h : s.Sends) (hty : s.type = .normal) {e : SioReady}
    (he : StreamOk s (.ready e)) :
    (sioRunReady s e).1.type = .normal ∧ (sioRunReady s e).2 ≠ some .connected ∧
      (sioBufferLength s.outbuf = 0 → sioBufferLength (sioRunReady s e).1.outbuf = 0) := by
  cases hrun : sioRunReady s e with
  | mk s' event =>
    cases sioRunReady_serves hrun with
    | idle | fails | data => exact ⟨hty, nofun, id⟩
    | unread hevent => exact ⟨hty, by rcases hevent with rfl | rfl | rfl <;> nofun, id⟩
    | flush =>
      obtain ⟨hwf, hdata⟩ := h.outbuf.erase he
      refine ⟨hty, nofun, fun h0 => ?_⟩
      change sioBufferLength (sioBufferErase s.outbuf _) = 0
      rw [← hwf.length_data, hdata, List.length_drop, h.outbuf.length_data, h0, Nat.zero_sub]
    | connected hfd hcall =>
      rw [h.callback _ hfd, hty, if_neg nofun] at hcall
      cases hcall

theorem SioStream.Sends.attach (h : s.Sends) (ok : Bool) :
    (sioStreamAttach s ok).1.Sends ∧ (sioStreamAttach s ok).1.written = s.written := by
  cases ok with
  | false => exact ⟨⟨h.inbuf, h.outbuf, h.type, nofun, nofun⟩, rfl⟩
  | true =>
    refine ⟨⟨h.inbuf, h.outbuf, h.type, ?_, ?_⟩, rfl⟩
    · rintro _ ⟨⟩
      unfold sioStreamSfd
      split
      · next hty => exact absurd hty h.type
      · next hty => exact (if_pos hty).symm
      · next hty =>
        have hne : s.type ≠ .connect := by rw [hty]; nofun
        refine Eq.trans ?_ (if_neg hne).symm
        dsimp only
        split <;> rfl
    · rintro _ ⟨⟩ hwait
      unfold sioStreamSfd
      split
      · next hty => exact absurd hty h.type
      · rfl
      · next hty =>
        have hlen : sioBufferLength s.outbuf ≠ 0 :=
          hwait.resolve_right fun hcon => by cases hty.symm.trans hcon
        exact congrArg SioFd.watchWrite (if_pos hlen)

theorem streamStep_sends {op : StreamOp} (h : s.Sends) (hop : StreamOk s op) :
    ∃ s' ret, streamStep s op = some (s', ret) ∧ s'.Sends ∧
      s'.written = s.written ++ acceptedBytes op ret ∧
      (ret = .code (-1) → s'.outbuf = s.outbuf) := by
  cases op with
  | write data write =>
    obtain ⟨s', ret, hrun, h'⟩ := h.write hop.1 hop.2
    refine ⟨s', .code ret, by rw [streamStep, hrun]; rfl, h'.sends, ?_, ?_⟩
    · simp only [h'.written, acceptedBytes, StreamRet.code.injEq]
    · rintro ⟨⟩
      rw [h'.same (by decide)]
  | ready ready =>
    obtain ⟨h', hwritten⟩ := h.ready hop
    exact ⟨_, _, rfl, h', by rw [hwritten]; exact (List.append_nil _).symm, nofun⟩
  | detach =>
    obtain ⟨fd, hfd⟩ := Option.isSome_iff_exists.mp hop
    refine ⟨{ s with sfd := none }, .void, ?_, ⟨h.inbuf, h.outbuf, h.type, nofun, nofun⟩,
      (List.append_nil _).symm, nofun⟩
    rw [streamStep, sioStreamDetach, hfd]
    rfl
  | attach ok =>
    obtain ⟨h', hwritten⟩ := h.attach ok
    refine ⟨_, _, rfl, h', by rw [hwritten]; exact (List.append_nil _).symm, fun _ => ?_⟩
    cases ok <;> rfl

/-- Whatever the kernel answers, the bytes it has accepted and those in outbuf are those of
the writes that returned 0, in order; a failed write changes nothing in outbuf, and outbuf
is watched while it holds bytes. -/
theorem stream_keeps_bytes {made : SioStream}
    (hmade : sioStreamConnect true = some made ∨ sioStreamAccept true = some made)
    {ops : List StreamOp} (hops : Along streamStep StreamOk made ops) :
    ∃ s rets, run streamStep made ops = some (s, rets) ∧
      s.sock ++ sioBufferData s.outbuf = (ops.zipWith acceptedBytes rets).flatten ∧
      (∀ data write s', StreamOk s (.write data write) →
        sioStreamWrite s data write = some (s', -1) → s'.outbuf = s.outbuf) ∧
      ∀ fd, s.sfd = some fd → sioBufferData s.outbuf ≠ [] → fd.watchWrite = true := by
  obtain ⟨hsends, hempty⟩ : made.Sends ∧ made.written = [] :=
    hmade.elim sioStreamConnect_sends sioStreamAccept_sends
  obtain ⟨s, rets, t, hrun, htrace, h, hwritten⟩ := run_refines
    (fun s t => s.Sends ∧ s.written = t) (fun t a t' => t' = t ++ a) acceptedBytes
    (fun s t op ⟨h, ht⟩ hop => by
      obtain ⟨s', ret, hstep, h', hwritten, -⟩ := streamStep_sends h hop
      exact ⟨s', ret, _, hstep, rfl, h', by rw [hwritten, ht]⟩) ⟨hsends, hempty⟩ hops
  refine ⟨s, rets, hrun, hwritten.trans htrace.flatten, fun data write s' hop hrun => ?_,
    fun fd hfd hne => h.watched fd hfd (Or.inl fun h0 => hne ?_)⟩
  · obtain ⟨s1, ret, hstep, -, -, hfail⟩ := streamStep_sends h hop
    rw [streamStep, hrun, Option.map_some, Option.some.injEq, Prod.mk.injEq] at hstep
    obtain ⟨rfl, rfl⟩ := hstep
    exact hfail rfl
  · exact sioBufferData_eq_nil h.outbuf (not_not.mpr h0)

def streamSampleCalls : List StreamOp :=
  [.write [1, 2, 3] (.ok 0), .ready (.write true (.ok 0)), .ready (.write true (.ok 2)),
    .write [4] (.error .other), .detach, .attach true, .ready (.write true (.ok 2)),
    .write [5, 6] (.ok 1), .ready (.write true (.error .eagain))]

theorem stream_keeps_bytes_sample : ∃ s rets,
    run streamStep (sioStreamNew .connect (sioWatchWrite (sioAdd .connect))) streamSampleCalls =
        some (s, rets) ∧
      s.sock ++ sioBufferData s.outbuf = (streamSampleCalls.zipWith acceptedBytes rets).flatten ∧
      (∀ data write s', StreamOk s (.write data write) →
        sioStreamWrite s data write = some (s', -1) → s'.outbuf = s.outbuf) ∧
      ∀ fd, s.sfd = some fd → sioBufferData s.outbuf ≠ [] → fd.watchWrite = true :=
  stream_keeps_bytes (Or.inl rfl) (by decide)

end SimpleKit
