import SimpleKit.Io.Backlog

set_option autoImplicit false

namespace SimpleKit
open Runs

/-- A stream is only detached while it is attached; all else may be done at any time. System calls
do not transfer more than they are asked to. -/
def DetachedOk (s : SioStream) : StreamOp → Prop
  | .write data write => WroteAtMost data.length write
  | .ready (.write _ write) => WroteAtMost (sioBufferLength s.outbuf) write
  | .ready (.read read) => ReadAtMost 4096 read
  | .ready .error => True
  | .detach => s.sfd.isSome
  | .attach _ => True

/-- A write to a detached stream that write(2) is tried for is taken whole or refused for good. -/
def SparesSfd (s : SioStream) : StreamOp → Prop
  | .write data write =>
    s.sfd = none → s.Direct → write = .ok data.length ∨ write = .error .other
  | _ => True

instance (s : SioStream) : (op : StreamOp) → Decidable (DetachedOk s op)
  | .write data write => inferInstanceAs (Decidable (WroteAtMost data.length write))
  | .ready (.write _ write) =>
    inferInstanceAs (Decidable (WroteAtMost (sioBufferLength s.outbuf) write))
  | .ready (.read read) => inferInstanceAs (Decidable (ReadAtMost 4096 read))
  | .ready .error => .isTrue trivial
  | .detach => inferInstanceAs (Decidable (s.sfd.isSome = true))
  | .attach _ => .isTrue trivial

instance (s : SioStream) : (op : StreamOp) → Decidable (SparesSfd s op)
  | .write data (.ok n) => decidable_of_iff (s.sfd = none →
      sioBufferLength s.outbuf = 0 ∧ s.type ≠ .connect → n = data.length)
      (by simp [SparesSfd, SioStream.Direct])
  | .write _ (.error e) => decidable_of_iff (s.sfd = none →
      sioBufferLength s.outbuf = 0 ∧ s.type ≠ .connect → e = .other)
      (by simp [SparesSfd, SioStream.Direct])
  | .ready _ | .detach | .attach _ => .isTrue trivial

variable {s s' : SioStream} {data : List UInt8} {write : Except Errno Nat}

structure SioStream.Kept (s : SioStream) (data : List UInt8) (s' : SioStream) : Prop where
  bytes : ∃ n, s'.sock = s.sock ++ data.take n ∧
    sioBufferData s'.outbuf = sioBufferData s.outbuf ++ data.drop n

/-- A write to a detached stream does nothing to its sfd, or uses a NULL one. -/
theorem SioStream.Sends.writeDetached (h : s.Sends) (hno : s.sfd = none)
    (hw : WroteAtMost data.length write) :
    sioStreamWrite s data write = none ∧ ¬ SparesSfd s (.write data write) ∨
      SparesSfd s (.write data write) ∧ ∃ s' ret, sioStreamWrite s data write = some (s', ret) ∧
        s'.Sends ∧ (ret = 0 → s.Kept data s') ∧
        s'.written = s.written ++ acceptedBytes (.write data write) (.code ret) := by
  have hnull : ∀ (t : SioStream) (rest : List UInt8), t.sfd = none →
      (sioStreamBacklog t rest).map (fun s => (s, (0 : Int))) = none := by
    intro t rest ht
    rw [sioStreamBacklog, ht]
    rfl
  unfold sioStreamWrite
  split
  · next hwait =>
    obtain ⟨hwf, hdata⟩ := h.outbuf.append data
    refine Or.inr ⟨fun _ hd => absurd hwait (SioStream.Direct.iff_not.mp hd), _, 0, rfl,
      ⟨h.inbuf, hwf, h.type, h.callback, fun fd hfd _ => h.watched fd hfd hwait⟩,
      fun _ => ⟨0, (List.append_nil _).symm, hdata⟩, ?_⟩
    rw [SioStream.written, hdata, SioStream.written, List.append_assoc]
    rfl
  · next hwait =>
    have hdirect : s.Direct := SioStream.Direct.iff_not.mpr hwait
    have hempty := sioBufferData_eq_nil h.outbuf (not_not.mpr hdirect.1)
    have hlater : ∀ e, e ≠ .other → ¬ SparesSfd s (.write data (.error e)) := by
      intro e he hs
      rcases hs hno hdirect with hf | hf
      · cases hf
      · exact he (Except.error.inj hf)
    cases write with
    | error e =>
      cases e with
      | other =>
        have hkept : (-1 : Int) = 0 → s.Kept data s := fun hf => by cases hf
        exact Or.inr ⟨fun _ _ => Or.inr rfl, s, -1, rfl, h, hkept, (List.append_nil _).symm⟩
      | eintr => exact Or.inl ⟨hnull s data hno, hlater _ fun he => by cases he⟩
      | eagain => exact Or.inl ⟨hnull s data hno, hlater _ fun he => by cases he⟩
    | ok bytes =>
      dsimp only
      split
      · next hall =>
        refine Or.inr ⟨fun _ _ => Or.inl (congrArg _ hall), _, 0, rfl,
          ⟨h.inbuf, h.outbuf, h.type, h.callback, h.watched⟩, fun _ => ⟨bytes, rfl, ?_⟩, ?_⟩
        · rw [hall, List.drop_length, List.append_nil]
        · rw [SioStream.written, SioStream.written, hempty, List.append_nil, List.append_nil, hall,
            List.take_length]
          rfl
      · next hpart =>
        refine Or.inl ⟨hnull _ _ hno, fun hs => ?_⟩
        rcases hs hno hdirect with he | he
        · exact hpart (Except.ok.inj he)
        · cases he

theorem streamStep_detached {op : StreamOp} (h : s.Sends) (hop : DetachedOk s op) :
    streamStep s op = none ∧ ¬ SparesSfd s op ∨
      SparesSfd s op ∧ ∃ s' ret, streamStep s op = some (s', ret) ∧ s'.Sends ∧
        s'.written = s.written ++ acceptedBytes op ret := by
  have hok : StreamOk s op → SparesSfd s op → streamStep s op = none ∧ ¬ SparesSfd s op ∨
      SparesSfd s op ∧ ∃ s' ret, streamStep s op = some (s', ret) ∧ s'.Sends ∧
        s'.written = s.written ++ acceptedBytes op ret := fun hok hs => by
    obtain ⟨s', ret, hstep, h', hwritten, -⟩ := streamStep_sends h hok
    exact Or.inr ⟨hs, s', ret, hstep, h', hwritten⟩
  cases op with
  | write data write =>
    cases hfd : s.sfd with
    | some fd =>
      refine hok ⟨by rw [hfd]; rfl, hop⟩ fun hno => ?_
      rw [hfd] at hno
      cases hno
    | none =>
      rcases h.writeDetached hfd hop with ⟨hnone, hbad⟩ | ⟨hs, s', ret, hrun, h', -, hwritten⟩
      · exact Or.inl ⟨by rw [streamStep, hnone]; rfl, hbad⟩
      · exact Or.inr ⟨hs, s', .code ret, by rw [streamStep, hrun]; rfl, h', hwritten⟩
  | ready ready => exact hok (by cases ready <;> exact hop) trivial
  | detach => exact hok hop trivial
  | attach ok =>
    obtain ⟨h', hwritten⟩ := h.attach ok
    exact Or.inr ⟨trivial, _, _, rfl, h', by rw [hwritten]; exact (List.append_nil _).symm⟩

/-- What a program counts on when it detaches a stream. -/
structure SioStream.Usable (s : SioStream) (accepted : List UInt8) : Prop where
  bytes : s.sock ++ sioBufferData s.outbuf = accepted
  kept : ∀ data write s', s.sfd = none → WroteAtMost data.length write →
    sioStreamWrite s data write = some (s', 0) → s.Kept data s'
  watched : ∀ fd, s.sfd = some fd → sioBufferData s.outbuf ≠ [] → fd.watchWrite = true

theorem SioStream.Sends.usable (h : s.Sends) : s.Usable s.written where
  bytes := rfl
  kept data write s' hno hw hrun := by
    rcases h.writeDetached hno hw with ⟨hnone, -⟩ | ⟨-, s1, ret, hrun', -, hkept, -⟩
    · rw [hrun] at hnone
      cases hnone
    · rw [hrun, Option.some.injEq, Prod.mk.injEq] at hrun'
      obtain ⟨rfl, rfl⟩ := hrun'
      exact hkept rfl
  watched fd hfd hne := h.watched fd hfd (Or.inl fun h0 => hne
    (sioBufferData_eq_nil h.outbuf (not_not.mpr h0)))

/-- Whatever is done to a stream, no NULL sfd is used exactly if every write that is tried on a
detached stream is taken whole or refused for good. Then the bytes that are not sent stay in
outbuf, and outbuf is watched while the stream is attached. -/
theorem stream_detached_usable {made : SioStream}
    (hmade : sioStreamConnect true = some made ∨ sioStreamAccept true = some made)
    {ops : List StreamOp} (hops : Along streamStep DetachedOk made ops) :
    (∃ s rets, run streamStep made ops = some (s, rets) ∧
      s.Usable (ops.zipWith acceptedBytes rets).flatten) ↔ Along streamStep SparesSfd made ops := by
  obtain ⟨hsends, hempty⟩ : made.Sends ∧ made.written = [] :=
    hmade.elim sioStreamConnect_sends sioStreamAccept_sends
  have hruns := run_along SioStream.Sends SparesSfd (fun s op h hop => by
    rcases streamStep_detached h hop with hbad | ⟨hs, s', ret, hstep, h', -⟩
    · exact Or.inl hbad
    · exact Or.inr ⟨hs, s', ret, hstep, h'⟩) hsends hops
  rcases hruns with ⟨hnone, hbad⟩ | ⟨hall, s, rets, hrun, h⟩
  · refine iff_of_false ?_ hbad
    rintro ⟨s, rets, hrun, -⟩
    rw [hnone] at hrun
    cases hrun
  · refine iff_of_true ⟨s, rets, hrun, ?_⟩ hall
    obtain ⟨t, htrace, -, hwritten⟩ := run_traces (fun s t => s.Sends ∧ s.written = t)
      (fun t a t' => t' = t ++ a) acceptedBytes (fun s t op s' ret ⟨h, ht⟩ hop hrun => by
        rcases streamStep_detached h hop with ⟨hnone, -⟩ | ⟨-, s1, ret1, hstep, h', hwritten⟩
        · rw [hrun] at hnone
          cases hnone
        · rw [hrun, Option.some.injEq, Prod.mk.injEq] at hstep
          obtain ⟨rfl, rfl⟩ := hstep
          exact ⟨_, rfl, h', by rw [hwritten, ht]⟩) ⟨hsends, hempty⟩ hops hrun
    rw [← List.nil_append (List.flatten _), ← htrace.flatten, ← hwritten]
    exact h.usable

/-- A stream that is connected and detached; write(2) takes one byte of two. -/
def detachedSampleOps : List StreamOp := [.detach, .write [1, 2] (.ok 1)]

theorem stream_detached_null : ∃ made, sioStreamAccept true = some made ∧
    Along streamStep DetachedOk made detachedSampleOps ∧
    run streamStep made detachedSampleOps = none :=
  ⟨_, rfl, by decide, rfl⟩

/-- While the stream is detached a whole write is sent, and a backlog is added to, which is
watched when the stream is attached. -/
def detachedSpareOps : List StreamOp :=
  [.detach, .write [0] (.ok 1), .attach true, .write [1, 2] (.ok 1), .detach, .write [3] (.ok 0),
    .attach false, .write [4] (.error .eagain), .attach true, .ready (.write true (.ok 3))]

theorem stream_detached_usable_sample : ∃ s rets,
    run streamStep (sioStreamNew .normal (sioWatchRead (sioAdd .stream))) detachedSpareOps =
      some (s, rets) ∧ s.Usable [0, 1, 2, 3, 4] := by
  obtain ⟨s, rets, hrun, husable⟩ := (stream_detached_usable (Or.inr rfl) (by decide)).mpr
    (show Along streamStep SparesSfd (sioStreamNew .normal (sioWatchRead (sioAdd .stream)))
      detachedSpareOps by decide)
  have hrets : (run streamStep (sioStreamNew .normal (sioWatchRead (sioAdd .stream)))
      detachedSpareOps).map Prod.snd = some _ := rfl
  rw [hrun] at hrets
  obtain rfl := Option.some.inj hrets
  exact ⟨s, _, hrun, husable⟩

end SimpleKit
