import SimpleKit.Io.Backlog
import SimpleKit.Lib.Linking
import SimpleKit.Rpc.Client

/-!
What holds of a client between any two of its steps. Within an event some requests,
upstreams and streams are excepted from a part of it; they are listed in `Underway`.
-/
set_option autoImplicit false

namespace SimpleKit
open Linking

/-- `loose` requests are in no table, whatever upstream they name; `unarmed` ones have no
timer in the heap; `answered` ones are not freed yet. Upstreams that are `apart` are not in
the array, those that are `gone` are still in it, and those that are `ticking` have no timer
in the heap. On streams that are `writing` a frame is not written yet, or not as a whole. -/
structure Underway where
  loose : List RpcRef
  unarmed : List RpcRef
  answered : List RpcRef
  apart : List RpcRef
  gone : List RpcRef
  ticking : List RpcRef
  writing : List RpcRef

def Underway.none : Underway := ⟨[], [], [], [], [], [], []⟩

def ClientEvent.answers (r : RpcRef) : ClientEvent → Bool
  | .response r' _ _ => r' = r
  | .timeout r' => r' = r
  | _ => false

def ClientEvent.calls (r : RpcRef) : ClientEvent → Bool
  | .call r' _ _ => r' = r
  | _ => false

def sendsOn (st : RpcRef) (log : List ClientEvent) : List (RpcRef × Frame) :=
  log.filterMap fun
    | .send r st' f => if st' = st then some (r, f) else none
    | _ => none

def wiresOn (e : ByteOrder) (st : RpcRef) (log : List ClientEvent) : List UInt8 :=
  ((sendsOn st log).map fun x => frameWire e x.2).flatten

def Called (r : RpcRef) (log : List ClientEvent) : Prop := log.any (ClientEvent.calls r)

instance (r : RpcRef) (log : List ClientEvent) : Decidable (Called r log) :=
  inferInstanceAs (Decidable (_ = true))

namespace RpcClient
variable (s : RpcClient)

def table (u : RpcRef) (k : Nat) : Option RpcRef :=
  (s.upstream u).bind fun up => up.reqStatus.lookup k

def link (r : RpcRef) : Option (RpcRef × Nat) :=
  (s.request r).bind fun q => q.upstream.map fun u => (u, q.id)

def StreamOf (u st : RpcRef) : Prop := ∃ up, s.upstream u = some up ∧ up.stream = some st

end RpcClient

structure RpcClient.Links (p : Underway) (s : RpcClient) : Prop where
  linked : Linked s.table s.link (· ∈ p.loose)
  idle : ∀ u up, s.upstream u = some up → up.stream = none → up.reqStatus = ∅ ∧ up.reqId = 0

structure RpcClient.Wires (w : RpcView) (p : Underway) (s : RpcClient) : Prop where
  sent : ∀ u up st, s.upstream u = some up → up.stream = some st →
    up.reqId = (sendsOn st s.log).length
  waiting : ∀ u up st k r, s.upstream u = some up → up.stream = some st →
    up.reqStatus.lookup k = some r → ∃ f, (sendsOn st s.log)[k]? = some (r, f)
  stream : ∀ u st, s.StreamOf u st → ∃ x, s.openStream st = some x ∧ x.arg = u
  owner : ∀ st x, s.openStream st = some x →
    x.io.Sends ∧ x.io.sfd.isSome ∧ s.StreamOf x.arg st
  written : ∀ st x, s.openStream st = some x → st ∉ p.writing →
    x.io.written = wiresOn w.order st s.log
  closed : w.lasting → ∀ st x, s.stream st = some x → x.closed → st ∉ p.writing →
    x.io.sock <+: wiresOn w.order st s.log
  frames : ∀ st i r f, (sendsOn st s.log)[i]? = some (r, f) →
    f.head.id = UInt64.ofNat i ∧ f.head.bodyLen = UInt32.ofNat f.body.length ∧
      .call r f.head.type f.body ∈ s.log

structure RpcClient.Records (p : Underway) (s : RpcClient) : Prop where
  nodup : s.reqRecord.Nodup
  record : ∀ r, r ∈ s.reqRecord ↔ (s.request r).isSome
  armed : ∀ r, s.timers.count (.request r) = if r ∈ s.reqRecord ∧ r ∉ p.unarmed then 1 else 0
  called : ∀ r q, s.request r = some q → .call r q.type q.body ∈ s.log
  once : ∀ r, s.log.countP (ClientEvent.calls r) ≤ 1
  answers : ∀ r, s.log.countP (ClientEvent.answers r) =
    if Called r s.log ∧ (r ∉ s.reqRecord ∨ r ∈ p.answered) then 1 else 0

structure RpcClient.Upstreams (p : Underway) (s : RpcClient) : Prop where
  nodup : s.upstreams.Nodup
  array : ∀ u, (s.upstream u).isSome ↔ u ∈ s.upstreams ∧ u ∉ p.gone ∨ u ∈ p.apart
  disjoint : ∀ u ∈ p.apart, u ∉ s.upstreams
  ticks : ∀ u, s.timers.count (.upstream u) =
    if (s.upstream u).isSome ∧ u ∉ p.ticking then 1 else 0

structure RpcClient.Fresh (p : Underway) (s : RpcClient) : Prop where
  request : ∀ a, s.fresh ≤ a → s.request a = none
  upstream : ∀ a, s.fresh ≤ a → s.upstream a = none
  stream : ∀ a, s.fresh ≤ a → s.stream a = none
  call : ∀ r, Called r s.log → r < s.fresh
  send : ∀ st, s.fresh ≤ st → sendsOn st s.log = []
  under : ∀ r, r ∈ p.loose ∨ r ∈ p.unarmed ∨ r ∈ p.answered → r < s.fresh

/-- What is in the input buffers may be there, and may be in those of new streams. -/
structure RpcClient.Reads (w : RpcView) (s : RpcClient) : Prop where
  input : ∀ st x, s.openStream st = some x → w.input st (sioBufferData x.io.inbuf)
  unborn : ∀ st, s.fresh ≤ st → w.input st []

structure RpcClient.Inv (w : RpcView) (p : Underway) (s : RpcClient) : Prop where
  links : s.Links p
  wires : s.Wires w p
  records : s.Records p
  ups : s.Upstreams p
  fresh : s.Fresh p
  reads : s.Reads w
  responses : ∀ r st g, .response r st g ∈ s.log → w.received st g ∧
    ∃ f, (sendsOn st s.log)[g.head.id.toNat]? = some (r, f) ∧ g.head.type = f.head.type

section Fields
variable {s : RpcClient} {u v r x st : RpcRef} {up : RpcUpstream} {q : RpcRequest}

theorem RpcClient.table_eq (hu : s.upstream u = some up) (k : Nat) :
    s.table u k = up.reqStatus.lookup k := by
  rw [RpcClient.table, hu, Option.bind_some]

theorem RpcClient.link_eq (hr : s.request r = some q) :
    s.link r = q.upstream.map fun u => (u, q.id) := by
  rw [RpcClient.link, hr, Option.bind_some]

theorem RpcClient.upstream_setUpstream (s : RpcClient) (u v : RpcRef) (up : RpcUpstream) :
    (s.setUpstream u up).upstream v = if v = u then some up else s.upstream v :=
  Function.update_apply ..

theorem RpcClient.request_setRequest (s : RpcClient) (r x : RpcRef) (q : RpcRequest) :
    (s.setRequest r q).request x = if x = r then some q else s.request x :=
  Function.update_apply ..

theorem RpcClient.table_setUpstream (s : RpcClient) (u v : RpcRef) (up : RpcUpstream) (k : Nat) :
    (s.setUpstream u up).table v k = if v = u then up.reqStatus.lookup k else s.table v k := by
  rw [RpcClient.table, upstream_setUpstream]
  split <;> rfl

theorem RpcClient.link_setRequest (s : RpcClient) (r x : RpcRef) (q : RpcRequest) :
    (s.setRequest r q).link x =
      if x = r then q.upstream.map fun u => (u, q.id) else s.link x := by
  rw [RpcClient.link, request_setRequest]
  split <;> rfl

theorem RpcClient.openStream_some {y : RpcStream} :
    s.openStream st = some y ↔ s.stream st = some y ∧ y.closed = false := by
  rw [RpcClient.openStream, Option.filter_eq_some_iff]
  simp

theorem RpcClient.openStream_setStream (s : RpcClient) (st x : RpcRef) (y : RpcStream) :
    (s.setStream st y).openStream x =
      if x = st then (if y.closed then none else some y) else s.openStream x := by
  have hx : (s.setStream st y).stream x = if x = st then some y else s.stream x :=
    Function.update_apply ..
  rw [RpcClient.openStream, hx]
  split
  · cases hc : y.closed <;> simp [hc]
  · rfl

theorem RpcClient.setStream_cases {s : RpcClient} {st a : RpcRef} {y z : RpcStream}
    (h : (s.setStream st y).openStream a = some z) :
    a = st ∧ z = y ∨ a ≠ st ∧ s.openStream a = some z := by
  rw [RpcClient.openStream_setStream] at h
  split at h
  · next ha =>
    split at h
    · cases h
    · exact Or.inl ⟨ha, (Option.some.inj h).symm⟩
  · next ha => exact Or.inr ⟨ha, h⟩

theorem called_iff {log : List ClientEvent} :
    Called r log ↔ ∃ type body, .call r type body ∈ log := by
  rw [Called, List.any_eq_true]
  constructor
  · rintro ⟨e, he, hc⟩
    cases e with
    | call r' type body =>
      obtain rfl : r' = r := of_decide_eq_true hc
      exact ⟨type, body, he⟩
    | _ => cases hc
  · rintro ⟨type, body, he⟩
    exact ⟨_, he, decide_eq_true rfl⟩

theorem RpcClient.Records.call_unique {p : Underway} (h : s.Records p) {type type' : UInt32}
    {body body' : List UInt8} (h1 : .call r type body ∈ s.log) (h2 : .call r type' body' ∈ s.log) :
    type = type' ∧ body = body' := by
  have hmem : ∀ {t b}, .call r t b ∈ s.log →
      ClientEvent.call r t b ∈ s.log.filter (ClientEvent.calls r) :=
    fun hm => List.mem_filter.mpr ⟨hm, decide_eq_true rfl⟩
  have hlen := h.once r
  rw [List.countP_eq_length_filter] at hlen
  have h1' := hmem h1
  have h2' := hmem h2
  revert hlen h1' h2'
  generalize s.log.filter (ClientEvent.calls r) = l
  intro hlen h1' h2'
  match l, hlen, h1', h2' with
  | [e], _, h1', h2' =>
    have he := (List.mem_singleton.mp h1').trans (List.mem_singleton.mp h2').symm
    simpa using he
  | _ :: _ :: _, hlen, _, _ => simp at hlen

theorem sendsOn_append (st : RpcRef) (log more : List ClientEvent) :
    sendsOn st (log ++ more) = sendsOn st log ++ sendsOn st more := List.filterMap_append

theorem sendsOn_get {log more : List ClientEvent} {i : Nat} {y : RpcRef × Frame}
    (h : (sendsOn st log)[i]? = some y) : (sendsOn st (log ++ more))[i]? = some y := by
  obtain ⟨hi, hy⟩ := List.getElem?_eq_some_iff.mp h
  rw [sendsOn_append, List.getElem?_append_left hi, h]

end Fields

end SimpleKit
