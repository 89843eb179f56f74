import SimpleKit.Rpc.NetView
import SimpleKit.Rpc.Tells

set_option autoImplicit false

namespace SimpleKit
open Framing Runs

inductive NetDoes (ce se : Nat → ByteOrder) (n : RpcNet) : NetOp → RpcNet → Prop
  | client {c : Nat} {op : ClientOp} {s : RpcClient} :
      clientStep (ce c) (n.client c) op = some (s, ()) →
      NetDoes ce se n (.client c op) (n.withClient c s fun st => (n.client c).arrives st op)
  | server {k : Nat} {op : ServerOp} {s : RpcServer} :
      serverStep (se k) (n.server k) op = some (s, ()) →
      NetDoes ce se n (.server k op) (n.withServer k s fun st => (n.server k).arrives st op)
  -- a server that does not leave a callback any more accepts nothing
  | hangs {k : Nat} {a : RpcEnd} : NetDoes ce se n (.accept k a) n
  | accept {k : Nat} {a : RpcEnd} {s : RpcServer} : (n.server k).looping = false →
      serverStep (se k) (n.server k) (.accept true) = some (s, ()) →
      NetDoes ce se n (.accept k a) { n.withServer k s fun _ => [] with
        peer := Function.update n.peer a (some (k, (n.server k).fresh))
        origin := Function.update n.origin (k, (n.server k).fresh) (some a) }

theorem netStep_does {ce se : Nat → ByteOrder} {n n' : RpcNet} {op : NetOp}
    (hstep : netStep ce se n op = some (n', ())) : NetDoes ce se n op n' := by
  obtain ⟨n1, hdo, heq⟩ := Option.map_eq_some_iff.mp hstep
  cases heq
  cases op with
  | client c op =>
    obtain ⟨⟨s, ⟨⟩⟩, hs, hdo⟩ := Option.bind_eq_some_iff.mp hdo
    cases hdo
    exact .client hs
  | server k op =>
    obtain ⟨⟨s, ⟨⟩⟩, hs, hdo⟩ := Option.bind_eq_some_iff.mp hdo
    cases hdo
    exact .server hs
  | accept k a =>
    cases hl : (n.server k).looping with
    | true =>
      rw [netDo, hl, if_pos rfl] at hdo
      cases hdo
      exact .hangs
    | false =>
      rw [netDo, hl, if_neg (by decide)] at hdo
      obtain ⟨⟨s, ⟨⟩⟩, hs, hdo⟩ := Option.bind_eq_some_iff.mp hdo
      cases hdo
      exact .accept hl hs

theorem RpcClient.Tells.news {pending : Nat} {s : RpcClient}
    (h : (sioRpcClientNew pending).Tells s) : ∀ ev ∈ s.log, ev.Short := by
  obtain ⟨more, hlog, hshort⟩ := h.log
  rwa [hlog]

theorem RpcServer.Tells.news {pending : Nat} {s : RpcServer}
    (h : (sioRpcServerNew pending).Tells s) : ServerNews 0 s.fresh s.log := by
  obtain ⟨more, hlog, hnews⟩ := h.log
  rwa [hlog]

theorem mem_finishesOn {st : RpcRef} {log : List ServerEvent} {f : Frame} :
    f ∈ finishesOn st log ↔ ∃ resp, .finish resp st f ∈ log := by
  rw [finishesOn, List.mem_filterMap]
  constructor
  · rintro ⟨ev, hev, hf⟩
    cases ev with
    | finish resp st' g =>
      dsimp only at hf
      split at hf
      · next he =>
        cases hf
        exact ⟨resp, he ▸ hev⟩
      · cases hf
    | _ => cases hf
  · rintro ⟨resp, hev⟩
    exact ⟨_, hev, if_pos rfl⟩

theorem shortBody_sendable {f : Frame} (hbody : f.head.bodyLen = UInt32.ofNat f.body.length)
    (hshort : ShortBody f.body) : f.Sendable := by
  refine ⟨?_, hshort⟩
  rw [hbody, UInt32.toNat_ofNat']
  exact Nat.mod_eq_of_lt (Nat.lt_trans hshort (by decide))

section Parties
variable {w : RpcView} {st : RpcRef}

theorem RpcClient.Wires.sendable {s : RpcClient} {p : Underway} (h : s.Wires w p)
    (hshort : ∀ ev ∈ s.log, ev.Short) : ∀ f ∈ (sendsOn st s.log).map Prod.snd, f.Sendable := by
  intro f hf
  obtain ⟨⟨r, f⟩, hmem, rfl⟩ := List.mem_map.mp hf
  obtain ⟨i, hi⟩ := List.mem_iff_getElem?.mp hmem
  obtain ⟨-, hbody, hcall⟩ := h.frames st i r f hi
  exact shortBody_sendable hbody (hshort _ hcall)

theorem RpcServer.Responses.sendable {s : RpcServer} (h : s.Responses w)
    (hshort : ∀ ev ∈ s.log, ev.Short) : ∀ f ∈ finishesOn st s.log, f.Sendable := by
  intro f hf
  obtain ⟨resp, hfinish⟩ := mem_finishesOn.mp hf
  exact shortBody_sendable (h.finished resp st f hfinish).1 (hshort _ hfinish)

theorem RpcClient.Wires.sock {s : RpcClient} (h : s.Wires w Underway.none) (hl : w.lasting) :
    s.sock st <+: wiresOn w.order st s.log := by
  rw [RpcClient.sock]
  cases hx : s.stream st with
  | none => exact List.nil_prefix
  | some x =>
    cases hc : x.closed with
    | true => exact h.closed hl st x hx hc List.not_mem_nil
    | false =>
      rw [← h.written st x (openStream_some.mpr ⟨hx, hc⟩) List.not_mem_nil]
      exact List.prefix_append _ _

theorem RpcServer.Wires.sockets {s : RpcServer} (h : s.Wires w Serving.none) (hl : w.lasting) :
    s.sock st <+: finishWires w.order st s.log := by
  rw [RpcServer.sock]
  cases hx : s.stream st with
  | none => exact List.nil_prefix
  | some x => exact h.sock hl st x hx List.not_mem_nil

end Parties

section View
variable {e : ByteOrder} {frames frames' : RpcRef → List Frame} {got more : RpcRef → List UInt8}

theorem RpcView.net_grow (e : ByteOrder) (got : RpcRef → List UInt8)
    (hgrow : ∀ st, frames st <+: frames' st)
    (hsend : ∀ st, ∀ f ∈ frames' st, f.Sendable) (st : RpcRef) (l : List UInt8)
    (h : (RpcView.net e frames got).input st l) : (RpcView.net e frames' got).input st l := by
  obtain ⟨later, hlater⟩ := hgrow st
  have h1 : Arrived (rpcNext e) (frameWire e) ((frames st).map Frame.received) (got st) l := h
  change Arrived (rpcNext e) (frameWire e) ((frames' st).map Frame.received) (got st) l
  have hencodes := encodes_received e e (hsend st)
  rw [← hlater, List.map_append] at hencodes ⊢
  exact h1.grow hencodes

theorem RpcClient.Inv.grow {s : RpcClient} (h : s.Inv (.net e frames got) Underway.none)
    (hgrow : ∀ st, frames st <+: frames' st) (hsend : ∀ st, ∀ f ∈ frames' st, f.Sendable) :
    s.Inv (.net e frames' got) Underway.none := by
  have hinput := RpcView.net_grow e got hgrow hsend
  refine h.revise rfl rfl ⟨fun st x hx => hinput st _ (h.reads.input st x hx),
    fun st hst => hinput st _ (h.reads.unborn st hst)⟩ fun r st g hg => ?_
  obtain ⟨f, hf, hsame⟩ := (h.responses r st g hg).1
  exact ⟨f, (hgrow st).subset hf, hsame⟩

theorem RpcServer.Inv.grow {s : RpcServer} (h : s.Inv (.net e frames got) Serving.none)
    (hgrow : ∀ st, frames st <+: frames' st) (hsend : ∀ st, ∀ f ∈ frames' st, f.Sendable) :
    s.Inv (.net e frames' got) Serving.none := by
  have hinput := RpcView.net_grow e got hgrow hsend
  refine h.revise rfl rfl ⟨fun st x hx => hinput st _ (h.reads.input st x hx),
    fun st hst => hinput st _ (h.reads.unborn st hst)⟩ fun r st f m hm => ?_
  obtain ⟨g, hg, hsame⟩ := h.responses.received r st f m hm
  exact ⟨g, (hgrow st).subset hg, hsame⟩

/-- What comes in begins what is sent, whatever the byte order of the sender. -/
theorem RpcView.net_brings
    (hmore : ∀ st, ∃ e', got st ++ more st <+: ((frames st).map (frameWire e')).flatten) :
    (RpcView.net e frames got).Brings more (.net e frames fun st => got st ++ more st) := by
  refine ⟨rfl, rfl, fun _ _ h => h, fun st l h => Arrived.read h ?_⟩
  obtain ⟨e', hsent⟩ := hmore st
  rwa [frameWires_received e e']

end View

def NetOp.Short : NetOp → Prop
  | .client _ op => op.Short
  | .server _ op => op.Short
  | .accept _ _ => True

namespace RpcNet

def responsesFor (n : RpcNet) (a : RpcEnd) : List Frame :=
  match n.peer a with
  | some b => finishesOn b.2 (n.server b.1).log
  | none => []

def requestsFor (n : RpcNet) (b : RpcEnd) : List Frame :=
  match n.origin b with
  | some a => (sendsOn a.2 (n.client a.1).log).map Prod.snd
  | none => []

def clientView (ce : Nat → ByteOrder) (n : RpcNet) (c : Nat) : RpcView :=
  .net (ce c) (fun st => n.responsesFor (c, st)) fun st => n.clientGot (c, st)

def serverView (se : Nat → ByteOrder) (n : RpcNet) (k : Nat) : RpcView :=
  .net (se k) (fun st => n.requestsFor (k, st)) fun st => n.serverGot (k, st)

structure Inv (ce se : Nat → ByteOrder) (n : RpcNet) : Prop where
  client : ∀ c, (n.client c).Inv (n.clientView ce c) Underway.none
  server : ∀ k, (n.server k).Inv (n.serverView se k) Serving.none
  linked : ∀ a b, n.peer a = some b → n.origin b = some a
  born : ∀ a b, n.origin b = some a → b.2 < (n.server b.1).fresh
  calls : ∀ c, ∃ pending, (sioRpcClientNew pending).Tells (n.client c)
  finishes : ∀ k, ∃ pending, (sioRpcServerNew pending).Tells (n.server k)

variable {ce se : Nat → ByteOrder} {n n' : RpcNet}

theorem responsesFor_mono {a : RpcEnd} (hpeer : ∀ b, n.peer a = some b → n'.peer a = some b)
    (hlog : ∀ k, (n.server k).log <+: (n'.server k).log) :
    n.responsesFor a <+: n'.responsesFor a := by
  rw [responsesFor]
  cases hb : n.peer a with
  | none => exact List.nil_prefix
  | some b =>
    rw [responsesFor, hpeer b hb]
    dsimp only
    obtain ⟨more, hmore⟩ := hlog b.1
    rw [← hmore, finishesOn_append]
    exact List.prefix_append _ _

theorem requestsFor_mono {b : RpcEnd} (horigin : ∀ a, n.origin b = some a → n'.origin b = some a)
    (hlog : ∀ c, (n.client c).log <+: (n'.client c).log) :
    n.requestsFor b <+: n'.requestsFor b := by
  rw [requestsFor]
  cases ha : n.origin b with
  | none => exact List.nil_prefix
  | some a =>
    rw [requestsFor, horigin a ha]
    dsimp only
    obtain ⟨more, hmore⟩ := hlog a.1
    rw [← hmore, sendsOn_append, List.map_append]
    exact List.prefix_append _ _

theorem responses_sendable (hserver : ∀ k, ∃ w p, (n.server k).Inv w p)
    (hfinishes : ∀ k, ∃ pending, (sioRpcServerNew pending).Tells (n.server k)) (a : RpcEnd) :
    ∀ f ∈ n.responsesFor a, f.Sendable := by
  rw [responsesFor]
  cases n.peer a with
  | none => exact fun _ hf => absurd hf List.not_mem_nil
  | some b =>
    obtain ⟨w, p, h⟩ := hserver b.1
    obtain ⟨pending, htells⟩ := hfinishes b.1
    exact h.responses.sendable htells.news.short

theorem requests_sendable (hclient : ∀ c, ∃ w p, (n.client c).Inv w p)
    (hcalls : ∀ c, ∃ pending, (sioRpcClientNew pending).Tells (n.client c)) (b : RpcEnd) :
    ∀ f ∈ n.requestsFor b, f.Sendable := by
  rw [requestsFor]
  cases n.origin b with
  | none => exact fun _ hf => absurd hf List.not_mem_nil
  | some a =>
    obtain ⟨w, p, h⟩ := hclient a.1
    obtain ⟨pending, htells⟩ := hcalls a.1
    exact h.wires.sendable htells.news

/-- What has been accepted for a client begins the responses for it. -/
theorem Inv.toClient (h : n.Inv ce se) (a : RpcEnd) : ∃ e,
    n.toClient a <+: ((n.responsesFor a).map (frameWire e)).flatten := by
  rw [RpcNet.toClient, responsesFor]
  cases n.peer a with
  | none => exact ⟨.little, List.nil_prefix⟩
  | some b => exact ⟨se b.1, (h.server b.1).wires.sockets trivial⟩

theorem Inv.toServer (h : n.Inv ce se) (b : RpcEnd) : ∃ e,
    n.toServer b <+: ((n.requestsFor b).map (frameWire e)).flatten := by
  rw [RpcNet.toServer, requestsFor]
  cases n.origin b with
  | none => exact ⟨.little, List.nil_prefix⟩
  | some a =>
    refine ⟨ce a.1, ?_⟩
    rw [List.map_map]
    exact (h.client a.1).wires.sock trivial

theorem Inv.clientKept (h : n.Inv ce se) {c : Nat} (hclient : n'.client c = n.client c)
    (hgot : ∀ st, n'.clientGot (c, st) = n.clientGot (c, st))
    (hpeer : ∀ a b, n.peer a = some b → n'.peer a = some b)
    (hlog : ∀ k, (n.server k).log <+: (n'.server k).log)
    (hsend : ∀ a, ∀ f ∈ n'.responsesFor a, f.Sendable) :
    (n'.client c).Inv (n'.clientView ce c) Underway.none := by
  rw [hclient, clientView, funext hgot]
  exact (h.client c).grow (fun st => responsesFor_mono (hpeer (c, st)) hlog)
    fun st => hsend (c, st)

theorem Inv.serverKept (h : n.Inv ce se) {k : Nat} (hserver : n'.server k = n.server k)
    (hgot : ∀ st, n'.serverGot (k, st) = n.serverGot (k, st))
    (horigin : ∀ b a, n.origin b = some a → n'.origin b = some a)
    (hlog : ∀ c, (n.client c).log <+: (n'.client c).log)
    (hsend : ∀ b, ∀ f ∈ n'.requestsFor b, f.Sendable) :
    (n'.server k).Inv (n'.serverView se k) Serving.none := by
  rw [hserver, serverView, funext hgot]
  exact (h.server k).grow (fun st => requestsFor_mono (horigin (k, st)) hlog)
    fun st => hsend (k, st)

theorem Inv.clientMoves (h : n.Inv ce se) {c : Nat} {op : ClientOp}
    (hop : NetOk se n (.client c op)) (hshort : op.Short) {s : RpcClient}
    (hstep : clientStep (ce c) (n.client c) op = some (s, ())) :
    (n.withClient c s fun st => (n.client c).arrives st op).Inv ce se := by
  have htells : (n.client c).Tells s := .step hshort hstep
  have hself : s.Inv (.net (ce c) (fun st => n.responsesFor (c, st)) fun st =>
      n.clientGot (c, st) ++ (n.client c).arrives st op) Underway.none := by
    refine clientStep_view (h.client c) hop.1 (RpcView.net_brings fun st => ?_) hstep
    obtain ⟨e, he⟩ := h.toClient (c, st)
    exact ⟨e, (hop.2 st).trans he⟩
  have hclient : ∀ c', (Function.update n.client c s c').Inv (.net (ce c')
      (fun st => n.responsesFor (c', st)) fun st =>
        if c' = c then n.clientGot (c', st) ++ (n.client c).arrives st op
        else n.clientGot (c', st)) Underway.none := by
    refine (Function.forall_update_iff n.client fun c' s' => s'.Inv _ _).mpr
      ⟨?_, fun c' hc => ?_⟩
    · simp only [if_pos]
      exact hself
    · simp only [if_neg hc]
      exact h.client c'
  have hcalls : ∀ c', ∃ pending,
      (sioRpcClientNew pending).Tells (Function.update n.client c s c') := by
    refine (Function.forall_update_iff n.client fun _ s' =>
      ∃ pending, (sioRpcClientNew pending).Tells s').mpr ⟨?_, fun c' _ => h.calls c'⟩
    obtain ⟨pending, hpending⟩ := h.calls c
    exact ⟨pending, hpending.trans htells⟩
  have hlog : ∀ c', (n.client c').log <+: (Function.update n.client c s c').log := by
    refine (Function.forall_update_iff n.client fun c' s' => (n.client c').log <+: s'.log).mpr
      ⟨?_, fun c' _ => List.prefix_rfl⟩
    obtain ⟨more, hmore, -⟩ := htells.log
    exact ⟨more, hmore.symm⟩
  exact ⟨hclient,
    fun k => h.serverKept rfl (fun _ => rfl) (fun _ _ ha => ha) hlog
      (requests_sendable (fun c' => ⟨_, _, hclient c'⟩) hcalls),
    h.linked, h.born, hcalls, h.finishes⟩

theorem Inv.serverMoves (h : n.Inv ce se) {k : Nat} {op : ServerOp} (hop : op.Short)
    {s : RpcServer} (hstep : serverStep (se k) (n.server k) op = some (s, ()))
    {got : RpcRef → List UInt8}
    (hself : s.Inv (.net (se k) (fun st => n.requestsFor (k, st)) got) Serving.none)
    (hserver : n'.server = Function.update n.server k s) (hclient : n'.client = n.client)
    (hgot : n'.clientGot = n.clientGot)
    (hserverGot : ∀ k' st, n'.serverGot (k', st) = if k' = k then got st else n.serverGot (k', st))
    (hpeer : ∀ a b, n.peer a = some b → n'.peer a = some b)
    (horigin : ∀ b a, n.origin b = some a → n'.origin b = some a)
    (hlinked : ∀ a b, n'.peer a = some b → n'.origin b = some a)
    (hborn : ∀ a b, n'.origin b = some a → b.2 < (n'.server b.1).fresh) : n'.Inv ce se := by
  have htells : (n.server k).Tells s := .step hop hstep
  have hfinishes : ∀ k', ∃ pending, (sioRpcServerNew pending).Tells (n'.server k') := by
    rw [hserver]
    refine (Function.forall_update_iff n.server fun _ s' =>
      ∃ pending, (sioRpcServerNew pending).Tells s').mpr ⟨?_, fun k' _ => h.finishes k'⟩
    obtain ⟨pending, hpending⟩ := h.finishes k
    exact ⟨pending, hpending.trans htells⟩
  have hlog : ∀ k', (n.server k').log <+: (n'.server k').log := by
    rw [hserver]
    refine (Function.forall_update_iff n.server fun k' s' => (n.server k').log <+: s'.log).mpr
      ⟨?_, fun k' _ => List.prefix_rfl⟩
    obtain ⟨more, hmore, -⟩ := htells.log
    exact ⟨more, hmore.symm⟩
  have hrequests : ∀ b, ∀ f ∈ n'.requestsFor b, f.Sendable :=
    requests_sendable (fun c => ⟨_, _, hclient ▸ h.client c⟩) (hclient ▸ h.calls)
  have hclients : ∀ c, (n.client c).log <+: (n'.client c).log := fun c =>
    hclient ▸ List.prefix_rfl
  have hservers : ∀ k', (n'.server k').Inv (n'.serverView se k') Serving.none := by
    intro k'
    by_cases hk : k' = k
    · subst hk
      have hview : (fun st => n'.serverGot (k', st)) = got :=
        funext fun st => (hserverGot k' st).trans (if_pos rfl)
      rw [serverView, hview, hserver, Function.update_self]
      exact hself.grow (fun st => requestsFor_mono (horigin (k', st)) hclients)
        fun st => hrequests (k', st)
    · refine h.serverKept ?_ (fun st => (hserverGot k' st).trans (if_neg hk)) horigin hclients
        hrequests
      rw [hserver, Function.update_of_ne hk]
  exact ⟨fun c => h.clientKept (by rw [hclient]) (fun st => by rw [hgot]) hpeer hlog
      (responses_sendable (fun k' => ⟨_, _, hservers k'⟩) hfinishes),
    hservers, hlinked, hborn, by rw [hclient]; exact h.calls, hfinishes⟩

theorem lt_fresh_update {server : Nat → RpcServer} {k : Nat} {s : RpcServer}
    (hle : (server k).fresh ≤ s.fresh) {b : RpcEnd} (hb : b.2 < (server b.1).fresh) :
    b.2 < (Function.update server k s b.1).fresh := by
  by_cases hk : b.1 = k
  · rw [hk] at hb ⊢
    rw [Function.update_self]
    exact Nat.lt_of_lt_of_le hb hle
  · rwa [Function.update_of_ne hk]

theorem linked_update {peer origin : RpcEnd → Option RpcEnd}
    (h : ∀ a b, peer a = some b → origin b = some a) {a b : RpcEnd} (hb : origin b = none)
    (c d : RpcEnd) (hc : Function.update peer a (some b) c = some d) :
    Function.update origin b (some a) d = some c := by
  by_cases he : c = a
  · subst he
    rw [Function.update_self] at hc
    cases hc
    exact Function.update_self ..
  · rw [Function.update_of_ne he] at hc
    have hd := h c d hc
    rw [Function.update_of_ne]
    · exact hd
    · rintro rfl
      rw [hb] at hd
      cases hd

theorem update_of_none {peer : RpcEnd → Option RpcEnd} {a : RpcEnd} (ha : peer a = none)
    (x : Option RpcEnd) (c d : RpcEnd) (hc : peer c = some d) :
    Function.update peer a x c = some d := by
  rw [Function.update_of_ne]
  · exact hc
  · rintro rfl
    rw [ha] at hc
    cases hc

theorem serverStep_accept {e : ByteOrder} {s s' : RpcServer} (hl : s.looping = false)
    (h : serverStep e s (.accept true) = some (s', ())) : s.fresh < s'.fresh := by
  unfold serverStep at h
  rw [hl, if_neg (by decide)] at h
  obtain ⟨s1, hdo, heq⟩ := Option.map_eq_some_iff.mp h
  cases heq
  change sioRpcDstreamAccept s _ = some s' at hdo
  unfold sioRpcDstreamAccept at hdo
  dsimp only at hdo
  split at hdo
  · cases hdo
  · cases hdo
    exact Nat.lt_add_of_pos_right (by decide)

theorem Inv.serverSteps (h : n.Inv ce se) {k : Nat} {op : ServerOp}
    (hop : NetOk se n (.server k op)) (hshort : op.Short) {s : RpcServer}
    (hstep : serverStep (se k) (n.server k) op = some (s, ())) :
    (n.withServer k s fun st => (n.server k).arrives st op).Inv ce se := by
  have hself : s.Inv (.net (se k) (fun st => n.requestsFor (k, st)) fun st =>
      n.serverGot (k, st) ++ (n.server k).arrives st op) Serving.none := by
    refine serverStep_view (h.server k) hop.1 (RpcView.net_brings fun st => ?_) hstep
    obtain ⟨e, he⟩ := h.toServer (k, st)
    exact ⟨e, (hop.2.2 st).trans he⟩
  refine h.serverMoves hshort hstep hself rfl rfl rfl (fun k' st => ?_) (fun _ _ hb => hb)
    (fun _ _ ha => ha) h.linked
    fun a b hb => lt_fresh_update (RpcServer.Tells.step hshort hstep).fresh (h.born a b hb)
  by_cases hk : k' = k
  · subst hk
    rw [if_pos rfl, withServer_got]
  · rw [if_neg hk, n.withServer_got_ne _ _ _ _ hk]

theorem Inv.accepts (h : n.Inv ce se) {k : Nat} {a : RpcEnd} (ha : n.peer a = none) {s : RpcServer}
    (hl : (n.server k).looping = false)
    (hstep : serverStep (se k) (n.server k) (.accept true) = some (s, ())) :
    RpcNet.Inv ce se { n.withServer k s fun _ => [] with
      peer := Function.update n.peer a (some (k, (n.server k).fresh))
      origin := Function.update n.origin (k, (n.server k).fresh) (some a) } := by
  have hfree : n.origin (k, (n.server k).fresh) = none := by
    rw [Option.eq_none_iff_forall_ne_some]
    exact fun b hb => Nat.lt_irrefl _ (h.born b _ hb)
  have hfresh : (n.server k).fresh < s.fresh := serverStep_accept hl hstep
  have hself : s.Inv (n.serverView se k) Serving.none :=
    serverStep_view (h.server k) (show ServerFits (se k) True _ (.accept true) from trivial)
      ⟨rfl, rfl, fun _ _ hf => hf, fun st l hin => by
        rw [RpcServer.arrives, List.append_nil]
        · exact hin
        · exact fun _ _ _ he => by cases he⟩ hstep
  have hborn : ∀ c d, Function.update n.origin (k, (n.server k).fresh) (some a) d = some c →
      d.2 < (Function.update n.server k s d.1).fresh := by
    intro c d hd
    by_cases he : d = (k, (n.server k).fresh)
    · subst he
      rw [Function.update_self]
      exact hfresh
    · rw [Function.update_of_ne he] at hd
      exact lt_fresh_update (Nat.le_of_lt hfresh) (h.born c d hd)
  refine h.serverMoves (show ServerOp.Short (.accept true) from trivial) hstep hself rfl rfl rfl
    (fun k' st => ?_)
    (update_of_none ha _) (update_of_none hfree _) (linked_update h.linked hfree) hborn
  by_cases hk : k' = k
  · subst hk
    rw [if_pos rfl]
    exact (n.withServer_got k' s (fun _ => []) st).trans (List.append_nil _)
  · rw [if_neg hk]
    exact n.withServer_got_ne k s (fun _ => []) st hk

theorem Inv.step (h : n.Inv ce se) {op : NetOp} (hop : NetOk se n op) (hshort : op.Short)
    (hstep : netStep ce se n op = some (n', ())) : n'.Inv ce se := by
  cases netStep_does hstep with
  | client hs => exact h.clientMoves hop hshort hs
  | server hs => exact h.serverSteps hop hshort hs
  | hangs => exact h
  | accept hl hs => exact h.accepts hop.2 hl hs

end RpcNet

end SimpleKit
