import SimpleKit.Lib.Pipe
import SimpleKit.Rpc.ClientRun
import SimpleKit.Rpc.ServerRun

/-!
Clients and servers that are connected by streams. A stream brings the bytes that the kernel has
accepted at its other end, in order and in any pieces; what a party does else is its own.
-/
set_option autoImplicit false

namespace SimpleKit
open Framing

def sioReads (x : SioStream) : SioReady → List UInt8
  | .read (.ok bytes) =>
    match x.sfd with
    | some fd => if fd.watchRead ∧ fd.callback = .stream then bytes else []
    | none => []
  | _ => []

abbrev RpcEnd := Nat × RpcRef

/-- `peer` is the stream of a server that was accepted for a stream of a client, and `origin` the
other way round; `clientGot` and `serverGot` are the bytes that have come in on a stream. -/
structure RpcNet where
  client : Nat → RpcClient
  server : Nat → RpcServer
  peer : RpcEnd → Option RpcEnd
  origin : RpcEnd → Option RpcEnd
  clientGot : RpcEnd → List UInt8
  serverGot : RpcEnd → List UInt8

/-- Something happens at a client or at a server, and a server accepts the connection of a stream
of a client. -/
inductive NetOp where
  | client : Nat → ClientOp → NetOp
  | server : Nat → ServerOp → NetOp
  | accept : Nat → RpcEnd → NetOp

/-- What an event brings in on its stream. On one that is closed, and while a loop goes on for
ever, nothing is read. -/
def rpcArrives (x : Option RpcStream) (looping : Bool) (ready : SioReady) : List UInt8 :=
  match x with
  | some x => if looping then [] else sioReads x.io ready
  | none => []

def RpcClient.arrives (s : RpcClient) (st : RpcRef) : ClientOp → List UInt8
  | .ready st' ready _ _ => if st = st' then rpcArrives (s.openStream st) s.looping ready else []
  | _ => []

def RpcServer.arrives (s : RpcServer) (st : RpcRef) : ServerOp → List UInt8
  | .ready st' ready _ => if st = st' then rpcArrives (s.openStream st) s.looping ready else []
  | _ => []

def RpcClient.sock (s : RpcClient) (st : RpcRef) : List UInt8 :=
  match s.stream st with
  | some x => x.io.sock
  | none => []

def RpcServer.sock (s : RpcServer) (st : RpcRef) : List UInt8 :=
  match s.stream st with
  | some x => x.io.sock
  | none => []

namespace RpcNet
variable (n : RpcNet)

def toClient (a : RpcEnd) : List UInt8 :=
  match n.peer a with
  | some b => (n.server b.1).sock b.2
  | none => []

def toServer (b : RpcEnd) : List UInt8 :=
  match n.origin b with
  | some a => (n.client a.1).sock a.2
  | none => []

def withClient (c : Nat) (s : RpcClient) (more : RpcRef → List UInt8) : RpcNet :=
  { n with
    client := Function.update n.client c s
    clientGot := fun a => if a.1 = c then n.clientGot a ++ more a.2 else n.clientGot a }

def withServer (k : Nat) (s : RpcServer) (more : RpcRef → List UInt8) : RpcNet :=
  { n with
    server := Function.update n.server k s
    serverGot := fun b => if b.1 = k then n.serverGot b ++ more b.2 else n.serverGot b }

section With
variable (c k : Nat) (s : RpcClient) (t : RpcServer) (more : RpcRef → List UInt8) (st : RpcRef)

@[simp] theorem withServer_server : (n.withServer k t more).server k = t := Function.update_self ..

@[simp] theorem withServer_got : (n.withServer k t more).serverGot (k, st) =
    n.serverGot (k, st) ++ more st := if_pos rfl

theorem withServer_got_ne {k' : Nat} (hk : k' ≠ k) :
    (n.withServer k t more).serverGot (k', st) = n.serverGot (k', st) := if_neg hk

end With

end RpcNet

/-- The byte orders of the hosts are `ce` and `se`. -/
def netDo (ce se : Nat → ByteOrder) (n : RpcNet) : NetOp → Option RpcNet
  | .client c op => do
    let (s, _) ← clientStep (ce c) (n.client c) op
    some (n.withClient c s fun st => (n.client c).arrives st op)
  | .server k op => do
    let (s, _) ← serverStep (se k) (n.server k) op
    some (n.withServer k s fun st => (n.server k).arrives st op)
  | .accept k a =>
    if (n.server k).looping then some n
    else do
      let (s, _) ← serverStep (se k) (n.server k) (.accept true)
      some { n.withServer k s fun _ => [] with
        peer := Function.update n.peer a (some (k, (n.server k).fresh))
        origin := Function.update n.origin (k, (n.server k).fresh) (some a) }

def netStep (ce se : Nat → ByteOrder) (n : RpcNet) (op : NetOp) : Option (RpcNet × Unit) :=
  Runs.plain (netDo ce se) n op

/-- Streams are reliable, once a write on one has failed all later ones fail, and a connection is
accepted at most once. -/
def NetOk (se : Nat → ByteOrder) (n : RpcNet) : NetOp → Prop
  | .client c op => ClientFits True (n.client c) op ∧
    ∀ st, n.clientGot (c, st) ++ (n.client c).arrives st op <+: n.toClient (c, st)
  | .server k op => ServerFits (se k) True (n.server k) op ∧ op ≠ .accept true ∧
    ∀ st, n.serverGot (k, st) ++ (n.server k).arrives st op <+: n.toServer (k, st)
  | .accept _ a => ((n.client a.1).stream a.2).isSome ∧ n.peer a = none

end SimpleKit
