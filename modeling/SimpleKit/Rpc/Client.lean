import Mathlib.Data.List.AList
import SimpleKit.Io.Stream
import SimpleKit.Lib.Run
import SimpleKit.Rpc.Frame

/-!
The client of sio_rpc. Objects live at addresses that are never used again, so that what
is freed and used later gives the result `none`, as do a NULL pointer, a failed assert and
a timer that is stopped without being in the heap. The tables are finite maps.
-/
set_option autoImplicit false

namespace SimpleKit
open Framing

abbrev RpcRef := Nat

structure RpcRequest where
  id : Nat
  type : UInt32
  body : List UInt8
  retryCount : Nat
  retryTimes : Nat
  timeout : Nat
  upstream : Option RpcRef

structure RpcUpstream where
  ip : String
  port : UInt16
  stream : Option RpcRef
  reqId : Nat
  reqStatus : AList fun _ : Nat => RpcRef
  lastConnTime : Nat
  connDelay : Nat

/-- A stream, with the argument of its callback; after `sio_stream_close` it is only known
what the kernel has accepted. -/
structure RpcStream where
  io : SioStream
  arg : RpcRef
  closed : Bool

inductive RpcTimer where
  | request : RpcRef → RpcTimer
  | upstream : RpcRef → RpcTimer
  deriving DecidableEq, Repr

/-- What the client does that others see: a call is made and sent, its timer is started, and
its callback is invoked, for a frame received on a stream or with `is_timeout`. -/
inductive ClientEvent where
  | call : RpcRef → UInt32 → List UInt8 → ClientEvent
  | send : RpcRef → RpcRef → Frame → ClientEvent
  | arm : RpcRef → Nat → ClientEvent
  | response : RpcRef → RpcRef → Frame → ClientEvent
  | timeout : RpcRef → ClientEvent
  deriving DecidableEq, Repr

/-- `timers` is the timer heap, `looping` says that the loop over the frames has not ended. -/
structure RpcClient where
  maxPending : Nat
  rrStream : UInt32
  upstreams : List RpcRef
  reqRecord : List RpcRef
  request : RpcRef → Option RpcRequest
  upstream : RpcRef → Option RpcUpstream
  stream : RpcRef → Option RpcStream
  timers : List RpcTimer
  fresh : RpcRef
  log : List ClientEvent
  looping : Bool

/-- What the system answers: the time of a check, of a close and of a connection attempt,
whether the attempt succeeds, and what write(2) says to a header and to a body. -/
structure RpcEnv where
  now : Nat
  closeTime : Nat
  connTime : Nat
  connect : Bool
  head : Except Errno Nat
  body : Except Errno Nat

structure CallArgs where
  type : UInt32
  timeout : Nat
  retryTimes : Nat
  body : List UInt8
  env : RpcEnv

inductive ClientAct where
  | call : CallArgs → ClientAct
  | addUpstream : String → UInt16 → RpcEnv → ClientAct

def sioRpcClientNew (maxPending : Nat) : RpcClient where
  maxPending := maxPending
  rrStream := 0
  upstreams := []
  reqRecord := []
  request _ := none
  upstream _ := none
  stream _ := none
  timers := []
  fresh := 0
  log := []
  looping := false

namespace RpcClient
variable (s : RpcClient)

def setRequest (r : RpcRef) (q : RpcRequest) : RpcClient :=
  { s with request := Function.update s.request r (some q) }

def setUpstream (u : RpcRef) (up : RpcUpstream) : RpcClient :=
  { s with upstream := Function.update s.upstream u (some up) }

def setStream (st : RpcRef) (x : RpcStream) : RpcClient :=
  { s with stream := Function.update s.stream st (some x) }

def note (e : ClientEvent) : RpcClient := { s with log := s.log ++ [e] }

def startTimer (t : RpcTimer) : RpcClient := { s with timers := t :: s.timers }

def stopTimer (t : RpcTimer) : Option RpcClient :=
  if t ∈ s.timers then some { s with timers := s.timers.erase t } else none

def openStream (st : RpcRef) : Option RpcStream := (s.stream st).filter fun x => !x.closed

def closeStream (st : RpcRef) : Option RpcClient :=
  (s.openStream st).map fun x => s.setStream st { x with closed := true }

def writeStream (st : RpcRef) (data : List UInt8) (write : Except Errno Nat) :
    Option (RpcClient × Int) := do
  let x ← s.openStream st
  let (io, ret) ← sioStreamWrite x.io data write
  some (s.setStream st { x with io := io }, ret)

end RpcClient

def sioRpcUpstreamConnect (s : RpcClient) (u : RpcRef) (env : RpcEnv) :
    Option (RpcClient × Bool) := do
  let up ← s.upstream u
  match sioStreamConnect env.connect with
  | none =>
    some (s.setUpstream u { up with
      stream := none
      lastConnTime := env.connTime
      connDelay := if 256 ≤ up.connDelay then 256 else up.connDelay*2 }, false)
  | some io =>
    let s' := s.setStream s.fresh ⟨io, u, false⟩
    some ({ s' with fresh := s.fresh + 1 }.setUpstream u { up with
      stream := some s.fresh
      lastConnTime := env.connTime }, true)

/-- One round of the loop of `_sio_rpc_choose_upstream`, on `min_pending` and `upstream`. -/
def sioRpcChooseRound (s : RpcClient) (acc : Nat × Option RpcRef) (i : Nat) :
    Option (Nat × Option RpcRef) := do
  let idx := (s.rrStream + UInt32.ofNat i).toNat % s.upstreams.length
  let u ← s.upstreams[idx]?
  let up ← s.upstream u
  let pending := up.reqStatus.entries.length % 2^64
  some (if up.stream.isSome ∧ pending ≤ acc.1 then (pending, some u) else acc)

def sioRpcChooseUpstream (s : RpcClient) (env : RpcEnv) :
    Option (RpcClient × Option RpcRef) := do
  let s := { s with rrStream := s.rrStream + 1 }
  let (_, found) ← (List.range s.upstreams.length).foldlM (sioRpcChooseRound s) (2^64 - 1, none)
  match found with
  | some u => some (s, some u)
  | none =>
    if s.upstreams.length = 0 then some (s, none)
    else
      let u ← s.upstreams[s.rrStream.toNat % s.upstreams.length]?
      let (s, ok) ← sioRpcUpstreamConnect s u env
      some (s, if ok then some u else none)

def sioRpcResetLoop (u : RpcRef) : List (Sigma fun _ : Nat => RpcRef) → RpcClient → Option RpcClient
  | [], s => some s
  | ⟨_, r⟩ :: entries, s => do
    let q ← s.request r
    let s := s.setRequest r { q with upstream := none }
    let up ← s.upstream u
    if q.id ∈ up.reqStatus then
      sioRpcResetLoop u entries (s.setUpstream u { up with reqStatus := up.reqStatus.erase q.id })
    else none

def sioRpcConnDelay (up : RpcUpstream) (now : Nat) : Nat :=
  let connLife := if up.lastConnTime < now then now - up.lastConnTime else 0
  if connLife < 5 then (if 256 ≤ up.connDelay then 256 else up.connDelay*2) else 1

def sioRpcResetUpstream (s : RpcClient) (u : RpcRef) (env : RpcEnv) : Option RpcClient := do
  let up ← s.upstream u
  let st ← up.stream
  let s ← s.closeStream st
  let s := s.setUpstream u { up with
    stream := none
    reqId := 0
    connDelay := sioRpcConnDelay up env.closeTime }
  sioRpcResetLoop u up.reqStatus.entries s

def sioRpcCallHead (id : Nat) (q : RpcRequest) : Shead where
  id := UInt64.ofNat id
  type := q.type
  magicNum := 0
  reserved := 0
  bodyLen := UInt32.ofNat q.body.length

/-- `_sio_rpc_call`. -/
def sioRpcCallOn (e : ByteOrder) (s : RpcClient) (u r : RpcRef) (env : RpcEnv) :
    Option (RpcClient × Int) := do
  let up ← s.upstream u
  let st ← up.stream
  let q ← s.request r
  let id := up.reqId
  let s := s.setRequest r { q with id := id }
  let s := s.setUpstream u { up with reqId := up.reqId + 1 }
  let head := sioRpcCallHead id q
  let s := s.note (.send r st ⟨head, q.body⟩)
  let (s, sentHead) ← s.writeStream st
    (sheadEncode e head (List.replicate sheadEncodeSize 0)).1 env.head
  let (s, sentBody) ← s.writeStream st q.body env.body
  if sentHead = 0 ∧ sentBody = 0 then
    let up ← s.upstream u
    if id ∈ up.reqStatus then none
    else some (s.setUpstream u { up with reqStatus := up.reqStatus.insert id r }, 0)
  else
    let s ← sioRpcResetUpstream s u env
    some (s, -1)

/-- What both callers of `_sio_rpc_call` do with its result. -/
def sioRpcCallOrClear (e : ByteOrder) (s : RpcClient) (u r : RpcRef) (env : RpcEnv) :
    Option RpcClient := do
  let (s, ret) ← sioRpcCallOn e s u r env
  if ret = -1 then
    let q ← s.request r
    some (s.setRequest r { q with upstream := none })
  else some s

def sioRpcFreeCall (s : RpcClient) (r : RpcRef) : Option RpcClient :=
  if r ∈ s.reqRecord then
    some { s with
      reqRecord := s.reqRecord.erase r
      request := Function.update s.request r none }
  else none

def sioRpcCall (e : ByteOrder) (s : RpcClient) (args : CallArgs) : Option RpcClient := do
  let (s, upstream) ← sioRpcChooseUpstream s args.env
  let r := s.fresh
  let s := { s with fresh := s.fresh + 1 }.setRequest r
    { id := 0, type := args.type, body := args.body, retryCount := 0,
      retryTimes := args.retryTimes, timeout := args.timeout, upstream := upstream }
  let s := (s.startTimer (.request r)).note (.arm r args.timeout)
  if r ∈ s.reqRecord then none
  else
    let s := { s with reqRecord := r :: s.reqRecord }.note (.call r args.type args.body)
    match upstream with
    | none => some s
    | some u => sioRpcCallOrClear e s u r args.env

def sioRpcFindUpstream (s : RpcClient) (ip : String) (port : UInt16) :
    List RpcRef → Option (Option RpcRef)
  | [] => some none
  | u :: us => do
    let up ← s.upstream u
    if up.ip = ip ∧ up.port = port then some (some u) else sioRpcFindUpstream s ip port us

def sioRpcAddUpstream (s : RpcClient) (ip : String) (port : UInt16) (env : RpcEnv) :
    Option RpcClient := do
  let found ← sioRpcFindUpstream s ip port s.upstreams
  match found with
  | some _ => some s
  | none =>
    let u := s.fresh
    let s := { s with fresh := s.fresh + 1 }.setUpstream u
      { ip := ip, port := port, stream := none, reqId := 0, reqStatus := ∅,
        lastConnTime := env.now, connDelay := 1 }
    let (s, _) ← sioRpcUpstreamConnect s u env
    let s := s.startTimer (.upstream u)
    some { s with upstreams := s.upstreams ++ [u] }

def clientAct (e : ByteOrder) (s : RpcClient) : ClientAct → Option RpcClient
  | .call args => sioRpcCall e s args
  | .addUpstream ip port env => sioRpcAddUpstream s ip port env

/-- What `_sio_rpc_upstream_parse_response` does with a frame; `acts r` is what the callback
of `r` does. Whatever comes next, the loop will use the stream again. -/
def sioRpcHandleResponse (e : ByteOrder) (u st : RpcRef) (acts : RpcRef → List ClientAct)
    (s : RpcClient) (f : Frame) : Option RpcClient := do
  let up ← s.upstream u
  match up.reqStatus.lookup f.head.id.toNat with
  | none => some s
  | some r =>
    let s := s.setUpstream u { up with reqStatus := up.reqStatus.erase f.head.id.toNat }
    let q ← s.request r
    if f.head.type = q.type then
      let s ← (acts r).foldlM (clientAct e) (s.note (.response r st f))
      let s ← s.stopTimer (.request r)
      let s ← sioRpcFreeCall s r
      let _ ← s.openStream st
      some s
    else some (s.setRequest r { q with upstream := none })

/-- Also -1 if a header is bad. -/
def sioRpcUpstreamParseResponse (e : ByteOrder) (fuel : Nat) (s : RpcClient) (u : RpcRef)
    (acts : RpcRef → List ClientAct) : Option (RpcClient × Int) := do
  let up ← s.upstream u
  let st ← up.stream
  let x ← s.openStream st
  let (s, _, outcome) ← sioRpcParse e (sioRpcHandleResponse e u st acts)
    (sioBufferData x.io.inbuf) fuel s 0
  match outcome with
  | .wait used =>
    let x ← s.openStream st
    some (s.setStream st { x with io := { x.io with inbuf := sioBufferErase x.io.inbuf used } }, 0)
  | .bad => some (s, -1)
  | .more => some ({ s with looping := true }, 0)

def sioRpcUpstreamCallback (e : ByteOrder) (fuel : Nat) (s : RpcClient) (u : RpcRef)
    (acts : RpcRef → List ClientAct) (env : RpcEnv) : SioStreamEvent → Option RpcClient
  | .connected => some s
  | .data => do
    let (s, err) ← sioRpcUpstreamParseResponse e fuel s u acts
    if err ≠ 0 then sioRpcResetUpstream s u env else some s
  | .error | .close => sioRpcResetUpstream s u env
  | .accept => none

def sioRpcUpstreamFull (s : RpcClient) (st : RpcRef) : Option Bool := do
  let x ← s.openStream st
  some (s.maxPending ≤ sioStreamPending x.io ∨ s.maxPending ≤ sioBufferLength x.io.inbuf)

/-- The first part of `_sio_rpc_upstream_timer`. -/
def sioRpcUpstreamCheck (s : RpcClient) (u : RpcRef) (env : RpcEnv) : Option RpcClient := do
  let up ← s.upstream u
  match up.stream with
  | none => some s
  | some st =>
    let full ← sioRpcUpstreamFull s st
    if full then sioRpcResetUpstream s u env else some s

/-- The second part. -/
def sioRpcUpstreamReconnect (s : RpcClient) (u : RpcRef) (env : RpcEnv) : Option RpcClient := do
  let up ← s.upstream u
  let period := if up.lastConnTime < env.now then env.now - up.lastConnTime else 0
  if up.stream.isNone ∧ up.connDelay ≤ period then (sioRpcUpstreamConnect s u env).map Prod.fst
  else some s

def sioRpcUpstreamTimer (s : RpcClient) (u : RpcRef) (env : RpcEnv) : Option RpcClient := do
  let s ← sioRpcUpstreamCheck s u env
  let s ← sioRpcUpstreamReconnect s u env
  some (s.startTimer (.upstream u))

/-- The static `_sio_rpc_remove_upstream`. -/
def sioRpcDropUpstream (s : RpcClient) (u : RpcRef) (env : RpcEnv) : Option RpcClient := do
  let up ← s.upstream u
  let s ← if up.stream.isSome then sioRpcResetUpstream s u env else some s
  let s ← s.stopTimer (.upstream u)
  some { s with upstream := Function.update s.upstream u none }

def removeSlot (l : List RpcRef) (u : RpcRef) : List RpcRef :=
  (l.set (l.idxOf u) (l.getLastD u)).dropLast

def sioRpcRemoveUpstream (s : RpcClient) (ip : String) (port : UInt16) (env : RpcEnv) :
    Option RpcClient := do
  let found ← sioRpcFindUpstream s ip port s.upstreams
  match found with
  | none => some s
  | some u => sioRpcDropUpstream { s with upstreams := removeSlot s.upstreams u } u env

/-- `_sio_rpc_call_timer`: the request leaves the table it is in. -/
def sioRpcCancel (s : RpcClient) (r : RpcRef) : Option RpcClient := do
  let q ← s.request r
  match q.upstream with
  | none => some s
  | some u =>
    let up ← s.upstream u
    if q.id ∈ up.reqStatus then
      let s := s.setUpstream u { up with reqStatus := up.reqStatus.erase q.id }
      some (s.setRequest r { q with upstream := none })
    else none

/-- The retry of `_sio_rpc_call_timer`. -/
def sioRpcRetry (e : ByteOrder) (s : RpcClient) (r : RpcRef) (env : RpcEnv) :
    Option RpcClient := do
  let q ← s.request r
  let s := (s.startTimer (.request r)).note (.arm r q.timeout)
  let (s, upstream) ← sioRpcChooseUpstream s env
  let q ← s.request r
  let s := s.setRequest r { q with upstream := upstream }
  match upstream with
  | none => some s
  | some u => sioRpcCallOrClear e s u r env

def sioRpcCallTimer (e : ByteOrder) (s : RpcClient) (r : RpcRef)
    (acts : RpcRef → List ClientAct) (env : RpcEnv) : Option RpcClient := do
  let s ← sioRpcCancel s r
  let q ← s.request r
  let s := s.setRequest r { q with retryCount := q.retryCount + 1 }
  if q.retryTimes ≤ q.retryCount then
    let s ← (acts r).foldlM (clientAct e) (s.note (.timeout r))
    sioRpcFreeCall s r
  else sioRpcRetry e s r env

/-- `order` is the order in which the records are visited; no callback makes a call. -/
def sioRpcClientFree (s : RpcClient) (order : List RpcRef) (env : RpcEnv) : Option RpcClient := do
  let s ← s.upstreams.foldlM (fun s u => sioRpcDropUpstream s u env) s
  order.foldlM (fun s r => do
    let s ← s.stopTimer (.request r)
    sioRpcFreeCall (s.note (.timeout r)) r) s

end SimpleKit
