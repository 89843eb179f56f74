import SimpleKit.Rpc.Client

/-!
The server of sio_rpc. As in the client, what is freed and used later gives the result `none`.
The listening stream is not part of it.
-/
set_option autoImplicit false

namespace SimpleKit
open Framing

structure RpcDstream where
  id : Nat
  stream : RpcRef
  deriving DecidableEq, Repr

structure RpcMethod where
  cb : Nat
  arg : Nat
  deriving DecidableEq, Repr

structure RpcResponse where
  connId : Nat
  reqHead : Shead
  request : List UInt8
  deriving DecidableEq, Repr

/-- A request is handed to a method, with the response object made for it; a response is
written to a stream; and a write to a stream has failed. -/
inductive ServerEvent where
  | request : RpcRef → RpcRef → Frame → RpcMethod → ServerEvent
  | finish : RpcRef → RpcRef → Frame → ServerEvent
  | refused : RpcRef → ServerEvent
  deriving DecidableEq, Repr

/-- `timers` are the dstreams whose timers are in the heap. -/
structure RpcServer where
  maxPending : Nat
  connId : Nat
  dstreams : AList fun _ : Nat => RpcRef
  methods : AList fun _ : UInt32 => RpcRef
  dstream : RpcRef → Option RpcDstream
  method : RpcRef → Option RpcMethod
  response : RpcRef → Option RpcResponse
  stream : RpcRef → Option RpcStream
  timers : List RpcRef
  fresh : RpcRef
  log : List ServerEvent
  looping : Bool

/-- A response is finished, and this is what write(2) says to its header and its body. -/
structure FinishArgs where
  resp : RpcRef
  body : List UInt8
  head : Except Errno Nat
  sent : Except Errno Nat

def sioRpcServerNew (maxPending : Nat) : RpcServer where
  maxPending := maxPending
  connId := 0
  dstreams := ∅
  methods := ∅
  dstream _ := none
  method _ := none
  response _ := none
  stream _ := none
  timers := []
  fresh := 0
  log := []
  looping := false

namespace RpcServer
variable (s : RpcServer)

def setDstream (d : RpcRef) (ds : Option RpcDstream) : RpcServer :=
  { s with dstream := Function.update s.dstream d ds }

def setMethod (m : RpcRef) (x : Option RpcMethod) : RpcServer :=
  { s with method := Function.update s.method m x }

def setResponse (r : RpcRef) (x : Option RpcResponse) : RpcServer :=
  { s with response := Function.update s.response r x }

def setStream (st : RpcRef) (x : RpcStream) : RpcServer :=
  { s with stream := Function.update s.stream st (some x) }

def note (e : ServerEvent) : RpcServer := { s with log := s.log ++ [e] }

def startTimer (d : RpcRef) : RpcServer := { s with timers := d :: s.timers }

def stopTimer (d : RpcRef) : Option RpcServer :=
  if d ∈ s.timers then some { s with timers := s.timers.erase d } else none

def openStream (st : RpcRef) : Option RpcStream := (s.stream st).filter fun x => !x.closed

def closeStream (st : RpcRef) : Option RpcServer :=
  (s.openStream st).map fun x => s.setStream st { x with closed := true }

def writeStream (st : RpcRef) (data : List UInt8) (write : Except Errno Nat) :
    Option (RpcServer × Int) := do
  let x ← s.openStream st
  let (io, ret) ← sioStreamWrite x.io data write
  some (s.setStream st { x with io := io }, ret)

end RpcServer

/-- `io` is the stream that `_sio_accept_callback` has made. -/
def sioRpcDstreamAccept (s : RpcServer) (io : SioStream) : Option RpcServer :=
  let st := s.fresh
  let d := s.fresh + 1
  let id := s.connId
  let s := { s with fresh := s.fresh + 2, connId := s.connId + 1 }.setDstream d (some ⟨id, st⟩)
  if id ∈ s.dstreams then none
  else
    let s := { s with dstreams := s.dstreams.insert id d }.setStream st ⟨io, d, false⟩
    some (s.startTimer d)

def sioRpcDstreamFree (s : RpcServer) (d : RpcRef) : Option RpcServer := do
  let ds ← s.dstream d
  if ds.id ∈ s.dstreams then
    let s ← { s with dstreams := s.dstreams.erase ds.id }.closeStream ds.stream
    let s ← s.stopTimer d
    some (s.setDstream d none)
  else none

def sioRpcDstreamFull (s : RpcServer) (d : RpcRef) : Option Bool := do
  let ds ← s.dstream d
  let x ← s.openStream ds.stream
  some (s.maxPending ≤ sioStreamPending x.io ∨ s.maxPending ≤ sioBufferLength x.io.inbuf)

def sioRpcDstreamTimer (s : RpcServer) (d : RpcRef) : Option RpcServer := do
  let s := s.startTimer d
  let full ← sioRpcDstreamFull s d
  if full then sioRpcDstreamFree s d else some s

def sioRpcFinishHead (q : RpcResponse) (body : List UInt8) : Shead :=
  { q.reqHead with bodyLen := UInt32.ofNat body.length }

/-- What `sio_rpc_finish` does if the connection is still there. -/
def sioRpcFinishWrite (e : ByteOrder) (s : RpcServer) (d : RpcRef) (q : RpcResponse)
    (args : FinishArgs) : Option RpcServer := do
  let ds ← s.dstream d
  let head := sioRpcFinishHead q args.body
  let s := s.note (.finish args.resp ds.stream ⟨head, args.body⟩)
  let (s, sentHead) ← s.writeStream ds.stream
    (sheadEncode e head (List.replicate sheadEncodeSize 0)).1 args.head
  let (s, sentBody) ← s.writeStream ds.stream args.body args.sent
  let s := if sentHead ≠ 0 ∨ sentBody ≠ 0 then s.note (.refused ds.stream) else s
  if sentHead ≠ 0 ∧ sentBody ≠ 0 then sioRpcDstreamFree s d else some s

def sioRpcFinish (e : ByteOrder) (s : RpcServer) (args : FinishArgs) : Option RpcServer := do
  let q ← s.response args.resp
  let s ← match s.dstreams.lookup q.connId with
    | none => some s
    | some d => sioRpcFinishWrite e s d q args
  some (s.setResponse args.resp none)

/-- What callbacks of methods do: they finish responses, each at most once. -/
def serverAct (e : ByteOrder) (s : RpcServer) (args : FinishArgs) : Option RpcServer :=
  match s.response args.resp with
  | none => some s
  | some _ => sioRpcFinish e s args

/-- `acts r` is what the callback does that is invoked with the response `r`. -/
def sioRpcDstreamHandleRequest (e : ByteOrder) (s : RpcServer) (d : RpcRef) (f : Frame)
    (acts : RpcRef → List FinishArgs) : Option RpcServer :=
  match s.methods.lookup f.head.type with
  | none => some s
  | some m => do
    let ds ← s.dstream d
    let r := s.fresh
    let s := { s with fresh := s.fresh + 1 }.setResponse r (some ⟨ds.id, f.head, f.body⟩)
    let method ← s.method m
    (acts r).foldlM (serverAct e) (s.note (.request r ds.stream f method))

/-- What `_sio_rpc_dstream_parse_request` does with a frame. Whatever comes next, the loop
will use the input buffer of the stream again. -/
def sioRpcHandleRequest (e : ByteOrder) (d st : RpcRef) (acts : RpcRef → List FinishArgs)
    (s : RpcServer) (f : Frame) : Option RpcServer := do
  let s ← sioRpcDstreamHandleRequest e s d f acts
  let _ ← s.openStream st
  some s

/-- Also -1 if a header is bad. -/
def sioRpcDstreamParseRequest (e : ByteOrder) (fuel : Nat) (s : RpcServer) (d : RpcRef)
    (acts : RpcRef → List FinishArgs) : Option (RpcServer × Int) := do
  let ds ← s.dstream d
  let st := ds.stream
  let x ← s.openStream st
  let (s, _, outcome) ← sioRpcParse e (sioRpcHandleRequest e d st acts)
    (sioBufferData x.io.inbuf) fuel s 0
  match outcome with
  | .wait used =>
    let x ← s.openStream st
    some (s.setStream st { x with io := { x.io with inbuf := sioBufferErase x.io.inbuf used } }, 0)
  | .bad => some (s, -1)
  | .more => some ({ s with looping := true }, 0)

def sioRpcDstreamCallback (e : ByteOrder) (fuel : Nat) (s : RpcServer) (d : RpcRef)
    (acts : RpcRef → List FinishArgs) : SioStreamEvent → Option RpcServer
  | .accept => none
  | .data => do
    let (s, err) ← sioRpcDstreamParseRequest e fuel s d acts
    if err ≠ 0 then sioRpcDstreamFree s d else some s
  | .error | .close => sioRpcDstreamFree s d
  | .connected => none

def sioRpcServerAddMethod (s : RpcServer) (type : UInt32) (cb arg : Nat) : RpcServer :=
  if type ∈ s.methods then s
  else
    let m := s.fresh
    { s with fresh := s.fresh + 1, methods := s.methods.insert type m }.setMethod m (some ⟨cb, arg⟩)

def freeMethod (s : RpcServer) (m : RpcRef) : Option RpcServer := do
  let _ ← s.method m
  some (s.setMethod m none)

def sioRpcServerRemoveMethod (s : RpcServer) (type : UInt32) : Option RpcServer :=
  match s.methods.lookup type with
  | none => some s
  | some m => freeMethod s m

/-- The orders are those in which the entries of the tables are visited. -/
def sioRpcServerFree (s : RpcServer) (methodOrder dstreamOrder : List RpcRef) :
    Option RpcServer := do
  let s ← methodOrder.foldlM freeMethod s
  dstreamOrder.foldlM sioRpcDstreamFree s

end SimpleKit
