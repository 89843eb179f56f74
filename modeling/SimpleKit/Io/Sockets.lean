import SimpleKit.Io.Loop
import SimpleKit.Io.Traffic

/-!
The sockets of a program, streams and datagram ones, over the event loop of sio. Here the
callbacks of the sfds are those of sio_stream and sio_dgram; what system calls answer in them and
what the user's callback does is given by a script. A use of a socket that is not allocated, or
of a NULL sfd, gives the result `none`.
-/
set_option autoImplicit false

namespace SimpleKit.Loop
open Runs

abbrev SockRef := Nat

inductive SioHandler where
  | wakeup : SioHandler
  | accept : SioHandler
  | connect : SioHandler
  | stream : SioHandler
  | dgram : SioHandler
  deriving DecidableEq, Repr

def SioHandler.code : SioHandler → Nat
  | .wakeup => 0
  | .accept => 1
  | .connect => 2
  | .stream => 3
  | .dgram => 4

def sioHandler : Nat → Option SioHandler
  | 0 => some .wakeup
  | 1 => some .accept
  | 2 => some .connect
  | 3 => some .stream
  | 4 => some .dgram
  | _ => none

/-- `sent` is what the kernel has accepted so far. -/
structure SioStream where
  type : SioStreamType
  sock : Int
  sfd : Option SfdRef
  userCallback : Nat
  userArg : Nat
  inbuf : SioBuffer
  outbuf : SioBuffer
  sent : List UInt8
  deriving DecidableEq, Repr

structure SioDgram where
  sock : Int
  sfd : Option SfdRef
  userCallback : Nat
  userArg : Nat
  deriving DecidableEq, Repr

structure SockAddr where
  addr : UInt32
  port : UInt16
  deriving DecidableEq, Repr

/-- What a program does with sockets. A descriptor that is made comes with what bind or connect
and then `sio_add` answer, a write with what write(2) or sendto answers, to the address that
inet_addr makes; `erase` is of the bytes that were received. -/
inductive SockAct where
  | listen : Option Int → Bool → Bool → Nat → Nat → SockAct
  | connect : Option Int → Bool → Bool → Nat → Nat → SockAct
  | set : SockRef → Nat → Nat → SockAct
  | write : SockRef → List UInt8 → Except Errno Nat → SockAct
  | erase : SockRef → Nat → SockAct
  | detach : SockRef → SockAct
  | attach : SockRef → Bool → SockAct
  | close : SockRef → SockAct
  | dgramOpen : Option Int → Bool → Bool → Nat → Nat → SockAct
  | dgramSet : SockRef → Nat → Nat → SockAct
  | dgramWrite : SockRef → UInt32 → UInt16 → List UInt8 → Except Errno Nat → SockAct
  | dgramResponse : SockRef → SockAddr → List UInt8 → Except Errno Nat → SockAct
  | dgramDetach : SockRef → SockAct
  | dgramAttach : SockRef → Bool → SockAct
  | dgramClose : SockRef → SockAct

/-- What the system calls of a callback answer, and what the user's callback does. -/
structure SockCall where
  accept : Option Int
  add : Bool
  read : Except Errno (List UInt8)
  connected : Bool
  write : Except Errno Nat
  recvfrom : Except Errno (SockAddr × List UInt8)
  acts : List SockAct

def SockCall.idle : SockCall where
  accept := none
  add := true
  read := .error .eagain
  connected := true
  write := .error .eagain
  recvfrom := .error .eagain
  acts := []

/-- What happens. The user's callback comes with its argument. -/
inductive SockTrace where
  | made : SockRef → SioStreamType → Nat → Nat → SockTrace
  | use : SockRef → StreamUse → StreamRet → SockTrace
  | event : SockRef → SioStreamEvent → Nat → Nat → SockTrace
  | dgramMade : SockRef → Nat → Nat → SockTrace
  | datagram : SockRef → SockAddr → List UInt8 → Nat → Nat → SockTrace
  | sendto : SockRef → SockAddr → List UInt8 → Int → SockTrace
  | set : SockRef → Nat → Nat → SockTrace
  | closed : SockRef → SockTrace

/-- The manager with the sockets of a program; `wake` is wake_pipe[0]. The manager itself is
argument 0. -/
structure Sockets (K : Type) where
  sio : Sio K
  wake : Int
  wakeSfd : SfdRef
  streams : SockRef → Option SioStream
  dgrams : SockRef → Option SioDgram
  next : SockRef
  script : List SockCall
  trace : List SockTrace

/-- What a socket has of the manager, and the wake pipe. -/
structure SockClaim where
  sock : Int
  sfd : Option SfdRef
  handler : SioHandler
  deriving DecidableEq, Repr

def SioStream.handler (x : SioStream) : SioHandler :=
  match x.type with
  | .listen => .accept
  | .connect => .connect
  | .normal => .stream

def SioStream.claim (x : SioStream) : SockClaim := ⟨x.sock, x.sfd, x.handler⟩

def SioDgram.claim (x : SioDgram) : SockClaim := ⟨x.sock, x.sfd, .dgram⟩

/-- write(2) takes no more than it is given. -/
def sysWrite (size : Nat) : Except Errno Nat → Except Errno Nat
  | .ok bytes => .ok (min bytes size)
  | .error e => .error e

def sysRead (size : Nat) : Except Errno (List UInt8) → Except Errno (List UInt8)
  | .ok bytes => .ok (bytes.take size)
  | .error e => .error e

section Manager
variable {K : Type}

namespace Sockets

def note (s : Sockets K) (e : SockTrace) : Sockets K := { s with trace := s.trace ++ [e] }

def withSio (s : Sockets K) (sio : Sio K) : Sockets K := { s with sio := sio }

def putStream (s : Sockets K) (h : SockRef) (x : SioStream) : Sockets K :=
  { s with streams := Function.update s.streams h (some x) }

def putDgram (s : Sockets K) (h : SockRef) (x : SioDgram) : Sockets K :=
  { s with dgrams := Function.update s.dgrams h (some x) }

def claim (s : Sockets K) (h : SockRef) : Option SockClaim :=
  if h = 0 then some ⟨s.wake, some s.wakeSfd, .wakeup⟩
  else match s.streams h with
    | some x => some x.claim
    | none => (s.dgrams h).map SioDgram.claim

def uses (s : Sockets K) (fd : Int) : Bool :=
  (List.range s.next).any fun h => (s.claim h).any fun c => c.sock = fd

/-- socket and accept do not answer a descriptor that is open. -/
def descriptor (s : Sockets K) (fd : Option Int) : Option Int := fd.filter fun fd => !s.uses fd

end Sockets

variable (B : SioBackend K)

/-- `sio_add`, with what it returns. -/
def sockAdd (s : Sockets K) (fd : Int) (ok : Bool) (handler : SioHandler) (h : SockRef) :
    Sockets K × Option SfdRef :=
  (s.withSio (sioAdd B s.sio fd ok handler.code h),
    (B.add s.sio.kernel fd ok s.sio.next).map fun _ => s.sio.next)

def sockWatch (s : Sockets K) (r : SfdRef) (event : SioEvent) (on : Bool) : Option (Sockets K) :=
  (sioWatch B s.sio r event on).map s.withSio

def sockDel (s : Sockets K) (r : SfdRef) : Option (Sockets K) := (sioDel B s.sio r).map s.withSio

def sockClose (s : Sockets K) (fd : Int) : Sockets K :=
  s.withSio { s.sio with kernel := B.close s.sio.kernel fd }

/-- `sio_new`; `ok` tells if the wake pipe can be added. -/
def sockStart (wake : Int) (ok : Bool) : Option (Sockets K) := do
  let r ← (B.add B.new wake ok 0).map fun _ => 0
  let sio ← sioWatchRead B (sioAdd B (sioStart B) wake ok SioHandler.wakeup.code 0) r
  some ⟨sio, wake, r, fun _ => none, fun _ => none, 1, [], []⟩

def sockAttach (s : Sockets K) (h : SockRef) (handler : SioHandler) (event : SioEvent)
    (ok : Bool) : Option (Sockets K × Bool) := do
  let x ← s.streams h
  let (s, sfd) := sockAdd B s x.sock ok handler h
  let s := s.putStream h { x with sfd := sfd }
  match sfd with
  | none => some (s, false)
  | some r => (sockWatch B s r event true).map fun s => (s, true)

def sioStreamClose (s : Sockets K) (h : SockRef) : Option (Sockets K) := do
  let x ← s.streams h
  let s ← match x.sfd with
    | some r => sockDel B s r
    | none => some s
  some { sockClose B s x.sock with streams := Function.update s.streams h none }

/-- `_sio_stream_new`, with the reference that it returns. -/
def sockStreamNew (s : Sockets K) (sock : Int) (type : SioStreamType) (callback arg : Nat) :
    Sockets K × SockRef :=
  ({ s.putStream s.next ⟨type, sock, none, callback, arg, sioBufferNew, sioBufferNew, []⟩ with
    next := s.next + 1 }, s.next)

/-- A new stream, which is closed again if it cannot be added. -/
def sockStreamMake (s : Sockets K) (sock : Int) (type : SioStreamType) (handler : SioHandler)
    (event : SioEvent) (ok : Bool) (callback arg : Nat) :
    Option (Sockets K × Option SockRef) := do
  let (s, h) := sockStreamNew s sock type callback arg
  let (s, added) ← sockAttach B s h handler event ok
  if added then some (s.note (.made h type callback arg), some h)
  else (sioStreamClose B s h).map fun s => (s, none)

def sioStreamListen (s : Sockets K) (sock : Option Int) (bind ok : Bool) (callback arg : Nat) :
    Option (Sockets K × Option SockRef) :=
  match s.descriptor sock with
  | none => some (s, none)
  | some fd =>
    if bind then sockStreamMake B s fd .listen .accept .read ok callback arg
    else some (sockClose B s fd, none)

/-- `connecting` unless connect fails with anything but EINPROGRESS. -/
def sioStreamConnect (s : Sockets K) (sock : Option Int) (connecting ok : Bool)
    (callback arg : Nat) : Option (Sockets K × Option SockRef) :=
  match s.descriptor sock with
  | none => some (s, none)
  | some fd =>
    if connecting then sockStreamMake B s fd .connect .connect .write ok callback arg
    else some (sockClose B s fd, none)

def sioStreamSet (s : Sockets K) (h : SockRef) (callback arg : Nat) : Option (Sockets K) := do
  let x ← s.streams h
  some ((s.putStream h { x with userCallback := callback, userArg := arg }).note
    (.set h callback arg))

def sioStreamDetach (s : Sockets K) (h : SockRef) : Option (Sockets K) := do
  let x ← s.streams h
  let s ← sockDel B s (← x.sfd)
  some ((s.putStream h { x with sfd := none }).note (.use h (.op .detach) .void))

def sioStreamAttach (s : Sockets K) (h : SockRef) (ok : Bool) : Option (Sockets K × Int) := do
  let x ← s.streams h
  let (s, added) ← match x.type with
    | .listen => sockAttach B s h .accept .read ok
    | .connect => sockAttach B s h .connect .write ok
    | .normal => do
      let (s, added) ← sockAttach B s h .stream .read ok
      if added ∧ sioBufferLength x.outbuf ≠ 0 then
        let x ← s.streams h
        (sockWatch B s (← x.sfd) .write true).map fun s => (s, added)
      else some (s, added)
  let ret := if added then 0 else -1
  some (s.note (.use h (.op (.attach added)) (.code ret)), ret)

def sockBacklog (s : Sockets K) (h : SockRef) (x : SioStream) (data : List UInt8) :
    Option (Sockets K) := do
  let r ← x.sfd
  sockWatch B (s.putStream h { x with outbuf := sioBufferAppend x.outbuf data }) r .write true

def sioStreamWrite (s : Sockets K) (h : SockRef) (data : List UInt8) (write : Except Errno Nat) :
    Option (Sockets K × Int) := do
  let x ← s.streams h
  let write := sysWrite data.length write
  let (s, ret) ←
    if sioBufferLength x.outbuf ≠ 0 ∨ x.type = .connect then
      some (s.putStream h { x with outbuf := sioBufferAppend x.outbuf data }, 0)
    else match write with
      | .error .other => some (s, -1)
      | .error _ => (sockBacklog B s h x data).map fun s => (s, 0)
      | .ok bytes =>
        let x := { x with sent := x.sent ++ data.take bytes }
        if bytes = data.length then some (s.putStream h x, 0)
        else (sockBacklog B s h x (data.drop bytes)).map fun s => (s, 0)
  some (s.note (.use h (.op (.write data write)) (.code ret)), ret)

/-- `sio_buffer_erase` of what `sio_stream_buffer` returns. -/
def sockErase (s : Sockets K) (h : SockRef) (size : Nat) : Option (Sockets K) := do
  let x ← s.streams h
  some ((s.putStream h { x with inbuf := sioBufferErase x.inbuf size }).note
    (.use h (.erase size) .void))

def sioDgramClose (s : Sockets K) (h : SockRef) : Option (Sockets K) := do
  let x ← s.dgrams h
  let s ← match x.sfd with
    | some r => sockDel B s r
    | none => some s
  some { sockClose B s x.sock with dgrams := Function.update s.dgrams h none }

def sioDgramAttach (s : Sockets K) (h : SockRef) (ok : Bool) : Option (Sockets K × Int) := do
  let x ← s.dgrams h
  let (s, sfd) := sockAdd B s x.sock ok .dgram h
  let s := s.putDgram h { x with sfd := sfd }
  match sfd with
  | none => some (s, -1)
  | some r => (sockWatch B s r .read true).map fun s => (s, 0)

def sioDgramOpen (s : Sockets K) (sock : Option Int) (bind ok : Bool) (callback arg : Nat) :
    Option (Sockets K × Option SockRef) :=
  match s.descriptor sock with
  | none => some (s, none)
  | some fd =>
    if bind then do
      let h := s.next
      let s := { s.putDgram h ⟨fd, none, callback, arg⟩ with next := s.next + 1 }
      let (s, ret) ← sioDgramAttach B s h ok
      if ret = 0 then some (s.note (.dgramMade h callback arg), some h)
      else (sioDgramClose B s h).map fun s => (s, none)
    else some (sockClose B s fd, none)

def sioDgramSet (s : Sockets K) (h : SockRef) (callback arg : Nat) : Option (Sockets K) := do
  let x ← s.dgrams h
  some ((s.putDgram h { x with userCallback := callback, userArg := arg }).note
    (.set h callback arg))

def sioDgramDetach (s : Sockets K) (h : SockRef) : Option (Sockets K) := do
  let x ← s.dgrams h
  let s ← sockDel B s (← x.sfd)
  some (s.putDgram h { x with sfd := none })

/-- sendto: the caller is told whether it fails, and no more. -/
def sockSendto (s : Sockets K) (h : SockRef) (dest : SockAddr) (data : List UInt8)
    (sendto : Except Errno Nat) : Option (Sockets K × Int) := do
  let _ ← s.dgrams h
  let ret := match sysWrite data.length sendto with
    | .ok _ => 0
    | .error _ => -1
  some (s.note (.sendto h dest data ret), ret)

def sioDgramWrite (s : Sockets K) (h : SockRef) (addr : UInt32) (port : UInt16)
    (data : List UInt8) (sendto : Except Errno Nat) : Option (Sockets K × Int) :=
  sockSendto s h ⟨addr, port⟩ data sendto

def sioDgramResponse (s : Sockets K) (h : SockRef) (source : SockAddr) (data : List UInt8)
    (sendto : Except Errno Nat) : Option (Sockets K × Int) :=
  sockSendto s h source data sendto

def sockAct (s : Sockets K) : SockAct → Option (Sockets K)
  | .listen sock bind ok callback arg =>
    (sioStreamListen B s sock bind ok callback arg).map Prod.fst
  | .connect sock connecting ok callback arg =>
    (sioStreamConnect B s sock connecting ok callback arg).map Prod.fst
  | .set h callback arg => sioStreamSet s h callback arg
  | .write h data write => (sioStreamWrite B s h data write).map Prod.fst
  | .erase h size => sockErase s h size
  | .detach h => sioStreamDetach B s h
  | .attach h ok => (sioStreamAttach B s h ok).map Prod.fst
  | .close h => (sioStreamClose B s h).map fun s => s.note (.closed h)
  | .dgramOpen sock bind ok callback arg =>
    (sioDgramOpen B s sock bind ok callback arg).map Prod.fst
  | .dgramSet h callback arg => sioDgramSet s h callback arg
  | .dgramWrite h addr port data sendto => (sioDgramWrite s h addr port data sendto).map Prod.fst
  | .dgramResponse h source data sendto => (sioDgramResponse s h source data sendto).map Prod.fst
  | .dgramDetach h => sioDgramDetach B s h
  | .dgramAttach h ok => (sioDgramAttach B s h ok).map Prod.fst
  | .dgramClose h => (sioDgramClose B s h).map fun s => s.note (.closed h)

/-- stream->user_callback is called, with the callback and the argument of `x`. That is the last
that a callback of an sfd does, so what the user does then is left to be done. -/
def sockUser (s : Sockets K) (h : SockRef) (x : SioStream) (event : SioStreamEvent)
    (acts : List SockAct) : Sockets K × List SockAct :=
  (s.note (.event h event x.userCallback x.userArg), acts)

/-- What the loop does to a stream, with the event for its user. -/
def Sockets.ready (s : Sockets K) (h : SockRef) (ready : SioReady)
    (event : Option SioStreamEvent) : Sockets K :=
  s.note (.use h (.op (.ready ready)) (.event event))

/-- `_sio_stream_read`, and what is done about its result. -/
def sockStreamRead (s : Sockets K) (h : SockRef) (call : SockCall) :
    Option (Sockets K × List SockAct) := do
  let x ← s.streams h
  let x := { x with inbuf := sioBufferReserve x.inbuf 4096 }
  let read := sysRead 4096 call.read
  match read with
  | .error .other =>
    some (sockUser ((s.putStream h x).ready h (.read read) (some .error)) h x .error call.acts)
  | .error _ => some ((s.putStream h x).ready h (.read read) none, [])
  | .ok [] =>
    some (sockUser ((s.putStream h x).ready h (.read read) (some .close)) h x .close call.acts)
  | .ok bytes =>
    let x := { x with inbuf := sioBufferSeek (sioBufferFill x.inbuf bytes) bytes.length }
    some (sockUser ((s.putStream h x).ready h (.read read) (some .data)) h x .data call.acts)

/-- `_sio_stream_write`, likewise. -/
def sockStreamWrite (s : Sockets K) (r : SfdRef) (h : SockRef) (call : SockCall) :
    Option (Sockets K × List SockAct) := do
  let x ← s.streams h
  let size := sioBufferLength x.outbuf
  let write := sysWrite size call.write
  let ready := SioReady.write call.connected write
  match write with
  | .error .other => some (sockUser (s.ready h ready (some .error)) h x .error call.acts)
  | .error _ => some (s.ready h ready none, [])
  | .ok bytes =>
    let s := s.putStream h { x with
      sent := x.sent ++ (sioBufferData x.outbuf).take bytes
      outbuf := sioBufferErase x.outbuf bytes }
    let s ← if bytes = size then sockWatch B s r .write false else some s
    some (s.ready h ready none, [])

/-- `_sio_stream_callback`. -/
def sockStreamCallback (s : Sockets K) (r : SfdRef) (event : SioEvent) (h : SockRef)
    (call : SockCall) : Option (Sockets K × List SockAct) :=
  match event with
  | .read => sockStreamRead s h call
  | .write => sockStreamWrite B s r h call
  | .error => do
    let x ← s.streams h
    some (sockUser (s.ready h .error (some .error)) h x .error call.acts)

/-- `_sio_connect_callback`. -/
def sockConnectCallback (s : Sockets K) (r : SfdRef) (event : SioEvent) (h : SockRef)
    (call : SockCall) : Option (Sockets K × List SockAct) := do
  let x ← s.streams h
  let write := sysWrite (sioBufferLength x.outbuf) call.write
  match event with
  | .write =>
    if call.connected then
      let s := s.putStream h { x with type := .normal }
      let s ← sockWatch B s r .read true
      let s ← if sioBufferLength x.outbuf = 0 then sockWatch B s r .write false else some s
      let s ← (sioSet s.sio r SioHandler.stream.code h).map s.withSio
      some (sockUser (s.ready h (.write true write) (some .connected)) h x .connected call.acts)
    else some (sockUser (s.ready h (.write false write) (some .error)) h x .error call.acts)
  | .error => some (sockUser (s.ready h .error (some .error)) h x .error call.acts)
  | .read => some (s.ready h (.read (sysRead 4096 call.read)) none, [])

/-- `_sio_accept_callback`, which does not look at the event. -/
def sockAcceptCallback (s : Sockets K) (h : SockRef) (call : SockCall) :
    Option (Sockets K × List SockAct) :=
  match s.descriptor call.accept with
  | none => some (s, [])
  | some fd => do
    let acceptor ← s.streams h
    let (s, made) ← sockStreamMake B s fd .normal .stream .read call.add acceptor.userCallback
      acceptor.userArg
    match made with
    | none => some (s, [])
    | some stream => some (sockUser s stream acceptor .accept call.acts)

/-- `_sio_dgram_read`. -/
def sockDgramRead (s : Sockets K) (h : SockRef) (call : SockCall) :
    Option (Sockets K × List SockAct) := do
  let x ← s.dgrams h
  match call.recvfrom with
  | .error _ => some (s, [])
  | .ok (source, data) =>
    if data = [] then some (s, [])
    else
      some (s.note (.datagram h source (data.take 4096) x.userCallback x.userArg), call.acts)

/-- `_sio_dgram_callback`. -/
def sockDgramCallback (s : Sockets K) (event : SioEvent) (h : SockRef) (call : SockCall) :
    Option (Sockets K × List SockAct) :=
  match event with
  | .read => sockDgramRead s h call
  | .write | .error => some (s, [])

def sockHandle (s : Sockets K) (r : SfdRef) (event : SioEvent) (h : SockRef) (call : SockCall) :
    SioHandler → Option (Sockets K × List SockAct)
  | .wakeup => some (s, [])
  | .accept => sockAcceptCallback B s h call
  | .connect => sockConnectCallback B s r event h call
  | .stream => sockStreamCallback B s r event h call
  | .dgram => sockDgramCallback s event h call

/-- sfd->user_callback as far as the user, with what comes next in the script. -/
def sockServe (s : Sockets K) (r : SfdRef) (event : SioEvent) :
    Option (Sockets K × List SockAct) := do
  let sfd ← s.sio.sfds r
  let handler ← sioHandler sfd.userCallback
  sockHandle B { s with
    script := s.script.tail
    sio := s.sio.note (.call r event sfd.fd sfd.userCallback sfd.userArg) }
    r event sfd.userArg (s.script.headD SockCall.idle) handler

def sockCallback (s : Sockets K) (r : SfdRef) (event : SioEvent) : Option (Sockets K) := do
  let (s, acts) ← sockServe B s r event
  acts.foldlM (sockAct B) s

def SioFd.watches (sfd : SioFd) : SioEvent → Bool
  | .read => sfd.watchRead
  | .write => sfd.watchWrite
  | .error => true

/-- One of the three callbacks in the loop of sio_run, on its condition. -/
def sockRound (r : SfdRef) (events : SioEvents) (s : Sockets K) (event : SioEvent) :
    Option (Sockets K) := do
  let sfd ← s.sio.sfds r
  if !sfd.isDel && events.has event && sfd.watches event then sockCallback B s r event else some s

def sockDispatch (s : Sockets K) (x : SfdRef × SioEvents) : Option (Sockets K) := do
  let sfd ← s.sio.sfds x.1
  if sfd.isDel then some s
  else [.read, .write, .error].foldlM (sockRound B x.1 (B.events x.2 sfd)) s

/-- sio_run; `timers` is what the callbacks of `_sio_timer_run` do, `ready` what is ready. -/
def sockRun (s : Sockets K) (timers : List SockAct) (ready : List (Int × SioEvents)) :
    Option (Sockets K) := do
  let s ← timers.foldlM (sockAct B) s
  match ← B.poll s.sio.kernel ready s.sio.sfds with
  | none => some s
  | some (sfds, batch) =>
    let s ← batch.foldlM (sockDispatch B)
      (s.withSio (sioEnter { s.sio with sfds := sfds } batch))
    (sioLeave s.sio).map s.withSio

inductive SockOp where
  | act : SockAct → SockOp
  | run : List SockAct → List (Int × SioEvents) → List SockCall → SockOp

def sockStep (s : Sockets K) : SockOp → Option (Sockets K)
  | .act a => sockAct B s a
  | .run timers ready script => sockRun B { s with script := script } timers ready

section Uses

/-- How sockets are to be used: those that are open, of which only one that is attached is detached
and only one that is not is attached; and what is erased is there. -/
def Sockets.Permits (s : Sockets K) : SockAct → Prop
  | .listen _ _ _ _ _ | .connect _ _ _ _ _ | .dgramOpen _ _ _ _ _ => True
  | .set h _ _ | .write h _ _ | .close h => (s.streams h).isSome
  | .erase h size => ∃ x ∈ s.streams h, size ≤ sioBufferLength x.inbuf
  | .detach h => ∃ x ∈ s.streams h, x.sfd.isSome
  | .attach h _ => ∃ x ∈ s.streams h, x.sfd = none
  | .dgramSet h _ _ | .dgramWrite h _ _ _ _ | .dgramResponse h _ _ _ | .dgramClose h =>
    (s.dgrams h).isSome
  | .dgramDetach h => ∃ x ∈ s.dgrams h, x.sfd.isSome
  | .dgramAttach h _ => ∃ x ∈ s.dgrams h, x.sfd = none

/-- write(2) takes all that it is given, or refuses it for good. -/
def WriteEnds (size : Nat) : Except Errno Nat → Prop
  | .ok bytes => bytes = size
  | .error e => e = .other

/-- What is written to a stream that is not attached waits behind what waits already, or nothing
of it has to wait. -/
def Sockets.Spares (s : Sockets K) : SockAct → Prop
  | .write h data write => ∀ x ∈ s.streams h, x.sfd = none →
    sioBufferLength x.outbuf ≠ 0 ∨ x.type = .connect ∨
      WriteEnds data.length (sysWrite data.length write)
  | _ => True

variable (cond : Sockets K → SockAct → Prop)

/-- The uses in one of the callbacks of the loop meet `cond` when they are made. -/
def RoundAlong (r : SfdRef) (events : SioEvents) (s : Sockets K) (event : SioEvent) : Prop :=
  ∀ sfd ∈ s.sio.sfds r, (!sfd.isDel && events.has event && sfd.watches event) = true →
    ∀ y ∈ sockServe B s r event, Along (plain (sockAct B)) cond y.1 y.2

def DispatchAlong (s : Sockets K) (x : SfdRef × SioEvents) : Prop :=
  ∀ sfd ∈ s.sio.sfds x.1, sfd.isDel = false →
    Along (plain (sockRound B x.1 (B.events x.2 sfd)))
      (RoundAlong B cond x.1 (B.events x.2 sfd)) s [.read, .write, .error]

def LoopAlong (ready : List (Int × SioEvents)) (s : Sockets K) : Prop :=
  ∀ polled ∈ B.poll s.sio.kernel ready s.sio.sfds, ∀ y ∈ polled,
    Along (plain (sockDispatch B)) (DispatchAlong B cond)
      (s.withSio (sioEnter { s.sio with sfds := y.1 } y.2)) y.2

/-- The uses that a program makes, in callbacks and outside of them. -/
def SockAlong (s : Sockets K) : SockOp → Prop
  | .act a => cond s a
  | .run timers ready script =>
    Along (plain (sockAct B)) cond { s with script := script } timers ∧
      ∀ t ∈ timers.foldlM (sockAct B) { s with script := script }, LoopAlong B cond ready t

instance (s : Sockets K) : (a : SockAct) → Decidable (s.Permits a)
  | .listen _ _ _ _ _ | .connect _ _ _ _ _ | .dgramOpen _ _ _ _ _ => .isTrue trivial
  | .set h _ _ | .write h _ _ | .close h => inferInstanceAs (Decidable ((s.streams h).isSome = true))
  | .erase h size =>
    inferInstanceAs (Decidable (∃ x ∈ s.streams h, size ≤ sioBufferLength x.inbuf))
  | .detach h => inferInstanceAs (Decidable (∃ x ∈ s.streams h, x.sfd.isSome))
  | .attach h _ => inferInstanceAs (Decidable (∃ x ∈ s.streams h, x.sfd = none))
  | .dgramSet h _ _ | .dgramWrite h _ _ _ _ | .dgramResponse h _ _ _ | .dgramClose h =>
    inferInstanceAs (Decidable ((s.dgrams h).isSome = true))
  | .dgramDetach h => inferInstanceAs (Decidable (∃ x ∈ s.dgrams h, x.sfd.isSome))
  | .dgramAttach h _ => inferInstanceAs (Decidable (∃ x ∈ s.dgrams h, x.sfd = none))

instance (size : Nat) : (write : Except Errno Nat) → Decidable (WriteEnds size write)
  | .ok bytes => inferInstanceAs (Decidable (bytes = size))
  | .error e => inferInstanceAs (Decidable (e = .other))

instance (s : Sockets K) : (a : SockAct) → Decidable (s.Spares a)
  | .write h data write => inferInstanceAs (Decidable (∀ x ∈ s.streams h, x.sfd = none →
    sioBufferLength x.outbuf ≠ 0 ∨ x.type = .connect ∨
      WriteEnds data.length (sysWrite data.length write)))
  | .listen _ _ _ _ _ | .connect _ _ _ _ _ | .set _ _ _ | .erase _ _ | .detach _ | .attach _ _
  | .close _ | .dgramOpen _ _ _ _ _ | .dgramSet _ _ _ | .dgramWrite _ _ _ _ _
  | .dgramResponse _ _ _ _ | .dgramDetach _ | .dgramAttach _ _ | .dgramClose _ => .isTrue trivial

variable [∀ s a, Decidable (cond s a)]

instance (r : SfdRef) (events : SioEvents) (s : Sockets K) (event : SioEvent) :
    Decidable (RoundAlong B cond r events s event) :=
  inferInstanceAs (Decidable (∀ sfd ∈ s.sio.sfds r,
    (!sfd.isDel && events.has event && sfd.watches event) = true →
      ∀ y ∈ sockServe B s r event, Along (plain (sockAct B)) cond y.1 y.2))

instance (s : Sockets K) (x : SfdRef × SioEvents) : Decidable (DispatchAlong B cond s x) :=
  inferInstanceAs (Decidable (∀ sfd ∈ s.sio.sfds x.1, sfd.isDel = false →
    Along (plain (sockRound B x.1 (B.events x.2 sfd)))
      (RoundAlong B cond x.1 (B.events x.2 sfd)) s [.read, .write, .error]))

instance (ready : List (Int × SioEvents)) (s : Sockets K) :
    Decidable (LoopAlong B cond ready s) :=
  inferInstanceAs (Decidable (∀ polled ∈ B.poll s.sio.kernel ready s.sio.sfds, ∀ y ∈ polled,
    Along (plain (sockDispatch B)) (DispatchAlong B cond)
      (s.withSio (sioEnter { s.sio with sfds := y.1 } y.2)) y.2))

instance (s : Sockets K) : (op : SockOp) → Decidable (SockAlong B cond s op)
  | .act a => inferInstanceAs (Decidable (cond s a))
  | .run timers ready script => inferInstanceAs (Decidable (
    Along (plain (sockAct B)) cond { s with script := script } timers ∧
      ∀ t ∈ timers.foldlM (sockAct B) { s with script := script }, LoopAlong B cond ready t))

end Uses

end Manager

end SimpleKit.Loop
