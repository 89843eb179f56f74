import SimpleKit.Io.Buffer
import SimpleKit.Lib.Run

/-!
sio_stream: what it writes, buffers and watches. System calls answer what the environment
says; a NULL sfd that is used gives the result `none`.
-/
set_option autoImplicit false

namespace SimpleKit

inductive SioStreamType where
  | listen : SioStreamType
  | connect : SioStreamType
  | normal : SioStreamType
  deriving DecidableEq, Repr

inductive SioStreamEvent where
  | accept : SioStreamEvent
  | data : SioStreamEvent
  | error : SioStreamEvent
  | close : SioStreamEvent
  | connected : SioStreamEvent
  deriving DecidableEq, Repr

inductive SioCallback where
  | accept : SioCallback
  | connect : SioCallback
  | stream : SioCallback
  deriving DecidableEq, Repr

structure SioFd where
  callback : SioCallback
  watchRead : Bool
  watchWrite : Bool
  deriving DecidableEq, Repr

/-- Of the socket, `sock` is what the kernel has accepted so far. -/
structure SioStream where
  type : SioStreamType
  sock : List UInt8
  sfd : Option SioFd
  inbuf : SioBuffer
  outbuf : SioBuffer
  deriving DecidableEq, Repr

inductive Errno where
  | eintr : Errno
  | eagain : Errno
  | other : Errno
  deriving DecidableEq, Repr

/-- The events of a socket, with what the system calls in its callback will answer: the
bytes read; whether the connection was made, and the count written. -/
inductive SioReady where
  | read : Except Errno (List UInt8) → SioReady
  | write : Bool → Except Errno Nat → SioReady
  | error : SioReady

def sioAdd (callback : SioCallback) : SioFd := ⟨callback, false, false⟩

def sioWatchRead (fd : SioFd) : SioFd := { fd with watchRead := true }

def sioWatchWrite (fd : SioFd) : SioFd := { fd with watchWrite := true }

def sioUnwatchWrite (fd : SioFd) : SioFd := { fd with watchWrite := false }

def sioSet (fd : SioFd) (callback : SioCallback) : SioFd := { fd with callback := callback }

def sioStreamNew (type : SioStreamType) (sfd : SioFd) : SioStream :=
  ⟨type, [], some sfd, sioBufferNew, sioBufferNew⟩

/-- `ok` says that all system calls and `sio_add` succeed. -/
def sioStreamConnect (ok : Bool) : Option SioStream :=
  if ok then some (sioStreamNew .connect (sioWatchWrite (sioAdd .connect))) else none

def sioStreamAccept (ok : Bool) : Option SioStream :=
  if ok then some (sioStreamNew .normal (sioWatchRead (sioAdd .stream))) else none

def sioStreamDetach (s : SioStream) : Option SioStream :=
  s.sfd.map fun _ => { s with sfd := none }

def sioStreamSfd (s : SioStream) : SioFd :=
  match s.type with
  | .listen => sioWatchRead (sioAdd .accept)
  | .connect => sioWatchWrite (sioAdd .connect)
  | .normal =>
    let fd := sioWatchRead (sioAdd .stream)
    if sioBufferLength s.outbuf ≠ 0 then sioWatchWrite fd else fd

/-- `ok` says that `sio_add` succeeds. -/
def sioStreamAttach (s : SioStream) (ok : Bool) : SioStream × Int :=
  if ok then ({ s with sfd := some (sioStreamSfd s) }, 0) else ({ s with sfd := none }, -1)

/-- The end of `sio_stream_write`: what the kernel has not accepted waits. -/
def sioStreamBacklog (s : SioStream) (data : List UInt8) : Option SioStream :=
  s.sfd.map fun fd =>
    { s with outbuf := sioBufferAppend s.outbuf data, sfd := some (sioWatchWrite fd) }

def sioStreamWrite (s : SioStream) (data : List UInt8) (write : Except Errno Nat) :
    Option (SioStream × Int) :=
  if sioBufferLength s.outbuf ≠ 0 ∨ s.type = .connect then
    some ({ s with outbuf := sioBufferAppend s.outbuf data }, 0)
  else match write with
    | .error .other => some (s, -1)
    | .error _ => (sioStreamBacklog s data).map fun s => (s, 0)
    | .ok bytes =>
      let s := { s with sock := s.sock ++ data.take bytes }
      if bytes = data.length then some (s, 0)
      else (sioStreamBacklog s (data.drop bytes)).map fun s => (s, 0)

def sioStreamPending (s : SioStream) : Nat := sioBufferLength s.outbuf

/-- `_sio_stream_read`, with the event of the user's callback if there is one. -/
def sioStreamOnRead (s : SioStream) (read : Except Errno (List UInt8)) :
    SioStream × Option SioStreamEvent :=
  let inbuf := sioBufferReserve s.inbuf 4096
  match read with
  | .error .other => ({ s with inbuf := inbuf }, some .error)
  | .error _ => ({ s with inbuf := inbuf }, none)
  | .ok [] => ({ s with inbuf := inbuf }, some .close)
  | .ok bytes =>
    ({ s with inbuf := sioBufferSeek (sioBufferFill inbuf bytes) bytes.length }, some .data)

def sioStreamOnWrite (s : SioStream) (fd : SioFd) (write : Except Errno Nat) :
    SioStream × Option SioStreamEvent :=
  match write with
  | .error .other => (s, some .error)
  | .error _ => (s, none)
  | .ok bytes =>
    ({ s with
      sock := s.sock ++ (sioBufferData s.outbuf).take bytes
      outbuf := sioBufferErase s.outbuf bytes
      sfd := some (if bytes = sioBufferLength s.outbuf then sioUnwatchWrite fd else fd) }, none)

def sioStreamCallback (s : SioStream) (fd : SioFd) : SioReady → SioStream × Option SioStreamEvent
  | .read read => sioStreamOnRead s read
  | .write _ write => sioStreamOnWrite s fd write
  | .error => (s, some .error)

def sioConnectCallback (s : SioStream) (fd : SioFd) : SioReady → SioStream × Option SioStreamEvent
  | .write true _ =>
    let fd := sioWatchRead fd
    let fd := if sioBufferLength s.outbuf = 0 then sioUnwatchWrite fd else fd
    ({ s with type := .normal, sfd := some (sioSet fd .stream) }, some .connected)
  | .write false _ | .error => (s, some .error)
  | .read _ => (s, none)

/-- The callback of the sfd. The streams that a listening one accepts are not part of it. -/
def sioCallback (s : SioStream) (fd : SioFd) (ready : SioReady) :
    SioStream × Option SioStreamEvent :=
  match fd.callback with
  | .accept => (s, none)
  | .connect => sioConnectCallback s fd ready
  | .stream => sioStreamCallback s fd ready

def sioWatched (fd : SioFd) : SioReady → Bool
  | .read _ => fd.watchRead
  | .write _ _ => fd.watchWrite
  | .error => true

/-- `sio_run` calls back for the events that are watched, and for errors. -/
def sioRunReady (s : SioStream) (ready : SioReady) : SioStream × Option SioStreamEvent :=
  match s.sfd with
  | none => (s, none)
  | some fd => if sioWatched fd ready then sioCallback s fd ready else (s, none)

end SimpleKit
