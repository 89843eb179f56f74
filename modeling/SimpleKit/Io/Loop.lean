import Mathlib.Logic.Function.Basic

/-!
The event loop of sio, over epoll and over select. The two files differ in how they ask the
kernel for events and what it tells them, which is the backend here. What the callbacks do is
given by a script, call by call, and what happens is written down in a trace. A read of an sfd
that is not allocated, or no longer, gives the result `none`.
-/
set_option autoImplicit false

namespace SimpleKit.Loop

abbrev SfdRef := Nat

inductive SioEvent where
  | read : SioEvent
  | write : SioEvent
  | error : SioEvent
  deriving DecidableEq, Repr

/-- A mask of events; what hangs up counts as an error. -/
structure SioEvents where
  read : Bool
  write : Bool
  error : Bool
  deriving DecidableEq, Repr

def SioEvents.has (events : SioEvents) : SioEvent → Bool
  | .read => events.read
  | .write => events.write
  | .error => events.error

/-- `revents` is of the select backend, which also has a bit for errors in `watch_events` that
nothing reads. -/
structure SioFd where
  fd : Int
  watchRead : Bool
  watchWrite : Bool
  revents : SioEvents
  userCallback : Nat
  userArg : Nat
  isDel : Bool
  deriving DecidableEq, Repr

def SioFd.watch (sfd : SioFd) : SioEvent → Bool → SioFd
  | .read, on => { sfd with watchRead := on }
  | .write, on => { sfd with watchWrite := on }
  | .error, _ => sfd

/-- The part of a manager in which the backends differ. `add` gets told if the kernel takes the
descriptor; `poll` gets what is ready and gives the sfds with what was recorded in them and the
events in the order of delivery, or `some none` if there are none. -/
structure SioBackend (K : Type) where
  new : K
  refs : K → Int → Option SfdRef
  add : K → Int → Bool → SfdRef → Option K
  del : K → Int → K
  watch : K → SfdRef → SioFd → SioEvent → Bool → K
  close : K → Int → K
  poll : K → List (Int × SioEvents) → (SfdRef → Option SioFd) →
    Option (Option ((SfdRef → Option SioFd) × List (SfdRef × SioEvents)))
  events : SioEvents → SioFd → SioEvents

/-- What the kernel keeps for a descriptor: data.ptr and the events asked for. -/
structure EpollEvent where
  ptr : SfdRef
  read : Bool
  write : Bool
  deriving DecidableEq, Repr

/-- The interest list. A descriptor that is closed leaves it, having no duplicates. -/
structure Epoll where
  interest : Int → Option EpollEvent

def epollAdd (k : Epoll) (fd : Int) (ok : Bool) (r : SfdRef) : Option Epoll :=
  if ok ∧ k.interest fd = none then some ⟨Function.update k.interest fd (some ⟨r, false, false⟩)⟩
  else none

def epollWatchEvents (k : Epoll) (r : SfdRef) (sfd : SioFd) : Epoll :=
  ⟨Function.update k.interest sfd.fd
    ((k.interest sfd.fd).map fun _ => ⟨r, sfd.watchRead, sfd.watchWrite⟩)⟩

def epollRemove (k : Epoll) (fd : Int) : Epoll := ⟨Function.update k.interest fd none⟩

/-- poll_events as epoll_wait fills it. -/
def epollWait (k : Epoll) (ready : List (Int × SioEvents)) : List (SfdRef × SioEvents) :=
  (ready.filterMap fun x => (k.interest x.1).map fun event => (event.ptr, x.2)).take 64

def epoll : SioBackend Epoll where
  new := ⟨fun _ => none⟩
  refs k fd := (k.interest fd).map EpollEvent.ptr
  add := epollAdd
  del := epollRemove
  watch k r sfd _ _ := epollWatchEvents k r sfd
  close := epollRemove
  poll k ready sfds :=
    let batch := epollWait k ready
    some (if batch = [] then none else some (sfds, batch))
  events events _ := events

def fdSetsize : Nat := 1024

structure Select where
  rset : Int → Bool
  wset : Int → Bool
  eset : Int → Bool
  fds : Int → Option SfdRef

def selectAdd (k : Select) (fd : Int) (r : SfdRef) : Option Select :=
  if fd < 0 ∨ fd ≥ fdSetsize then none
  else some { k with
    fds := Function.update k.fds fd (some r)
    eset := Function.update k.eset fd true }

def selectRemove (k : Select) (fd : Int) : Select where
  rset := Function.update k.rset fd false
  wset := Function.update k.wset fd false
  eset := Function.update k.eset fd false
  fds := Function.update k.fds fd none

def selectWatch (k : Select) (fd : Int) : SioEvent → Bool → Select
  | .read, on => { k with rset := Function.update k.rset fd on }
  | .write, on => { k with wset := Function.update k.wset fd on }
  | .error, _ => k

def selectReady (k : Select) (ready : List (Int × SioEvents)) (fd : Int) : SioEvents where
  read := k.rset fd && ready.any fun x => x.1 = fd && x.2.read
  write := k.wset fd && ready.any fun x => x.1 = fd && x.2.write
  error := k.eset fd && ready.any fun x => x.1 = fd && x.2.error

def SioEvents.none : SioEvents := ⟨false, false, false⟩

/-- The loop over all descriptors that records `revents` and fills `rfds`. -/
def selectRecord (k : Select) (ready : List (Int × SioEvents)) :
    List Int → (SfdRef → Option SioFd) →
      Option ((SfdRef → Option SioFd) × List (SfdRef × SioEvents))
  | [], sfds => some (sfds, [])
  | fd :: rest, sfds =>
    match k.fds fd with
    | none => selectRecord k ready rest sfds
    | some r => do
      let sfd ← sfds r
      let revents := selectReady k ready fd
      let x ← selectRecord k ready rest
        (Function.update sfds r (some { sfd with revents := revents }))
      some (x.1, if revents = SioEvents.none then x.2 else (r, revents) :: x.2)

def selectFds : List Int := (List.range fdSetsize).map Int.ofNat

def selectPoll (k : Select) (ready : List (Int × SioEvents)) (sfds : SfdRef → Option SioFd) :
    Option (Option ((SfdRef → Option SioFd) × List (SfdRef × SioEvents))) :=
  if ∀ fd ∈ selectFds, selectReady k ready fd = SioEvents.none then some none
  else (selectRecord k ready selectFds sfds).map some

def select : SioBackend Select where
  new := ⟨fun _ => false, fun _ => false, fun _ => false, fun _ => none⟩
  refs := Select.fds
  add k fd _ r := selectAdd k fd r
  del := selectRemove
  watch k _ sfd event on := selectWatch k sfd.fd event on
  close k _ := k
  poll := selectPoll
  events _ sfd := sfd.revents

inductive SioAct where
  | add : Int → Bool → Nat → Nat → SioAct
  | set : SfdRef → Nat → Nat → SioAct
  | del : SfdRef → SioAct
  | watchRead : SfdRef → SioAct
  | unwatchRead : SfdRef → SioAct
  | watchWrite : SfdRef → SioAct
  | unwatchWrite : SfdRef → SioAct
  | close : Int → SioAct
  deriving DecidableEq, Repr

/-- What happens. A call comes with the descriptor, the callback and its argument; `wait` with
the events that the kernel gave, and `done` when all of them are dealt with. -/
inductive SioTrace where
  | add : SfdRef → Int → Nat → Nat → SioTrace
  | set : SfdRef → Nat → Nat → SioTrace
  | del : SfdRef → SioTrace
  | watch : SfdRef → SioEvent → Bool → SioTrace
  | wait : List (SfdRef × SioEvents) → SioTrace
  | call : SfdRef → SioEvent → Int → Nat → Nat → SioTrace
  | done : SioTrace
  | free : SfdRef → SioTrace
  deriving DecidableEq, Repr

/-- The manager. `script` is what the callbacks are going to do, call by call. -/
structure Sio (K : Type) where
  kernel : K
  sfds : SfdRef → Option SioFd
  next : SfdRef
  isInLoop : Bool
  deferredToClose : List SfdRef
  deferredCapacity : Nat
  script : List (List SioAct)
  trace : List SioTrace

section Manager
variable {K : Type} (B : SioBackend K)

/-- Before sio_new adds the wake pipe and watches it. -/
def sioStart : Sio K where
  kernel := B.new
  sfds _ := none
  next := 0
  isInLoop := false
  deferredToClose := []
  deferredCapacity := 0
  script := []
  trace := []

def Sio.note (s : Sio K) (e : SioTrace) : Sio K := { s with trace := s.trace ++ [e] }

def sioAdd (s : Sio K) (fd : Int) (ok : Bool) (callback arg : Nat) : Sio K :=
  match B.add s.kernel fd ok s.next with
  | none => s
  | some kernel =>
    let sfd := ⟨fd, false, false, SioEvents.none, callback, arg, false⟩
    { s with
      kernel := kernel
      sfds := Function.update s.sfds s.next (some sfd)
      next := s.next + 1 }.note (.add s.next fd callback arg)

def Sio.store (s : Sio K) (r : SfdRef) (sfd : SioFd) : Sio K :=
  { s with sfds := Function.update s.sfds r (some sfd) }

def sioSet (s : Sio K) (r : SfdRef) (callback arg : Nat) : Option (Sio K) := do
  let sfd ← s.sfds r
  some ((s.store r { sfd with userCallback := callback, userArg := arg }).note
    (.set r callback arg))

def sioFree (s : Sio K) (r : SfdRef) : Option (Sio K) := do
  let _ ← s.sfds r
  some ({ s with sfds := Function.update s.sfds r none }.note (.free r))

/-- deferred_to_close grows by realloc; it is not written beyond its capacity. -/
def sioDefer (s : Sio K) (r : SfdRef) : Option (Sio K) :=
  let count := s.deferredToClose.length
  let capacity := if count = s.deferredCapacity then s.deferredCapacity + 1 else s.deferredCapacity
  if count < capacity then
    some { s with deferredToClose := s.deferredToClose ++ [r], deferredCapacity := capacity }
  else none

def sioDel (s : Sio K) (r : SfdRef) : Option (Sio K) := do
  let sfd ← s.sfds r
  let s := { s with kernel := B.del s.kernel sfd.fd }.note (.del r)
  if s.isInLoop then sioDefer (s.store r { sfd with isDel := true }) r else sioFree s r

/-- sio_watch_read, sio_unwatch_read, sio_watch_write and sio_unwatch_write. -/
def sioWatch (s : Sio K) (r : SfdRef) (event : SioEvent) (on : Bool) : Option (Sio K) := do
  let sfd ← s.sfds r
  let sfd := sfd.watch event on
  let s := s.store r sfd
  some ({ s with kernel := B.watch s.kernel r sfd event on }.note (.watch r event on))

def sioWatchRead (s : Sio K) (r : SfdRef) : Option (Sio K) := sioWatch B s r .read true
def sioUnwatchRead (s : Sio K) (r : SfdRef) : Option (Sio K) := sioWatch B s r .read false
def sioWatchWrite (s : Sio K) (r : SfdRef) : Option (Sio K) := sioWatch B s r .write true
def sioUnwatchWrite (s : Sio K) (r : SfdRef) : Option (Sio K) := sioWatch B s r .write false

/-- The sfd was added and not deleted, so it is for the program to use. -/
def Sio.registered (s : Sio K) (r : SfdRef) : Bool := (s.sfds r).any fun sfd => !sfd.isDel

/-- A program only uses what is registered: anything else is not done. -/
def sioAct (s : Sio K) : SioAct → Option (Sio K)
  | .add fd ok callback arg => some (sioAdd B s fd ok callback arg)
  | .set r callback arg => if s.registered r then sioSet s r callback arg else some s
  | .del r => if s.registered r then sioDel B s r else some s
  | .watchRead r => if s.registered r then sioWatchRead B s r else some s
  | .unwatchRead r => if s.registered r then sioUnwatchRead B s r else some s
  | .watchWrite r => if s.registered r then sioWatchWrite B s r else some s
  | .unwatchWrite r => if s.registered r then sioUnwatchWrite B s r else some s
  | .close fd => some { s with kernel := B.close s.kernel fd }

def sioCallback (s : Sio K) (r : SfdRef) (event : SioEvent) : Option (Sio K) := do
  let sfd ← s.sfds r
  let acts := s.script.headD []
  let s := { s with script := s.script.tail }.note
    (.call r event sfd.fd sfd.userCallback sfd.userArg)
  acts.foldlM (sioAct B) s

def sioCallbackIf (c : Bool) (s : Sio K) (r : SfdRef) (event : SioEvent) : Option (Sio K) :=
  if c then sioCallback B s r event else some s

/-- One round of the loop in sio_run. -/
def sioDispatch (s : Sio K) (x : SfdRef × SioEvents) : Option (Sio K) := do
  let sfd ← s.sfds x.1
  if sfd.isDel then some s
  else
    let events := B.events x.2 sfd
    let s ← sioCallbackIf B (events.read && sfd.watchRead) s x.1 .read
    let sfd ← s.sfds x.1
    let s ← sioCallbackIf B (!sfd.isDel && events.write && sfd.watchWrite) s x.1 .write
    let sfd ← s.sfds x.1
    sioCallbackIf B (!sfd.isDel && events.error) s x.1 .error

/-- The loop over the events, and the end of what was deleted in it. -/
def sioLoop (s : Sio K) (batch : List (SfdRef × SioEvents)) : Option (Sio K) := do
  let s ← batch.foldlM (sioDispatch B) ({ s with isInLoop := true }.note (.wait batch))
  let s := { s with isInLoop := false }.note .done
  let s ← s.deferredToClose.foldlM sioFree s
  some { s with deferredToClose := [] }

def sioEnter (s : Sio K) (batch : List (SfdRef × SioEvents)) : Sio K :=
  { s with isInLoop := true }.note (.wait batch)

def sioLeave (s : Sio K) : Option (Sio K) := do
  let s := { s with isInLoop := false }.note .done
  let s ← s.deferredToClose.foldlM sioFree s
  some { s with deferredToClose := [] }

theorem sioLoop_eq (s : Sio K) (batch : List (SfdRef × SioEvents)) :
    sioLoop B s batch = (batch.foldlM (sioDispatch B) (sioEnter s batch)).bind sioLeave := rfl

/-- sio_run; `timers` is what the callbacks of `_sio_timer_run` do, `ready` what is ready. -/
def sioRun (s : Sio K) (timers : List SioAct) (ready : List (Int × SioEvents)) :
    Option (Sio K) := do
  let s ← timers.foldlM (sioAct B) s
  match ← B.poll s.kernel ready s.sfds with
  | none => some s
  | some (sfds, batch) => sioLoop B { s with sfds := sfds } batch

/-- What a program does outside of the callbacks, one sio_run after another. -/
inductive SioOp where
  | act : SioAct → SioOp
  | run : List SioAct → List (Int × SioEvents) → List (List SioAct) → SioOp
  deriving DecidableEq, Repr

def sioStep (s : Sio K) : SioOp → Option (Sio K)
  | .act a => sioAct B s a
  | .run timers ready script => sioRun B { s with script := script } timers ready

end Manager

end SimpleKit.Loop
