import SimpleKit.Lib.Run
import SimpleKit.Slog.Model

/-!
slog, one system call at a time. The threads of a process share its mutex, and processes share
the lock file: flock is held by what open has made of it, which a child has in common with its
parent until it calls slog_reopen.
-/
set_option autoImplicit false

namespace SimpleKit

/-- The lock file of a process is the one it was forked with, its own, or closed. -/
inductive SlogUse where
  | inherited : SlogUse
  | own : SlogUse
  | closed : SlogUse
  deriving DecidableEq, Repr

/-- The logger of a process. `lockfd` is what open has made of the lock file, and `mutex` the
call that holds the mutex. -/
structure SlogProcess where
  log : Slog
  lockfd : Nat
  mutex : Option Nat
  use : SlogUse
  deriving DecidableEq, Repr

/-- What stat tells of the log: its st_ino and st_size, ENOENT, or another error. -/
inductive SlogStat where
  | file : Nat → Nat → SlogStat
  | missing : SlogStat
  | failed : SlogStat
  deriving DecidableEq, Repr

/-- The log is opened again: open, dup2 with the file that was opened, fstat. -/
inductive SlogReopen where
  | open : SlogReopen
  | dup2 : Nat → SlogReopen
  | fstat : SlogReopen
  deriving DecidableEq, Repr

/-- The system call that comes next. The log is opened again after stat, in whose result the
size is still to be looked at, or after rename. -/
inductive SlogPoint where
  | mutexLock : SlogPoint
  | flockEx : SlogPoint
  | stat : SlogPoint
  | reopen : SlogReopen → Option SlogStat → SlogPoint
  | rename : SlogPoint
  | flockUn : SlogPoint
  | mutexUnlock : SlogPoint
  | writev : SlogPoint
  | done : SlogPoint
  deriving DecidableEq, Repr

/-- A call of slog_write, or of slog_rotate if there is no message. -/
structure SlogThread where
  proc : Nat
  time : SlogTime
  message : Option SlogMessage
  point : SlogPoint
  deriving DecidableEq, Repr

/-- `owner` is what holds the flock of the lock file. -/
structure SlogThreads where
  dir : SlogDir
  owner : Option Nat
  nextLock : Nat
  procs : List SlogProcess
  calls : List SlogThread

def slogThreadsStart (dir : SlogDir) : SlogThreads := ⟨dir, none, 0, [], []⟩

namespace SlogThreads

def setProc (s : SlogThreads) (p : Nat) (proc : SlogProcess) : SlogThreads :=
  { s with procs := s.procs.set p proc }

def goto (s : SlogThreads) (c : Nat) (call : SlogThread) (point : SlogPoint) : SlogThreads :=
  { s with calls := s.calls.set c { call with point := point } }

end SlogThreads

/-- The log has gone, or its name belongs to another file. -/
def SlogStat.Changed (st : SlogStat) (fdstat : Nat) : Prop :=
  match st with
  | .file ino _ => fdstat ≠ ino
  | .missing => True
  | .failed => False

instance (st : SlogStat) (fdstat : Nat) : Decidable (st.Changed fdstat) :=
  match st with
  | .file ino _ => inferInstanceAs (Decidable (fdstat ≠ ino))
  | .missing => .isTrue trivial
  | .failed => .isFalse id

def SlogStat.next (st : SlogStat) (rotateSize : Nat) : SlogPoint :=
  match st with
  | .file _ size => if size ≥ rotateSize then .rename else .flockUn
  | .missing | .failed => .flockUn

inductive SlogThreadEvent where
  | open : SlogLevel → Nat → SlogThreadEvent
  | fork : Nat → SlogThreadEvent
  | reopen : Nat → Bool → SlogThreadEvent
  | close : Nat → SlogThreadEvent
  | write : Nat → SlogMessage → SlogTime → SlogThreadEvent
  | rotate : Nat → SlogTime → SlogThreadEvent
  | changeLevel : Nat → SlogLevel → SlogThreadEvent
  | proceed : Nat → Bool → SlogThreadEvent
  deriving DecidableEq, Repr

section Step
variable (filename : List UInt8)

def slogStat (s : SlogThreads) (ok : Bool) : SlogStat :=
  if ok then
    match s.dir.names filename with
    | some i => .file i (fileSize s.dir i)
    | none => .missing
  else .failed

def slogReopened (after : Option SlogStat) (rotateSize : Nat) : SlogPoint :=
  after.elim .flockUn fun st => st.next rotateSize

/-- open, dup2 and close, fstat. -/
def slogReopenStep (s : SlogThreads) (c : Nat) (call : SlogThread) (proc : SlogProcess)
    (after : Option SlogStat) (ok : Bool) : SlogReopen → SlogThreads
  | .open =>
    if ok then
      let x := s.dir.openCreate filename
      { s with dir := x.1 }.goto c call (.reopen (.dup2 x.2) after)
    else s.goto c call (slogReopened after proc.log.rotateSize)
  | .dup2 i =>
    (s.setProc call.proc { proc with log := { proc.log with fd := i } }).goto c call
      (.reopen .fstat after)
  | .fstat =>
    (s.setProc call.proc { proc with log := { proc.log with fdstat := proc.log.fd } }).goto c call
      (slogReopened after proc.log.rotateSize)

/-- The next system call of call `c`, which succeeds or not: a flock that does not is made again.
dup2, fstat and writev do not look at `ok`, since they do not fail and writev writes its whole
line; close and gettid are no steps. A call that waits for a lock, or has returned, does not go
on. -/
def slogSyscall (s : SlogThreads) (c : Nat) (ok : Bool) : Option (SlogThreads × SlogEffect) := do
  let call ← s.calls[c]?
  let proc ← s.procs[call.proc]?
  match call.point with
  | .mutexLock =>
    if proc.mutex = none then
      some ((s.setProc call.proc { proc with mutex := some c }).goto c call .flockEx, ⟨none, none⟩)
    else none
  | .flockEx =>
    if ok then
      if s.owner = none ∨ s.owner = some proc.lockfd then
        some ({ s with owner := some proc.lockfd }.goto c call
          (if call.message.isSome then .stat else .rename), ⟨none, none⟩)
      else none
    else some (s, ⟨none, none⟩)
  | .stat =>
    let st := slogStat filename s ok
    some (s.goto c call (if st.Changed proc.log.fdstat then .reopen .open (some st)
      else st.next proc.log.rotateSize), ⟨none, none⟩)
  | .reopen r after => some (slogReopenStep filename s c call proc after ok r, ⟨none, none⟩)
  | .rename =>
    if ok then
      let dest := slogDestFilename filename call.time
      some ({ s with dir := s.dir.rename filename dest }.goto c call (.reopen .open none),
        ⟨none, s.dir.replaced filename dest⟩)
    else some (s.goto c call (.reopen .open none), ⟨none, none⟩)
  | .flockUn =>
    if ok then
      some ({ s with owner := if s.owner = some proc.lockfd then none else s.owner }.goto c call
        .mutexUnlock, ⟨none, none⟩)
    else some (s, ⟨none, none⟩)
  | .mutexUnlock =>
    some ((s.setProc call.proc { proc with mutex := none }).goto c call
      (if call.message.isSome then .writev else .done), ⟨none, none⟩)
  | .writev =>
    match call.message.bind (slogLine call.time) with
    | none => some (s.goto c call .done, ⟨none, none⟩)
    | some line =>
      some ({ s with dir := s.dir.append proc.log.fd line }.goto c call .done,
        ⟨some (proc.log.fd, line), none⟩)
  | .done => none

/-- A fork waits for the mutex, which both processes have free afterwards. A call of slog_write
begins with the level and the clock. -/
def slogThreadStep (s : SlogThreads) :
    SlogThreadEvent → Option (SlogThreads × SlogEffect)
  | .open level rotateSize =>
    let x := s.dir.openCreate filename
    some ({ s with
      dir := x.1
      nextLock := s.nextLock + 1
      procs := s.procs ++ [⟨⟨x.2, x.2, rotateSize, level⟩, s.nextLock, none, .own⟩] },
      ⟨none, none⟩)
  | .fork p => s.procs[p]?.bind fun proc =>
    if proc.mutex = none then
      some ({ s with procs := s.procs ++ [{ proc with use := .inherited }] }, ⟨none, none⟩)
    else none
  | .reopen p ok => s.procs[p]?.map fun proc =>
    if ok then
      ({ s with nextLock := s.nextLock + 1 }.setProc p
        { proc with lockfd := s.nextLock, use := .own }, ⟨none, none⟩)
    else (s, ⟨none, none⟩)
  | .close p => s.procs[p]?.map fun proc => (s.setProc p { proc with use := .closed }, ⟨none, none⟩)
  | .write p m t => s.procs[p]?.map fun proc =>
    if m.level.toNat > proc.log.level.toNat then (s, ⟨none, none⟩)
    else ({ s with calls := s.calls ++ [⟨p, t, some m, .mutexLock⟩] }, ⟨none, none⟩)
  | .rotate p t => s.procs[p]?.map fun _ =>
    ({ s with calls := s.calls ++ [⟨p, t, none, .mutexLock⟩] }, ⟨none, none⟩)
  | .changeLevel p level => s.procs[p]?.map fun proc =>
    (s.setProc p { proc with log := { proc.log with level := level } }, ⟨none, none⟩)
  | .proceed c ok => slogSyscall filename s c ok

end Step

def SlogThreads.Quiet (s : SlogThreads) (p : Nat) : Prop :=
  ∀ call ∈ s.calls, call.proc = p → call.point = .done

/-- How slog.h says that it is to be used: a child calls slog_reopen before anything else, and
nothing is in a call when the log is closed. -/
def SlogAllowed (s : SlogThreads) : SlogThreadEvent → Prop
  | .open _ _ | .proceed _ _ => True
  | .fork p => ∀ proc ∈ s.procs[p]?, proc.use ≠ .closed
  | .reopen p _ => ∀ proc ∈ s.procs[p]?, proc.use = .inherited
  | .close p => (∀ proc ∈ s.procs[p]?, proc.use ≠ .closed) ∧ s.Quiet p
  | .write p _ _ | .rotate p _ | .changeLevel p _ => ∀ proc ∈ s.procs[p]?, proc.use = .own

instance (s : SlogThreads) : (e : SlogThreadEvent) → Decidable (SlogAllowed s e)
  | .open _ _ | .proceed _ _ => .isTrue trivial
  | .fork p => inferInstanceAs (Decidable (∀ proc ∈ s.procs[p]?, proc.use ≠ .closed))
  | .reopen p _ => inferInstanceAs (Decidable (∀ proc ∈ s.procs[p]?, proc.use = .inherited))
  | .close p => inferInstanceAs (Decidable ((∀ proc ∈ s.procs[p]?, proc.use ≠ .closed) ∧
    ∀ call ∈ s.calls, call.proc = p → call.point = .done))
  | .write p _ _ | .rotate p _ | .changeLevel p _ =>
    inferInstanceAs (Decidable (∀ proc ∈ s.procs[p]?, proc.use = .own))

end SimpleKit
