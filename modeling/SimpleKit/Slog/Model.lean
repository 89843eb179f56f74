import SimpleKit.Lib.Directory

/-!
slog: several processes write one log, which is archived under the time when it has grown.
localtime, stat, open, rename and writev are those of POSIX. What is done under the lock is one
step; an open may fail there.
-/
set_option autoImplicit false

namespace SimpleKit

def ascii (text : List Char) : List UInt8 := text.map fun c => c.toNat.toUInt8

def zeroPadded (width n : Nat) : List UInt8 :=
  let digits := Nat.toDigits 10 n
  ascii (List.replicate (width - digits.length) '0' ++ digits)

structure SlogTime where
  tmYear : Nat
  tmMon : Nat
  tmMday : Nat
  tmHour : Nat
  tmMin : Nat
  tmSec : Nat
  tvUsec : Nat
  deriving DecidableEq, Repr

inductive SlogLevel where
  | fatal : SlogLevel
  | error : SlogLevel
  | warn : SlogLevel
  | info : SlogLevel
  | debug : SlogLevel
  deriving DecidableEq, Repr

def SlogLevel.toNat : SlogLevel → Nat
  | .fatal => 0
  | .error => 1
  | .warn => 2
  | .info => 3
  | .debug => 4

def levelDesc : SlogLevel → List UInt8
  | .fatal => ascii ['F', 'A', 'T', 'A', 'L']
  | .error => ascii ['E', 'R', 'R', 'O', 'R']
  | .warn => ascii ['W', 'A', 'R', 'N', ' ']
  | .info => ascii ['I', 'N', 'F', 'O', ' ']
  | .debug => ascii ['D', 'E', 'B', 'U', 'G']

/-- The arguments of slog_write, the body being formatted, and the thread that calls it. -/
structure SlogMessage where
  level : SlogLevel
  tid : Nat
  file : List UInt8
  line : Nat
  function : List UInt8
  body : List UInt8
  deriving DecidableEq, Repr

def slogHeader (t : SlogTime) (m : SlogMessage) : List UInt8 :=
  let header := ascii ['['] ++ zeroPadded 4 (t.tmYear + 1900) ++ ascii ['-'] ++
    zeroPadded 2 (t.tmMon + 1) ++ ascii ['-'] ++ zeroPadded 2 t.tmMday ++ ascii [' '] ++
    zeroPadded 2 t.tmHour ++ ascii [':'] ++ zeroPadded 2 t.tmMin ++ ascii [':'] ++
    zeroPadded 2 t.tmSec ++ ascii ['.'] ++ zeroPadded 6 t.tvUsec ++ ascii [']', ' '] ++
    levelDesc m.level ++ ascii [' ', '['] ++ zeroPadded 1 m.tid ++ ascii [']', ' ']
  let place := ascii ['('] ++ m.function ++ ascii [' '] ++ m.file ++ ascii [':'] ++
    zeroPadded 1 m.line ++ ascii [')', ' ']
  (if SlogLevel.info.toNat < m.level.toNat then header ++ place else header).take 1023

/-- What slog_write appends; nothing if the body is empty. -/
def slogLine (t : SlogTime) (m : SlogMessage) : Option (List UInt8) :=
  if m.body = [] then none
  else some (slogHeader t m ++ m.body.take 10239 ++ ascii ['\n'])

abbrev SlogDir := Directory (List UInt8) (List UInt8)

def fileSize (dir : SlogDir) (i : Nat) : Nat := (dir.files i).flatten.length

/-- The logger of a process. `fd` is the file that its descriptor is open on, `fdstat` the
st_ino of it that is remembered. -/
structure Slog where
  fd : Nat
  fdstat : Nat
  rotateSize : Nat
  level : SlogLevel
  deriving DecidableEq, Repr

/-- The archive's name, cut at PATH_MAX. -/
def slogDestFilename (filename : List UInt8) (t : SlogTime) : List UInt8 :=
  (filename ++ ascii ['.'] ++ zeroPadded 4 (t.tmYear + 1900) ++ zeroPadded 2 (t.tmMon + 1) ++
    zeroPadded 2 t.tmMday ++ zeroPadded 2 t.tmHour ++ zeroPadded 2 t.tmMin ++
    zeroPadded 2 t.tmSec ++ ascii ['.'] ++ zeroPadded 6 t.tvUsec).take 4095

section Files
variable (filename : List UInt8)

def slogOpenFile (dir : SlogDir) (logger : Slog) (ok : Bool) : SlogDir × Slog :=
  if ok then
    let x := dir.openCreate filename
    (x.1, { logger with fd := x.2, fdstat := x.2 })
  else (dir, logger)

def slogCheckFile (dir : SlogDir) (logger : Slog) (t : SlogTime) (ok1 ok2 : Bool) :
    SlogDir × Slog :=
  let st := dir.names filename
  let x := if st = some logger.fdstat then (dir, logger) else slogOpenFile filename dir logger ok1
  match st with
  | none => x
  | some i =>
    if fileSize dir i ≥ logger.rotateSize then
      slogOpenFile filename (x.1.rename filename (slogDestFilename filename t)) x.2 ok2
    else x

def slogForceRotate (dir : SlogDir) (logger : Slog) (t : SlogTime) (ok : Bool) : SlogDir × Slog :=
  slogOpenFile filename (dir.rename filename (slogDestFilename filename t)) logger ok

end Files

/-- Where a call is: before the lock, before writev, before the lock of slog_rotate, returned. -/
inductive SlogStage where
  | check : SlogMessage → SlogStage
  | append : SlogMessage → SlogStage
  | rotate : SlogStage
  | done : SlogStage
  deriving DecidableEq, Repr

/-- A call of a thread of process `log`, with the clock as it was read. -/
structure SlogCall where
  log : Nat
  time : SlogTime
  stage : SlogStage
  deriving DecidableEq, Repr

structure SlogSystem where
  dir : SlogDir
  logs : List Slog
  calls : List SlogCall

def slogStart (dir : SlogDir) : SlogSystem := ⟨dir, [], []⟩

/-- slog_open in a new process, fork with slog_reopen, slog_write and slog_rotate as far as the
clock, and one more step of a call. -/
inductive SlogEvent where
  | open : SlogLevel → Nat → SlogEvent
  | fork : Nat → SlogEvent
  | write : Nat → SlogMessage → SlogTime → SlogEvent
  | rotate : Nat → SlogTime → SlogEvent
  | changeLevel : Nat → SlogLevel → SlogEvent
  | proceed : Nat → Bool → Bool → SlogEvent
  deriving DecidableEq, Repr

/-- The file and the line that a step has written, and the file that it took the name from. -/
structure SlogEffect where
  wrote : Option (Nat × List UInt8)
  replaced : Option Nat
  deriving DecidableEq, Repr

section Step
variable (filename : List UInt8)

def slogDest (s : SlogSystem) (call : SlogCall) : Option (List UInt8) :=
  match call.stage, s.logs[call.log]?, s.dir.names filename with
  | .rotate, some _, some _ => some (slogDestFilename filename call.time)
  | .check _, some logger, some i =>
    if fileSize s.dir i ≥ logger.rotateSize then
      some (slogDestFilename filename call.time)
    else none
  | _, _, _ => none

/-- One step of call `c`; `none` if there is none left. -/
def slogProceed (s : SlogSystem) (c : Nat) (ok1 ok2 : Bool) : Option (SlogSystem × SlogEffect) := do
  let call ← s.calls[c]?
  let logger ← s.logs[call.log]?
  let replaced := (slogDest filename s call).bind (s.dir.replaced filename)
  let now := fun stage => s.calls.set c { call with stage := stage }
  match call.stage with
  | .check m =>
    let x := slogCheckFile filename s.dir logger call.time ok1 ok2
    some (⟨x.1, s.logs.set call.log x.2, now (.append m)⟩, ⟨none, replaced⟩)
  | .append m =>
    match slogLine call.time m with
    | none => some ({ s with calls := now .done }, ⟨none, none⟩)
    | some line =>
      some (⟨s.dir.append logger.fd line, s.logs, now .done⟩, ⟨some (logger.fd, line), none⟩)
  | .rotate =>
    let x := slogForceRotate filename s.dir logger call.time ok1
    some (⟨x.1, s.logs.set call.log x.2, now .done⟩, ⟨none, replaced⟩)
  | .done => none

def slogStep (s : SlogSystem) : SlogEvent → Option (SlogSystem × SlogEffect)
  | .open level rotateSize =>
    let x := s.dir.openCreate filename
    some (⟨x.1, s.logs ++ [⟨x.2, x.2, rotateSize, level⟩], s.calls⟩, ⟨none, none⟩)
  | .fork p => s.logs[p]?.map fun logger => ({ s with logs := s.logs ++ [logger] }, ⟨none, none⟩)
  | .write p m t => s.logs[p]?.map fun logger =>
    if m.level.toNat > logger.level.toNat then (s, ⟨none, none⟩)
    else ({ s with calls := s.calls ++ [⟨p, t, .check m⟩] }, ⟨none, none⟩)
  | .rotate p t => s.logs[p]?.map fun _ =>
    ({ s with calls := s.calls ++ [⟨p, t, .rotate⟩] }, ⟨none, none⟩)
  | .changeLevel p level => s.logs[p]?.map fun logger =>
    ({ s with logs := s.logs.set p { logger with level := level } }, ⟨none, none⟩)
  | .proceed c ok1 ok2 => slogProceed filename s c ok1 ok2

end Step

end SimpleKit
