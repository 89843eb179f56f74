import SimpleKit.Lib.Guard
import SimpleKit.Slog.Syscalls

/-!
The locks of slog: which calls are between flock and its end, and that none waits for ever. A
call is outside of the locks, has the mutex of its process, or has the flock as well.
-/
set_option autoImplicit false

namespace SimpleKit
open Runs Guard

inductive SlogZone where
  | outside : SlogZone
  | mutex : SlogZone
  | section : SlogZone
  deriving DecidableEq, Repr

def SlogPoint.zone : SlogPoint → SlogZone
  | .mutexLock | .writev | .done => .outside
  | .flockEx | .mutexUnlock => .mutex
  | .stat | .reopen _ _ | .rename | .flockUn => .section

def SlogPoint.left : SlogPoint → Nat
  | .done => 0
  | .writev => 1
  | .mutexUnlock => 2
  | .flockUn => 3
  | .reopen .fstat none => 4
  | .reopen (.dup2 _) none => 5
  | .reopen .open none => 6
  | .rename => 7
  | .reopen .fstat (some _) => 8
  | .reopen (.dup2 _) (some _) => 9
  | .reopen .open (some _) => 10
  | .stat => 11
  | .flockEx => 12
  | .mutexLock => 13

/-- What a step does to the locks: call `c`, whose lock file is `d`, goes from one zone to another,
and the mutex of its process and the flock from what they were to what they are. -/
inductive LockTurn (c d : Nat) : SlogZone → SlogZone → Option Nat → Option Nat → Option Nat →
    Option Nat → Prop
  | stay {z : SlogZone} {m o : Option Nat} : LockTurn c d z z m m o o
  | lock {o : Option Nat} : LockTurn c d .outside .mutex none (some c) o o
  | flock {m o : Option Nat} : o = none ∨ o = some d → LockTurn c d .mutex .section m m o (some d)
  | unflock {m o : Option Nat} :
      LockTurn c d .section .mutex m m o (if o = some d then none else o)
  | unlock {m o : Option Nat} : LockTurn c d .mutex .outside m none o o

structure SlogTurn (s s' : SlogThreads) (c : Nat) (call : SlogThread) (proc proc' : SlogProcess)
    (ok : Bool) (point : SlogPoint) : Prop where
  atCall : s.calls[c]? = some call
  atProc : s.procs[call.proc]? = some proc
  calls : s'.calls = s.calls.set c { call with point := point }
  procs : s'.procs = s.procs.set call.proc proc'
  nextLock : s'.nextLock = s.nextLock
  lockfd : proc'.lockfd = proc.lockfd
  use : proc'.use = proc.use
  rotateSize : proc'.log.rotateSize = proc.log.rotateSize
  notDone : call.point ≠ .done
  left : ok = true → point.left < call.point.left
  locks : LockTurn c proc.lockfd call.point.zone point.zone proc.mutex proc'.mutex s.owner s'.owner

variable {filename : List UInt8} {s s' : SlogThreads} {x : SlogEffect} {c : Nat} {ok : Bool}

theorem SlogStat.next_zone (st : SlogStat) (rotateSize : Nat) :
    (st.next rotateSize).zone = .section := by
  cases st with
  | file ino size =>
    rw [next]
    split <;> rfl
  | missing => rfl
  | failed => rfl

theorem SlogStat.next_left (st : SlogStat) (rotateSize : Nat) : (st.next rotateSize).left ≤ 7 := by
  cases st with
  | file ino size =>
    rw [next]
    split <;> decide
  | missing => simp [next, SlogPoint.left]
  | failed => simp [next, SlogPoint.left]

theorem slogReopened_zone (after : Option SlogStat) (rotateSize : Nat) :
    (slogReopened after rotateSize).zone = .section := by
  cases after with
  | none => rfl
  | some st => exact st.next_zone rotateSize

theorem slogReopened_left (after : Option SlogStat) (rotateSize : Nat) :
    (slogReopened after rotateSize).left < (SlogPoint.reopen .fstat after).left := by
  cases after with
  | none => simp [slogReopened, SlogPoint.left]
  | some st => exact Nat.lt_succ_of_le (st.next_left rotateSize)

theorem reopen_left (after : Option SlogStat) (i : Nat) :
    (SlogPoint.reopen .fstat after).left < (SlogPoint.reopen (.dup2 i) after).left ∧
      (SlogPoint.reopen (.dup2 i) after).left < (SlogPoint.reopen .open after).left := by
  cases after <;> simp [SlogPoint.left]

section Does
variable {call : SlogThread} {proc proc' : SlogProcess} {dir : SlogDir} {owner : Option Nat}
  {point : SlogPoint}

/-- What the next system call of a call does, which succeeds or not: what the directory, the
holder of the lock file and the process become, where the call goes on, and what is seen of it. -/
inductive SlogDoes (filename : List UInt8) (s : SlogThreads) (c : Nat) (call : SlogThread)
    (proc : SlogProcess) :
    Bool → SlogDir → Option Nat → SlogProcess → SlogPoint → SlogEffect → Prop
  | mutexLock {ok : Bool} : call.point = .mutexLock → proc.mutex = none →
      SlogDoes filename s c call proc ok s.dir s.owner { proc with mutex := some c } .flockEx
        ⟨none, none⟩
  | flockEx : call.point = .flockEx → s.owner = none ∨ s.owner = some proc.lockfd →
      SlogDoes filename s c call proc true s.dir (some proc.lockfd) proc
        (if call.message.isSome then .stat else .rename) ⟨none, none⟩
  -- interrupted by a signal
  | again : call.point = .flockEx ∨ call.point = .flockUn →
      SlogDoes filename s c call proc false s.dir s.owner proc call.point ⟨none, none⟩
  | stat {ok : Bool} : call.point = .stat →
      SlogDoes filename s c call proc ok s.dir s.owner proc
        (if (slogStat filename s ok).Changed proc.log.fdstat then
          .reopen .open (some (slogStat filename s ok))
        else (slogStat filename s ok).next proc.log.rotateSize) ⟨none, none⟩
  | reopenFails {after : Option SlogStat} : call.point = .reopen .open after →
      SlogDoes filename s c call proc false s.dir s.owner proc
        (slogReopened after proc.log.rotateSize) ⟨none, none⟩
  | reopen {after : Option SlogStat} : call.point = .reopen .open after →
      SlogDoes filename s c call proc true (s.dir.openCreate filename).1 s.owner proc
        (.reopen (.dup2 (s.dir.openCreate filename).2) after) ⟨none, none⟩
  | dup2 {ok : Bool} {i : Nat} {after : Option SlogStat} : call.point = .reopen (.dup2 i) after →
      SlogDoes filename s c call proc ok s.dir s.owner
        { proc with log := { proc.log with fd := i } } (.reopen .fstat after) ⟨none, none⟩
  | fstat {ok : Bool} {after : Option SlogStat} : call.point = .reopen .fstat after →
      SlogDoes filename s c call proc ok s.dir s.owner
        { proc with log := { proc.log with fdstat := proc.log.fd } }
        (slogReopened after proc.log.rotateSize) ⟨none, none⟩
  | renameFails : call.point = .rename →
      SlogDoes filename s c call proc false s.dir s.owner proc (.reopen .open none) ⟨none, none⟩
  | rename : call.point = .rename →
      SlogDoes filename s c call proc true
        (s.dir.rename filename (slogDestFilename filename call.time)) s.owner proc
        (.reopen .open none)
        ⟨none, s.dir.replaced filename (slogDestFilename filename call.time)⟩
  | flockUn : call.point = .flockUn →
      SlogDoes filename s c call proc true s.dir
        (if s.owner = some proc.lockfd then none else s.owner) proc .mutexUnlock ⟨none, none⟩
  | mutexUnlock {ok : Bool} : call.point = .mutexUnlock →
      SlogDoes filename s c call proc ok s.dir s.owner { proc with mutex := none }
        (if call.message.isSome then .writev else .done) ⟨none, none⟩
  | silent {ok : Bool} : call.point = .writev → call.message.bind (slogLine call.time) = none →
      SlogDoes filename s c call proc ok s.dir s.owner proc .done ⟨none, none⟩
  | writev {ok : Bool} {line : List UInt8} : call.point = .writev →
      call.message.bind (slogLine call.time) = some line →
      SlogDoes filename s c call proc ok (s.dir.append proc.log.fd line) s.owner proc .done
        ⟨some (proc.log.fd, line), none⟩

/-- Call `c` goes on to `point`, and leaves the directory, the holder of the lock file and its
process as they are given. -/
def SlogThreads.advance (s : SlogThreads) (c : Nat) (call : SlogThread) (dir : SlogDir)
    (owner : Option Nat) (proc : SlogProcess) (point : SlogPoint) : SlogThreads :=
  { s with
    dir := dir
    owner := owner
    procs := s.procs.set call.proc proc
    calls := s.calls.set c { call with point := point } }

theorem slogSyscall_does (h : slogSyscall filename s c ok = some (s', x)) :
    ∃ call proc dir owner proc' point, s.calls[c]? = some call ∧ s.procs[call.proc]? = some proc ∧
      SlogDoes filename s c call proc ok dir owner proc' point x ∧
      s' = s.advance c call dir owner proc' point := by
  unfold slogSyscall at h
  obtain ⟨call, hcall, h⟩ := Option.bind_eq_some_iff.mp h
  obtain ⟨proc, hproc, h⟩ := Option.bind_eq_some_iff.mp h
  -- most calls leave their process as it is
  have hgo : ∀ (dir : SlogDir) (owner : Option Nat) (point : SlogPoint),
      { s with dir := dir, owner := owner, calls := s.calls.set c { call with point := point } } =
        s.advance c call dir owner proc point := fun _ _ _ => by
    rw [SlogThreads.advance, set_same hproc]
  have hstay : s = s.advance c call s.dir s.owner proc call.point := by
    rw [← hgo, set_same hcall]
  cases hpoint : call.point <;> rw [hpoint] at h <;> dsimp only at h
  case mutexLock =>
    obtain ⟨hfree, heq⟩ := Option.ite_none_right_eq_some.mp h
    obtain ⟨rfl, rfl⟩ := Prod.mk.inj (Option.some.inj heq)
    exact ⟨call, proc, _, _, _, _, hcall, hproc, .mutexLock hpoint hfree, rfl⟩
  case flockEx =>
    cases ok
    · obtain ⟨rfl, rfl⟩ := Prod.mk.inj (Option.some.inj h)
      exact ⟨call, proc, _, _, _, _, hcall, hproc, .again (Or.inl hpoint), hstay⟩
    · obtain ⟨hfree, heq⟩ := Option.ite_none_right_eq_some.mp h
      obtain ⟨rfl, rfl⟩ := Prod.mk.inj (Option.some.inj heq)
      exact ⟨call, proc, _, _, _, _, hcall, hproc, .flockEx hpoint hfree, hgo _ _ _⟩
  case stat =>
    obtain ⟨rfl, rfl⟩ := Prod.mk.inj (Option.some.inj h)
    exact ⟨call, proc, _, _, _, _, hcall, hproc, .stat hpoint, hgo _ _ _⟩
  case reopen r after =>
    obtain ⟨rfl, rfl⟩ := Prod.mk.inj (Option.some.inj h)
    cases r with
    | «open» =>
      cases ok
      · exact ⟨call, proc, _, _, _, _, hcall, hproc, .reopenFails hpoint, hgo _ _ _⟩
      · exact ⟨call, proc, _, _, _, _, hcall, hproc, .reopen hpoint, hgo _ _ _⟩
    | dup2 i => exact ⟨call, proc, _, _, _, _, hcall, hproc, .dup2 hpoint, rfl⟩
    | fstat => exact ⟨call, proc, _, _, _, _, hcall, hproc, .fstat hpoint, rfl⟩
  case rename =>
    cases ok
    · obtain ⟨rfl, rfl⟩ := Prod.mk.inj (Option.some.inj h)
      exact ⟨call, proc, _, _, _, _, hcall, hproc, .renameFails hpoint, hgo _ _ _⟩
    · obtain ⟨rfl, rfl⟩ := Prod.mk.inj (Option.some.inj h)
      exact ⟨call, proc, _, _, _, _, hcall, hproc, .rename hpoint, hgo _ _ _⟩
  case flockUn =>
    cases ok
    · obtain ⟨rfl, rfl⟩ := Prod.mk.inj (Option.some.inj h)
      exact ⟨call, proc, _, _, _, _, hcall, hproc, .again (Or.inr hpoint), hstay⟩
    · obtain ⟨rfl, rfl⟩ := Prod.mk.inj (Option.some.inj h)
      exact ⟨call, proc, _, _, _, _, hcall, hproc, .flockUn hpoint, hgo _ _ _⟩
  case mutexUnlock =>
    obtain ⟨rfl, rfl⟩ := Prod.mk.inj (Option.some.inj h)
    exact ⟨call, proc, _, _, _, _, hcall, hproc, .mutexUnlock hpoint, rfl⟩
  case writev =>
    split at h
    · next hnone =>
      obtain ⟨rfl, rfl⟩ := Prod.mk.inj (Option.some.inj h)
      exact ⟨call, proc, _, _, _, _, hcall, hproc, .silent hpoint hnone, hgo _ _ _⟩
    · next line hline =>
      obtain ⟨rfl, rfl⟩ := Prod.mk.inj (Option.some.inj h)
      exact ⟨call, proc, _, _, _, _, hcall, hproc, .writev hpoint hline, hgo _ _ _⟩
  case done => cases h

theorem SlogDoes.turn (h : SlogDoes filename s c call proc ok dir owner proc' point x)
    (hcall : s.calls[c]? = some call) (hproc : s.procs[call.proc]? = some proc) :
    SlogTurn s (s.advance c call dir owner proc' point) c call proc proc' ok point := by
  have hgo : ∀ {pt : SlogPoint}, call.point = pt → pt ≠ .done →
      (ok = true → point.left < pt.left) → proc'.lockfd = proc.lockfd → proc'.use = proc.use →
      proc'.log.rotateSize = proc.log.rotateSize →
      LockTurn c proc.lockfd pt.zone point.zone proc.mutex proc'.mutex s.owner owner →
        SlogTurn s (s.advance c call dir owner proc' point) c call proc proc' ok point := by
    rintro pt rfl hdone hleft hlockfd huse hsize hlocks
    exact ⟨hcall, hproc, rfl, rfl, rfl, hlockfd, huse, hsize, hdone, hleft, hlocks⟩
  cases h with
  | mutexLock hpoint hfree =>
    refine hgo hpoint nofun (fun _ => by decide) rfl rfl rfl ?_
    rw [hfree]
    exact .lock
  | flockEx hpoint hfree =>
    have hnext : (if call.message.isSome then SlogPoint.stat else .rename).zone = .section ∧
        (if call.message.isSome then SlogPoint.stat else .rename).left < 12 := by
      split <;> decide
    refine hgo hpoint nofun (fun _ => hnext.2) rfl rfl rfl ?_
    rw [hnext.1]
    exact .flock hfree
  | again hpoint =>
    refine hgo rfl ?_ nofun rfl rfl rfl .stay
    rcases hpoint with hpoint | hpoint <;> rw [hpoint] <;> nofun
  | stat hpoint =>
    have hnext : (if (slogStat filename s ok).Changed proc.log.fdstat then
        SlogPoint.reopen .open (some (slogStat filename s ok))
        else (slogStat filename s ok).next proc.log.rotateSize).zone = .section ∧
        (if (slogStat filename s ok).Changed proc.log.fdstat then
        SlogPoint.reopen .open (some (slogStat filename s ok))
        else (slogStat filename s ok).next proc.log.rotateSize).left < 11 := by
      split
      · exact ⟨rfl, Nat.lt_succ_self 10⟩
      · exact ⟨SlogStat.next_zone _ _, Nat.lt_of_le_of_lt (SlogStat.next_left _ _) (by decide)⟩
    refine hgo hpoint nofun (fun _ => hnext.2) rfl rfl rfl ?_
    rw [hnext.1]
    exact .stay
  | reopenFails hpoint =>
    refine hgo hpoint nofun nofun rfl rfl rfl ?_
    rw [slogReopened_zone]
    exact .stay
  | reopen hpoint => exact hgo hpoint nofun (fun _ => (reopen_left _ _).2) rfl rfl rfl .stay
  | dup2 hpoint => exact hgo hpoint nofun (fun _ => (reopen_left _ _).1) rfl rfl rfl .stay
  | fstat hpoint =>
    refine hgo hpoint nofun (fun _ => slogReopened_left _ _) rfl rfl rfl ?_
    rw [slogReopened_zone]
    exact .stay
  | renameFails hpoint => exact hgo hpoint nofun nofun rfl rfl rfl .stay
  | rename hpoint => exact hgo hpoint nofun (fun _ => by decide) rfl rfl rfl .stay
  | flockUn hpoint => exact hgo hpoint nofun (fun _ => by decide) rfl rfl rfl .unflock
  | mutexUnlock hpoint =>
    have hnext : (if call.message.isSome then SlogPoint.writev else .done).zone = .outside ∧
        (if call.message.isSome then SlogPoint.writev else .done).left < 2 := by
      split <;> decide
    refine hgo hpoint nofun (fun _ => hnext.2) rfl rfl rfl ?_
    rw [hnext.1]
    exact .unlock
  | silent hpoint _ => exact hgo hpoint nofun (fun _ => by decide) rfl rfl rfl .stay
  | writev hpoint _ => exact hgo hpoint nofun (fun _ => by decide) rfl rfl rfl .stay

theorem slogSyscall_turn (h : slogSyscall filename s c ok = some (s', x)) :
    ∃ call proc proc' point, SlogTurn s s' c call proc proc' ok point := by
  obtain ⟨call, proc, dir, owner, proc', point, hcall, hproc, hdoes, rfl⟩ := slogSyscall_does h
  exact ⟨call, proc, proc', point, hdoes.turn hcall hproc⟩

inductive SlogActs (filename : List UInt8) (s : SlogThreads) :
    SlogThreadEvent → SlogThreads → SlogEffect → Prop
  | open {level : SlogLevel} {rotateSize : Nat} :
      SlogActs filename s (.open level rotateSize)
        { s with
          dir := (s.dir.openCreate filename).1
          nextLock := s.nextLock + 1
          procs := s.procs ++ [⟨⟨(s.dir.openCreate filename).2, (s.dir.openCreate filename).2,
            rotateSize, level⟩, s.nextLock, none, .own⟩] } ⟨none, none⟩
  | fork {p : Nat} {proc : SlogProcess} : s.procs[p]? = some proc → proc.mutex = none →
      SlogActs filename s (.fork p)
        { s with procs := s.procs ++ [{ proc with use := .inherited }] } ⟨none, none⟩
  | reopen {p : Nat} {proc : SlogProcess} : s.procs[p]? = some proc →
      SlogActs filename s (.reopen p true)
        ({ s with nextLock := s.nextLock + 1 }.setProc p
          { proc with lockfd := s.nextLock, use := .own }) ⟨none, none⟩
  | reopenFails {p : Nat} : SlogActs filename s (.reopen p false) s ⟨none, none⟩
  | close {p : Nat} {proc : SlogProcess} : s.procs[p]? = some proc →
      SlogActs filename s (.close p) (s.setProc p { proc with use := .closed }) ⟨none, none⟩
  -- the level is beyond the one of the logger
  | quiet {p : Nat} {m : SlogMessage} {t : SlogTime} :
      SlogActs filename s (.write p m t) s ⟨none, none⟩
  | write {p : Nat} {m : SlogMessage} {t : SlogTime} {proc : SlogProcess} :
      s.procs[p]? = some proc →
      SlogActs filename s (.write p m t) { s with calls := s.calls ++ [⟨p, t, some m, .mutexLock⟩] }
        ⟨none, none⟩
  | rotate {p : Nat} {t : SlogTime} {proc : SlogProcess} : s.procs[p]? = some proc →
      SlogActs filename s (.rotate p t) { s with calls := s.calls ++ [⟨p, t, none, .mutexLock⟩] }
        ⟨none, none⟩
  | changeLevel {p : Nat} {level : SlogLevel} {proc : SlogProcess} : s.procs[p]? = some proc →
      SlogActs filename s (.changeLevel p level)
        (s.setProc p { proc with log := { proc.log with level := level } }) ⟨none, none⟩
  | proceed {c : Nat} {ok : Bool} {call : SlogThread} {proc proc' : SlogProcess} {dir : SlogDir}
      {owner : Option Nat} {point : SlogPoint} {x : SlogEffect} : s.calls[c]? = some call →
      s.procs[call.proc]? = some proc →
      SlogDoes filename s c call proc ok dir owner proc' point x →
      SlogActs filename s (.proceed c ok) (s.advance c call dir owner proc' point) x

theorem slogThreadStep_acts {e : SlogThreadEvent}
    (hstep : slogThreadStep filename s e = some (s', x)) : SlogActs filename s e s' x := by
  cases e with
  | «open» level rotateSize =>
    obtain ⟨rfl, rfl⟩ := Prod.mk.inj (Option.some.inj hstep)
    exact .open
  | fork p =>
    obtain ⟨proc, hp, heq⟩ := Option.bind_eq_some_iff.mp hstep
    obtain ⟨hfree, heq⟩ := Option.ite_none_right_eq_some.mp heq
    obtain ⟨rfl, rfl⟩ := Prod.mk.inj (Option.some.inj heq)
    exact .fork hp hfree
  | reopen p ok =>
    obtain ⟨proc, hp, heq⟩ := Option.map_eq_some_iff.mp hstep
    cases ok <;> obtain ⟨rfl, rfl⟩ := Prod.mk.inj heq
    · exact .reopenFails
    · exact .reopen hp
  | close p =>
    obtain ⟨proc, hp, heq⟩ := Option.map_eq_some_iff.mp hstep
    obtain ⟨rfl, rfl⟩ := Prod.mk.inj heq
    exact .close hp
  | write p m t =>
    obtain ⟨proc, hp, heq⟩ := Option.map_eq_some_iff.mp hstep
    split at heq <;> obtain ⟨rfl, rfl⟩ := Prod.mk.inj heq
    · exact .quiet
    · exact .write hp
  | rotate p t =>
    obtain ⟨proc, hp, heq⟩ := Option.map_eq_some_iff.mp hstep
    obtain ⟨rfl, rfl⟩ := Prod.mk.inj heq
    exact .rotate hp
  | changeLevel p level =>
    obtain ⟨proc, hp, heq⟩ := Option.map_eq_some_iff.mp hstep
    obtain ⟨rfl, rfl⟩ := Prod.mk.inj heq
    exact .changeLevel hp
  | proceed c ok =>
    obtain ⟨call, proc, dir, owner, proc', point, hcall, hproc, hdoes, rfl⟩ :=
      slogSyscall_does hstep
    exact .proceed hcall hproc hdoes

end Does

section Turn
variable {call : SlogThread} {proc proc' : SlogProcess} {point : SlogPoint}

theorem SlogTurn.getCall (h : SlogTurn s s' c call proc proc' ok point) (j : Nat) :
    s'.calls[j]? = if j = c then some { call with point := point } else s.calls[j]? := by
  rw [h.calls, get_set h.atCall]

theorem SlogTurn.getProc (h : SlogTurn s s' c call proc proc' ok point) (p : Nat) :
    s'.procs[p]? = if p = call.proc then some proc' else s.procs[p]? := by
  rw [h.procs, get_set h.atProc]

theorem SlogTurn.sameProc (h : SlogTurn s s' c call proc proc' ok point) {p : Nat}
    {proc1 : SlogProcess} (h1 : s'.procs[p]? = some proc1) : ∃ proc0,
    s.procs[p]? = some proc0 ∧ proc1.lockfd = proc0.lockfd ∧ proc1.use = proc0.use := by
  rw [h.getProc] at h1
  split at h1
  · next hp =>
    cases h1
    exact ⟨proc, hp ▸ h.atProc, h.lockfd, h.use⟩
  · exact ⟨proc1, h1, rfl, rfl⟩

theorem SlogTurn.sameProc' (h : SlogTurn s s' c call proc proc' ok point) {p : Nat}
    {proc0 : SlogProcess} (h0 : s.procs[p]? = some proc0) : ∃ proc1,
    s'.procs[p]? = some proc1 ∧ proc1.lockfd = proc0.lockfd ∧ proc1.use = proc0.use := by
  rw [h.getProc]
  split
  · next hp =>
    rw [hp, h.atProc, Option.some.injEq] at h0
    exact ⟨proc', rfl, h0 ▸ h.lockfd, h0 ▸ h.use⟩
  · exact ⟨proc0, h0, rfl, rfl⟩

end Turn

namespace SlogThreads

def Inside (s : SlogThreads) (p c : Nat) : Prop :=
  ∃ call, s.calls[c]? = some call ∧ call.proc = p ∧ call.point.zone ≠ .outside

/-- Call `c` is between flock and its end. -/
def InSection (s : SlogThreads) (c : Nat) : Prop :=
  ∃ call, s.calls[c]? = some call ∧ call.point.zone = .section

def Locks (s : SlogThreads) (d : Nat) : Prop :=
  ∃ (c : Nat) (call : SlogThread) (proc : SlogProcess), s.calls[c]? = some call ∧
    s.procs[call.proc]? = some proc ∧ call.point.zone = .section ∧ proc.lockfd = d

def OthersLock (s : SlogThreads) (c d : Nat) : Prop :=
  ∃ (j : Nat) (call : SlogThread) (proc : SlogProcess), j ≠ c ∧ s.calls[j]? = some call ∧
    s.procs[call.proc]? = some proc ∧ call.point.zone = .section ∧ proc.lockfd = d

end SlogThreads

/-- The locks say who is where. Processes that use the log have lock files of their own. -/
structure SlogLocked (s : SlogThreads) : Prop where
  mutex : ∀ (p : Nat) (proc : SlogProcess), s.procs[p]? = some proc → Guards proc.mutex (s.Inside p)
  owner : Guards s.owner s.Locks
  own : ∀ (p q : Nat) (proc proc' : SlogProcess), s.procs[p]? = some proc →
    s.procs[q]? = some proc' → proc.use = .own → proc'.use = .own →
      proc.lockfd = proc'.lockfd → p = q
  used : ∀ (c : Nat) (call : SlogThread), s.calls[c]? = some call → call.point ≠ .done →
    ∃ proc, s.procs[call.proc]? = some proc ∧ proc.use = .own
  fresh : ∀ (p : Nat) (proc : SlogProcess), s.procs[p]? = some proc → proc.lockfd < s.nextLock

theorem zone_ne_done {point : SlogPoint} (h : point.zone ≠ .outside) : point ≠ .done := by
  rintro rfl
  exact h rfl

theorem SlogLocked.section_unique (h : SlogLocked s) {c c' : Nat} {call call' : SlogThread}
    {proc proc' : SlogProcess} (hc : s.calls[c]? = some call) (hc' : s.calls[c']? = some call')
    (hp : s.procs[call.proc]? = some proc) (hp' : s.procs[call'.proc]? = some proc')
    (hz : call.point.zone ≠ .outside) (hz' : call'.point.zone ≠ .outside)
    (hd : proc.lockfd = proc'.lockfd) : c = c' := by
  obtain ⟨proc1, hp1, hown⟩ := h.used c call hc (zone_ne_done hz)
  obtain ⟨proc1', hp1', hown'⟩ := h.used c' call' hc' (zone_ne_done hz')
  obtain rfl := Option.some.inj (hp.symm.trans hp1)
  obtain rfl := Option.some.inj (hp'.symm.trans hp1')
  have hsame := h.own _ _ _ _ hp hp' hown hown' hd
  exact (h.mutex _ _ hp).unique ⟨call, hc, rfl, hz⟩ ⟨call', hc', hsame.symm, hz'⟩

theorem SlogLocked.in_section (h : SlogLocked s) {c c' : Nat} (hc : s.InSection c)
    (hc' : s.InSection c') : c = c' := by
  obtain ⟨call, hc, hz⟩ := hc
  obtain ⟨call', hc', hz'⟩ := hc'
  have hout : call.point.zone ≠ .outside := by rw [hz]; exact nofun
  have hout' : call'.point.zone ≠ .outside := by rw [hz']; exact nofun
  obtain ⟨proc, hp, -⟩ := h.used c call hc (zone_ne_done hout)
  obtain ⟨proc', hp', -⟩ := h.used c' call' hc' (zone_ne_done hout')
  have hsame : proc.lockfd = proc'.lockfd := h.owner.unique
    ⟨c, call, proc, hc, hp, hz, rfl⟩ ⟨c', call', proc', hc', hp', hz', rfl⟩
  exact h.section_unique hc hc' hp hp' hout hout' hsame

theorem LockTurn.mutex {d : Nat} {z z' : SlogZone} {m m' o o' : Option Nat}
    (h : LockTurn c d z z' m m' o o') :
    (z' ≠ .outside ↔ z ≠ .outside) ∧ m' = m ∨
      z = .outside ∧ z' ≠ .outside ∧ m = none ∧ m' = some c ∨
      z ≠ .outside ∧ z' = .outside ∧ m' = none := by
  cases h <;> simp

theorem LockTurn.owner {d : Nat} {z z' : SlogZone} {m m' o o' : Option Nat}
    (h : LockTurn c d z z' m m' o o') :
    (z' = .section ↔ z = .section) ∧ o' = o ∨
      z = .mutex ∧ z' = .section ∧ (o = none ∨ o = some d) ∧ o' = some d ∨
      z = .section ∧ z' ≠ .section ∧ o' = if o = some d then none else o := by
  cases h with
  | flock ho => simp [ho]
  | stay => simp
  | lock => simp
  | unflock => simp
  | unlock => simp

section Turn
variable {call : SlogThread} {proc proc' : SlogProcess} {point : SlogPoint}

theorem SlogTurn.inside_iff (ht : SlogTurn s s' c call proc proc' ok point) (p j : Nat) :
    s'.Inside p j ↔ j = c ∧ call.proc = p ∧ point.zone ≠ .outside ∨ j ≠ c ∧ s.Inside p j := by
  unfold SlogThreads.Inside
  rw [ht.getCall]
  split
  · next hj => simp [hj]
  · next hj => simp [hj]

theorem SlogTurn.locks_iff (ht : SlogTurn s s' c call proc proc' ok point) (d : Nat) :
    s'.Locks d ↔ point.zone = .section ∧ proc.lockfd = d ∨ s.OthersLock c d := by
  constructor
  · rintro ⟨j, call1, proc1, hj, hp, hz, hd⟩
    obtain ⟨proc0, hp0, hfd, -⟩ := ht.sameProc hp
    rw [ht.getCall] at hj
    split at hj
    · cases hj
      obtain rfl := Option.some.inj (ht.atProc.symm.trans hp0)
      exact Or.inl ⟨hz, hfd ▸ hd⟩
    · next hne => exact Or.inr ⟨j, call1, proc0, hne, hj, hp0, hz, hfd ▸ hd⟩
  · rintro (⟨hz, hd⟩ | ⟨j, call1, proc1, hne, hj, hp, hz, hd⟩)
    · refine ⟨c, { call with point := point }, proc', ?_, ?_, hz, ht.lockfd.trans hd⟩
      · rw [ht.getCall, if_pos rfl]
      · rw [ht.getProc, if_pos rfl]
    · obtain ⟨proc2, hp2, hfd, -⟩ := ht.sameProc' hp
      exact ⟨j, call1, proc2, by rw [ht.getCall, if_neg hne]; exact hj, hp2, hz, hfd.trans hd⟩

theorem SlogTurn.locked_iff (ht : SlogTurn s s' c call proc proc' ok point) (d : Nat) :
    s.Locks d ↔ call.point.zone = .section ∧ proc.lockfd = d ∨ s.OthersLock c d := by
  constructor
  · rintro ⟨j, call1, proc1, hj, hp, hz, hd⟩
    by_cases hne : j = c
    · subst hne
      obtain rfl := Option.some.inj (ht.atCall.symm.trans hj)
      obtain rfl := Option.some.inj (ht.atProc.symm.trans hp)
      exact Or.inl ⟨hz, hd⟩
    · exact Or.inr ⟨j, call1, proc1, hne, hj, hp, hz, hd⟩
  · rintro (⟨hz, hd⟩ | ⟨j, call1, proc1, -, hj, hp, hz, hd⟩)
    · exact ⟨c, call, proc, ht.atCall, ht.atProc, hz, hd⟩
    · exact ⟨j, call1, proc1, hj, hp, hz, hd⟩

theorem SlogLocked.turn_mutex (h : SlogLocked s) (ht : SlogTurn s s' c call proc proc' ok point)
    {p : Nat} {proc1 : SlogProcess} (h1 : s'.procs[p]? = some proc1) :
    Guards proc1.mutex (s'.Inside p) := by
  rw [ht.getProc] at h1
  have hself : ∀ j, s.Inside call.proc j ↔ j = c ∧ call.point.zone ≠ .outside ∨
      j ≠ c ∧ s.Inside call.proc j := by
    intro j
    by_cases hj : j = c
    · rw [hj]
      refine ⟨fun hin => Or.inl ⟨rfl, ?_⟩, fun hin => ?_⟩
      · obtain ⟨call1, hc1, -, hz⟩ := hin
        rwa [Option.some.inj (ht.atCall.symm.trans hc1)]
      · exact ⟨call, ht.atCall, rfl, (hin.resolve_right fun hne => hne.1 rfl).2⟩
    · simp [hj]
  split at h1
  · next hp =>
    subst hp
    cases h1
    have hm := h.mutex _ _ ht.atProc
    rcases ht.locks.mutex with ⟨hiff, hm'⟩ | ⟨hz, hz', hnone, hm'⟩ | ⟨hz, hz', hm'⟩
    · rw [hm']
      refine hm.congr fun j => (ht.inside_iff _ j).trans ?_
      rw [hiff]
      simpa using (hself j).symm
    · rw [hm']
      rw [hnone] at hm
      refine hm.take fun j => ?_
      rw [ht.inside_iff, hself j]
      by_cases hj : j = c <;> simp [hj, hz']
    · rw [hm']
      refine hm.drop ⟨call, ht.atCall, rfl, hz⟩ fun j => ?_
      rw [ht.inside_iff]
      simp [hz']
  · next hp =>
    refine (h.mutex p proc1 h1).congr fun j => ?_
    rw [ht.inside_iff]
    constructor
    · rintro (⟨-, he, -⟩ | ⟨-, hin⟩)
      · exact absurd he.symm hp
      · exact hin
    · intro hin
      refine Or.inr ⟨?_, hin⟩
      rintro rfl
      obtain ⟨call1, hc1, he, -⟩ := hin
      exact hp (he ▸ (Option.some.inj (ht.atCall.symm.trans hc1)) ▸ rfl)

theorem SlogLocked.turn_owner (h : SlogLocked s) (ht : SlogTurn s s' c call proc proc' ok point) :
    Guards s'.owner s'.Locks := by
  -- nobody else is there with the lock file of this call
  have halone : call.point.zone ≠ .outside → ∀ j call1 proc1, j ≠ c → s.calls[j]? = some call1 →
      s.procs[call1.proc]? = some proc1 → call1.point.zone = .section →
        proc1.lockfd ≠ proc.lockfd := by
    intro hz j call1 proc1 hne hj hp hz1 hd
    have hz1' : call1.point.zone ≠ .outside := by rw [hz1]; exact nofun
    exact hne (h.section_unique hj ht.atCall hp ht.atProc hz1' hz hd)
  rcases ht.locks.owner with ⟨hiff, ho⟩ | ⟨hz, hz', hfree, ho⟩ | ⟨hz, hz', ho⟩
  · rw [ho]
    refine h.owner.congr fun d => ?_
    rw [ht.locks_iff, ht.locked_iff, hiff]
  · have hnone : s.owner = none := by
      refine hfree.resolve_right fun hd => ?_
      rcases (ht.locked_iff _).mp ((h.owner _).mp hd) with
        ⟨hsec, -⟩ | ⟨j, call1, proc1, hne, hj, hp, hz1, hd1⟩
      · rw [hz] at hsec
        cases hsec
      · exact halone (by rw [hz]; exact nofun) j call1 proc1 hne hj hp hz1 hd1
    have howner := h.owner
    rw [hnone] at howner
    rw [ho]
    refine howner.take fun d => ?_
    rw [ht.locks_iff, ht.locked_iff, hz']
    simp [hz, eq_comm]
  · have hin : s.Locks proc.lockfd := (ht.locked_iff _).mpr (Or.inl ⟨hz, rfl⟩)
    rw [ho, if_pos ((h.owner _).mpr hin)]
    refine h.owner.drop hin fun d => ?_
    rw [ht.locks_iff, ht.locked_iff]
    constructor
    · rintro (⟨hsec, -⟩ | ⟨j, call1, proc1, hne, hj, hp, hz1, hd⟩)
      · exact absurd hsec hz'
      · refine ⟨fun he => ?_, Or.inr ⟨j, call1, proc1, hne, hj, hp, hz1, hd⟩⟩
        exact halone (by rw [hz]; exact nofun) j call1 proc1 hne hj hp hz1 (hd.trans he)
    · rintro ⟨hne, ⟨-, hd⟩ | hothers⟩
      · exact absurd hd.symm hne
      · exact Or.inr hothers

/-- A system call keeps the locks. -/
theorem SlogLocked.turn (h : SlogLocked s) (ht : SlogTurn s s' c call proc proc' ok point) :
    SlogLocked s' where
  mutex _ _ h1 := h.turn_mutex ht h1
  owner := h.turn_owner ht
  own p q proc1 proc2 h1 h2 hown1 hown2 hd := by
    obtain ⟨proc1', h1', hfd1, huse1⟩ := ht.sameProc h1
    obtain ⟨proc2', h2', hfd2, huse2⟩ := ht.sameProc h2
    exact h.own p q proc1' proc2' h1' h2' (huse1 ▸ hown1) (huse2 ▸ hown2)
      (hfd1.symm.trans (hd.trans hfd2))
  used j call1 hj hdone := by
    have hused : ∃ proc0, s.procs[call1.proc]? = some proc0 ∧ proc0.use = .own := by
      rw [ht.getCall] at hj
      split at hj
      · cases hj
        exact h.used c call ht.atCall ht.notDone
      · exact h.used j call1 hj hdone
    obtain ⟨proc0, h0, huse⟩ := hused
    obtain ⟨proc1, h1, -, huse1⟩ := ht.sameProc' h0
    exact ⟨proc1, h1, huse1.trans huse⟩
  fresh p proc1 h1 := by
    obtain ⟨proc0, h0, hfd, -⟩ := ht.sameProc h1
    rw [hfd, ht.nextLock]
    exact h.fresh p proc0 h0

end Turn

/-- The processes change and no call does: a process that uses the log keeps its lock file, and
only process `p` can have got one, which is new. -/
theorem SlogLocked.ofProcs (h : SlogLocked s) (p : Nat) (hcalls : s'.calls = s.calls)
    (howner : s'.owner = s.owner)
    (hmutex : ∀ (q : Nat) (proc' : SlogProcess), s'.procs[q]? = some proc' →
      (∃ proc, s.procs[q]? = some proc ∧ proc'.mutex = proc.mutex) ∨
        s.procs[q]? = none ∧ proc'.mutex = none)
    (hused : ∀ (q : Nat) (proc : SlogProcess), s.procs[q]? = some proc → proc.use = .own →
      ¬ s.Quiet q → ∃ proc', s'.procs[q]? = some proc' ∧ proc'.use = .own ∧
        proc'.lockfd = proc.lockfd)
    (hown : ∀ (q : Nat) (proc' : SlogProcess), s'.procs[q]? = some proc' →
      proc'.lockfd < s'.nextLock ∧ (proc'.use = .own → q = p ∧ proc'.lockfd = s.nextLock ∨
        ∃ proc, s.procs[q]? = some proc ∧ proc.use = .own ∧ proc.lockfd = proc'.lockfd)) :
    SlogLocked s' := by
  have hinside : ∀ q c, s'.Inside q c ↔ s.Inside q c := fun q c => by
    unfold SlogThreads.Inside
    rw [hcalls]
  have hsame : ∀ (c : Nat) (call : SlogThread), s.calls[c]? = some call → call.point ≠ .done →
      ∃ proc proc', s.procs[call.proc]? = some proc ∧ s'.procs[call.proc]? = some proc' ∧
        proc'.use = .own ∧ proc'.lockfd = proc.lockfd := by
    intro c call hc hdone
    obtain ⟨proc, hp, huse⟩ := h.used c call hc hdone
    obtain ⟨proc', hp', huse', hd⟩ := hused _ proc hp huse fun hquiet =>
      hdone (hquiet call (List.mem_of_getElem? hc) rfl)
    exact ⟨proc, proc', hp, hp', huse', hd⟩
  refine ⟨fun q proc' hq => ?_, ?_, fun q q' proc proc' hq hq' huse huse' hd => ?_,
    fun c call hc hdone => ?_, fun q proc' hq => (hown q proc' hq).1⟩
  · rcases hmutex q proc' hq with ⟨proc, hp, he⟩ | ⟨hnone, he⟩
    · rw [he]
      exact (h.mutex q proc hp).congr (hinside q)
    · rw [he]
      refine fun c => iff_of_false (fun hc => by cases hc) fun hin => ?_
      obtain ⟨call, hc, rfl, hz⟩ := (hinside q c).mp hin
      obtain ⟨proc, hp, -⟩ := h.used c call hc (zone_ne_done hz)
      rw [hp] at hnone
      cases hnone
  · rw [howner]
    refine h.owner.congr fun d => ⟨?_, ?_⟩
    · rintro ⟨c, call, proc', hc, hp', hz, hd⟩
      rw [hcalls] at hc
      obtain ⟨proc, proc1, hp, hp1, -, hd1⟩ :=
        hsame c call hc (zone_ne_done (by rw [hz]; exact nofun))
      obtain rfl := Option.some.inj (hp1.symm.trans hp')
      exact ⟨c, call, proc, hc, hp, hz, hd1.symm.trans hd⟩
    · rintro ⟨c, call, proc, hc, hp, hz, hd⟩
      obtain ⟨proc1, proc', hp1, hp', -, hd1⟩ :=
        hsame c call hc (zone_ne_done (by rw [hz]; exact nofun))
      obtain rfl := Option.some.inj (hp1.symm.trans hp)
      exact ⟨c, call, proc', hcalls.symm ▸ hc, hp', hz, hd1.trans hd⟩
  · rcases (hown q proc hq).2 huse with ⟨rfl, he⟩ | ⟨old, hold, hu, he⟩
    · rcases (hown q' proc' hq').2 huse' with ⟨rfl, -⟩ | ⟨old', hold', -, he'⟩
      · rfl
      · exact absurd (h.fresh q' old' hold') (by omega)
    · rcases (hown q' proc' hq').2 huse' with ⟨rfl, he'⟩ | ⟨old', hold', hu', he'⟩
      · exact absurd (h.fresh q old hold) (by omega)
      · exact h.own q q' old old' hold hold' hu hu' (by omega)
  · rw [hcalls] at hc
    obtain ⟨-, proc', -, hp', huse, -⟩ := hsame c call hc hdone
    exact ⟨proc', hp', huse⟩

theorem SlogLocked.push (h : SlogLocked s) {proc' : SlogProcess} (hcalls : s'.calls = s.calls)
    (howner : s'.owner = s.owner) (hnext : s.nextLock ≤ s'.nextLock)
    (hprocs : s'.procs = s.procs ++ [proc']) (hfree : proc'.mutex = none)
    (hlt : proc'.lockfd < s'.nextLock) (hown : proc'.use = .own → proc'.lockfd = s.nextLock) :
    SlogLocked s' := by
  refine h.ofProcs s.procs.length hcalls howner (fun q proc hq => ?_)
    (fun q proc hq huse _ => ⟨proc, ?_, huse, rfl⟩) fun q proc hq => ?_
  · rw [hprocs, get_push] at hq
    rcases hq with hq | ⟨rfl, rfl⟩
    · exact Or.inl ⟨proc, hq, rfl⟩
    · exact Or.inr ⟨List.getElem?_eq_none (Nat.le_refl _), hfree⟩
  · rw [hprocs, get_push]
    exact Or.inl hq
  · rw [hprocs, get_push] at hq
    rcases hq with hq | ⟨rfl, rfl⟩
    · exact ⟨Nat.lt_of_lt_of_le (h.fresh q proc hq) hnext,
        fun huse => Or.inr ⟨proc, hq, huse, rfl⟩⟩
    · exact ⟨hlt, fun huse => Or.inl ⟨rfl, hown huse⟩⟩

theorem SlogLocked.set (h : SlogLocked s) {p : Nat} {proc proc' : SlogProcess}
    (hp : s.procs[p]? = some proc) (hcalls : s'.calls = s.calls) (howner : s'.owner = s.owner)
    (hnext : s.nextLock ≤ s'.nextLock) (hprocs : s'.procs = s.procs.set p proc')
    (hmutex : proc'.mutex = proc.mutex)
    (hlock : proc'.lockfd = proc.lockfd ∧ (proc'.use = .own → proc.use = .own) ∧
        (s.Quiet p ∨ proc'.use = proc.use) ∨
      proc.use ≠ .own ∧ proc'.lockfd = s.nextLock ∧ s.nextLock < s'.nextLock) :
    SlogLocked s' := by
  have hget : ∀ q, s'.procs[q]? = if q = p then some proc' else s.procs[q]? := by
    intro q
    rw [hprocs, get_set hp]
  refine h.ofProcs p hcalls howner (fun q proc1 hq => ?_)
    (fun q proc1 hq huse hquiet => ?_) fun q proc1 hq => ?_
  · rw [hget] at hq
    split at hq
    · next he =>
      cases hq
      exact Or.inl ⟨proc, he ▸ hp, hmutex⟩
    · exact Or.inl ⟨proc1, hq, rfl⟩
  · rw [hget]
    split
    · next he =>
      subst he
      obtain rfl := Option.some.inj (hp.symm.trans hq)
      rcases hlock with ⟨hd, -, hq | hsame⟩ | ⟨hno, -⟩
      · exact absurd hq hquiet
      · exact ⟨proc', rfl, hsame.trans huse, hd⟩
      · exact absurd huse hno
    · exact ⟨proc1, hq, huse, rfl⟩
  · rw [hget] at hq
    split at hq
    · next he =>
      subst he
      cases hq
      have hlt := h.fresh q proc hp
      rcases hlock with ⟨hd, hown, -⟩ | ⟨-, hd, hlt'⟩
      · exact ⟨by omega, fun huse => Or.inr ⟨proc, hp, hown huse, hd.symm⟩⟩
      · exact ⟨by omega, fun _ => Or.inl ⟨rfl, hd⟩⟩
    · exact ⟨Nat.lt_of_lt_of_le (h.fresh q proc1 hq) hnext,
        fun huse => Or.inr ⟨proc1, hq, huse, rfl⟩⟩

theorem SlogLocked.call (h : SlogLocked s) {call : SlogThread} {proc : SlogProcess}
    (hp : s.procs[call.proc]? = some proc) (huse : proc.use = .own)
    (hpoint : call.point = .mutexLock) : SlogLocked { s with calls := s.calls ++ [call] } := by
  have hz : call.point.zone = .outside := by rw [hpoint]; rfl
  refine ⟨fun p proc1 h1 => (h.mutex p proc1 h1).congr fun c => ⟨?_, ?_⟩,
    h.owner.congr fun d => ⟨?_, ?_⟩, h.own, fun c call1 hc hdone => ?_, h.fresh⟩
  · rintro ⟨call1, hc, he, hz1⟩
    rcases get_push.mp hc with hc | ⟨-, rfl⟩
    · exact ⟨call1, hc, he, hz1⟩
    · exact absurd hz hz1
  · rintro ⟨call1, hc, he, hz1⟩
    exact ⟨call1, get_push.mpr (Or.inl hc), he, hz1⟩
  · rintro ⟨c, call1, proc1, hc, hp1, hz1, hd⟩
    rcases get_push.mp hc with hc | ⟨-, rfl⟩
    · exact ⟨c, call1, proc1, hc, hp1, hz1, hd⟩
    · rw [hz] at hz1
      cases hz1
  · rintro ⟨c, call1, proc1, hc, hp1, hz1, hd⟩
    exact ⟨c, call1, proc1, get_push.mpr (Or.inl hc), hp1, hz1, hd⟩
  · rcases get_push.mp hc with hc | ⟨-, rfl⟩
    · exact h.used c call1 hc hdone
    · exact ⟨proc, hp, huse⟩

theorem SlogLocked.step {e : SlogThreadEvent} (h : SlogLocked s) (hok : SlogAllowed s e)
    (hstep : slogThreadStep filename s e = some (s', x)) : SlogLocked s' := by
  cases slogThreadStep_acts hstep with
  | «open» => exact h.push rfl rfl (Nat.le_succ _) rfl rfl (Nat.lt_succ_self _) fun _ => rfl
  | @fork p proc hp hfree =>
    exact h.push rfl rfl (Nat.le_refl _) rfl hfree (h.fresh p proc hp) (fun he => by cases he)
  | reopenFails | quiet => exact h
  | @reopen p proc hp =>
    have huse : proc.use ≠ .own := by
      rw [hok proc hp]
      exact nofun
    exact h.set hp rfl rfl (Nat.le_succ _) rfl rfl (Or.inr ⟨huse, rfl, Nat.lt_succ_self _⟩)
  | close hp =>
    exact h.set hp rfl rfl (Nat.le_refl _) rfl rfl
      (Or.inl ⟨rfl, (fun he => by cases he), Or.inl hok.2⟩)
  | write hp | rotate hp => exact h.call hp (hok _ hp) rfl
  | changeLevel hp =>
    exact h.set hp rfl rfl (Nat.le_refl _) rfl rfl (Or.inl ⟨rfl, id, Or.inr rfl⟩)
  | proceed hcall hproc hdoes => exact h.turn (hdoes.turn hcall hproc)

theorem slogLocked_start (dir : SlogDir) : SlogLocked (slogThreadsStart dir) :=
  ⟨(fun _ _ h => by cases h),
    fun _ => iff_of_false (fun h => by cases h) (fun ⟨_, _, _, h, _⟩ => by cases h),
    (fun _ _ _ _ h => by cases h), (fun _ _ h => by cases h), fun _ _ h => by cases h⟩

theorem slogLocked_run {dir : SlogDir} {es : List SlogThreadEvent} {xs : List SlogEffect}
    (hes : Along (slogThreadStep filename) SlogAllowed (slogThreadsStart dir) es)
    (hrun : run (slogThreadStep filename) (slogThreadsStart dir) es = some (s, xs)) :
    SlogLocked s :=
  run_keeps SlogLocked (fun _ _ _ _ h hok hstep => h.step hok hstep) (slogLocked_start dir) hes hrun

theorem slogSyscall_ready {call : SlogThread} {proc : SlogProcess} (hcall : s.calls[c]? = some call)
    (hproc : s.procs[call.proc]? = some proc) (hdone : call.point ≠ .done)
    (hmutex : call.point = .mutexLock → proc.mutex = none)
    (hflock : call.point = .flockEx → s.owner = none) :
    ∃ y, slogSyscall filename s c true = some y := by
  unfold slogSyscall
  simp only [hcall, hproc, Option.bind_eq_bind, Option.bind_some]
  cases hpoint : call.point with
  | mutexLock => exact ⟨_, if_pos (hmutex hpoint)⟩
  | flockEx => exact ⟨_, if_pos (Or.inl (hflock hpoint))⟩
  | writev =>
    dsimp only
    split <;> exact ⟨_, rfl⟩
  | done => exact absurd hpoint hdone
  | stat => exact ⟨_, rfl⟩
  | reopen r after => exact ⟨_, rfl⟩
  | rename => exact ⟨_, rfl⟩
  | flockUn => exact ⟨_, rfl⟩
  | mutexUnlock => exact ⟨_, rfl⟩

/-- While a call has not returned, one can go on. -/
theorem SlogLocked.goes_on (h : SlogLocked s)
    (hsome : ∃ call ∈ s.calls, call.point ≠ .done) :
    ∃ c y, slogSyscall filename s c true = some y := by
  obtain ⟨call, hmem, hdone⟩ := hsome
  obtain ⟨c, hc⟩ := List.mem_iff_getElem?.mp hmem
  obtain ⟨proc, hp, -⟩ := h.used c call hc hdone
  -- who is in the section goes on, and if nobody is the flock is free
  cases howner : s.owner with
  | some d =>
    obtain ⟨c1, call1, proc1, hc1, hp1, hz1, -⟩ := (h.owner d).mp howner
    have hne : ∀ point, call1.point = point → point.zone = .section := fun point he => he ▸ hz1
    exact ⟨c1, slogSyscall_ready hc1 hp1 (fun he => by cases hne _ he)
      (fun he => by cases hne _ he) fun he => by cases hne _ he⟩
  | none =>
    cases hmutex : proc.mutex with
    | none => exact ⟨c, slogSyscall_ready hc hp hdone (fun _ => hmutex) fun _ => howner⟩
    | some c1 =>
      -- who has the mutex waits for the flock at most
      obtain ⟨call1, hc1, hp1, hz1⟩ := (h.mutex _ proc hp c1).mp hmutex
      rw [← hp1] at hp
      refine ⟨c1, slogSyscall_ready hc1 hp (zone_ne_done hz1) (fun he => ?_) fun _ => howner⟩
      rw [he] at hz1
      exact absurd rfl hz1

/-- The steps that call `c` has left, at most; none if there is no such call. -/
def SlogThreads.left (s : SlogThreads) (c : Nat) : Nat :=
  s.calls[c]?.elim 0 fun call => call.point.left

theorem slogSyscall_left (h : slogSyscall filename s c true = some (s', x)) (j : Nat) :
    s'.left j + (if j = c then 1 else 0) ≤ s.left j := by
  obtain ⟨call, proc, proc', point, hturn⟩ := slogSyscall_turn h
  rw [SlogThreads.left, SlogThreads.left, hturn.getCall]
  split
  · next hj =>
    rw [hj, hturn.atCall]
    exact hturn.left rfl
  · exact Nat.le_refl _

theorem slogPoint_left_le (point : SlogPoint) : point.left ≤ 13 := by
  cases point with
  | reopen r after => cases r <;> cases after <;> simp [SlogPoint.left]
  | _ => simp [SlogPoint.left]

theorem slogThreads_left_le (s : SlogThreads) (c : Nat) : s.left c ≤ 13 := by
  rw [SlogThreads.left]
  cases s.calls[c]? with
  | none => exact Nat.zero_le 13
  | some call => exact slogPoint_left_le call.point

theorem SlogThreads.left_pos (h : 0 < s.left c) :
    ∃ call, s.calls[c]? = some call ∧ call.point ≠ .done := by
  rw [SlogThreads.left] at h
  cases hc : s.calls[c]? with
  | none =>
    rw [hc] at h
    exact absurd h (Nat.lt_irrefl 0)
  | some call =>
    rw [hc] at h
    refine ⟨call, rfl, fun hdone => ?_⟩
    dsimp only [Option.elim_some] at h
    rw [hdone] at h
    exact absurd h (Nat.lt_irrefl 0)

/-- Of the steps that succeed each call makes as many as it has left, at most. -/
theorem slogSyscalls_left {es : List SlogThreadEvent} {xs : List SlogEffect}
    (hes : ∀ e ∈ es, ∃ c, e = .proceed c true)
    (hrun : run (slogThreadStep filename) s es = some (s', xs)) (j : Nat) :
    es.count (.proceed j true) + s'.left j ≤ s.left j := by
  induction es generalizing s xs with
  | nil =>
    obtain ⟨rfl, -⟩ := Prod.mk.inj (Option.some.inj hrun)
    exact Nat.le_of_eq (Nat.zero_add _)
  | cons e es ih =>
    obtain ⟨c, rfl⟩ := hes e List.mem_cons_self
    obtain ⟨s1, x, xs1, he, hz, rfl⟩ := run_cons_some hrun
    have hrest := ih (fun e' he' => hes e' (List.mem_cons_of_mem _ he')) hz
    have hless := slogSyscall_left he j
    rw [List.count_cons]
    by_cases hj : j = c
    · rw [if_pos hj] at hless
      rw [hj, if_pos (beq_self_eq_true _), ← hj]
      omega
    · rw [if_neg hj] at hless
      rw [if_neg fun hsame => hj (by simpa using Eq.symm (eq_of_beq hsame))]
      omega

/-- Of the processes and threads that use a log as they are to, one at a time is between the
flock and its end. Whatever the locks have made of them, and in whatever order the calls under way
go on from there, each of them returns after 13 steps of its own, at most, that succeed: until all
have returned, there is one that can make a step. -/
theorem slog_locks_exclude (filename : List UInt8) (dir : SlogDir) {es : List SlogThreadEvent}
    {s : SlogThreads} {xs : List SlogEffect}
    (hes : Along (slogThreadStep filename) SlogAllowed (slogThreadsStart dir) es)
    (hrun : run (slogThreadStep filename) (slogThreadsStart dir) es = some (s, xs)) :
    (∀ c c', s.InSection c → s.InSection c' → c = c') ∧
    ∀ (es' : List SlogThreadEvent) (s' : SlogThreads) (xs' : List SlogEffect),
      (∀ e ∈ es', ∃ c, e = .proceed c true) →
      run (slogThreadStep filename) s es' = some (s', xs') →
        (∀ c, es'.count (.proceed c true) ≤ 13 ∧ (.proceed c true ∈ es' →
          ∃ call, s.calls[c]? = some call ∧ call.point ≠ .done)) ∧
        ((∀ call ∈ s'.calls, call.point = .done) ∨
          ∃ c y, slogThreadStep filename s' (.proceed c true) = some y) := by
  have hlocked := slogLocked_run hes hrun
  refine ⟨fun c c' => hlocked.in_section, fun es' s' xs' hes' hrun' => ⟨fun c => ?_, ?_⟩⟩
  · have hcount := slogSyscalls_left hes' hrun' c
    have hle := slogThreads_left_le s c
    refine ⟨by omega, fun hmem => SlogThreads.left_pos ?_⟩
    have hpos := List.count_pos_iff.mpr hmem
    omega
  · have hlocked' := run_keeps SlogLocked (fun _ _ _ _ h hok hstep => h.step hok hstep) hlocked
      (Along.of_all fun s e he => by obtain ⟨c, rfl⟩ := hes' e he; trivial) hrun'
    by_cases hsome : ∃ call ∈ s'.calls, call.point ≠ .done
    · exact Or.inr (hlocked'.goes_on hsome)
    · exact Or.inl fun call hcall => by_contra fun hdone => hsome ⟨call, hcall, hdone⟩

/-- A process and its child write at once. -/
def slogThreadsSample : List SlogThreadEvent :=
  let t : SlogTime := ⟨114, 5, 3, 15, 2, 52, 1⟩
  let m : SlogMessage := ⟨.info, 7, [97, 46, 99], 1, [102], [98]⟩
  [.open .info 1, .fork 0, .reopen 1 true, .write 0 m t, .write 1 m t, .proceed 0 true,
    .proceed 1 true, .proceed 0 true, .proceed 1 false, .proceed 0 true]

/-- What the two have left: the child finds that the log has grown, and renames it. -/
def slogThreadsRest : List SlogThreadEvent :=
  [.proceed 0 true, .proceed 1 true, .proceed 0 true, .proceed 0 true] ++
    List.replicate 8 (.proceed 1 true)

theorem slog_locks_exclude_sample :
    ∃ s xs s' xs', run (slogThreadStep [108]) (slogThreadsStart Directory.empty)
        slogThreadsSample = some (s, xs) ∧
      run (slogThreadStep [108]) s slogThreadsRest = some (s', xs') ∧
      (∀ c c', s.InSection c → s.InSection c' → c = c') ∧
      (∀ c, slogThreadsRest.count (.proceed c true) ≤ 13 ∧ (.proceed c true ∈ slogThreadsRest →
        ∃ call, s.calls[c]? = some call ∧ call.point ≠ .done)) ∧
      ∀ call ∈ s'.calls, call.point = .done := by
  obtain ⟨⟨s', xs'⟩, hboth, hdone⟩ := Option.map_eq_some_iff.mp
    (by decide +kernel : (((run (slogThreadStep [108]) (slogThreadsStart Directory.empty)
      slogThreadsSample).bind fun x => run (slogThreadStep [108]) x.1 slogThreadsRest).map
        fun x => decide (∀ call ∈ x.1.calls, call.point = .done)) = some true)
  obtain ⟨⟨s, xs⟩, hrun, hrest⟩ := Option.bind_eq_some_iff.mp hboth
  have hall := slog_locks_exclude [108] Directory.empty (by decide +kernel) hrun
  have hthen := hall.2 slogThreadsRest s' xs' (by simp [slogThreadsRest]) hrest
  exact ⟨s, xs, s', xs', hrun, hrest, hall.1, hthen.1, of_decide_eq_true hdone⟩

end SimpleKit
