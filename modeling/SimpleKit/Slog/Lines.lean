import SimpleKit.Slog.Sections

set_option autoImplicit false

namespace SimpleKit
open Runs Guard Directory

def SlogThread.opened (call : SlogThread) : Option Nat :=
  match call.point with
  | .reopen (.dup2 i) _ => some i
  | _ => none

def SlogThreads.opened (s : SlogThreads) : List Nat :=
  s.procs.map (fun proc => proc.log.fd) ++ s.calls.filterMap SlogThread.opened

/-- A process for each descriptor, of which only the file matters. -/
def SlogThreads.coarse (s : SlogThreads) : SlogSystem :=
  ⟨s.dir, s.opened.map fun i => ⟨i, i, 0, .fatal⟩, []⟩

variable {filename : List UInt8} {s s' : SlogThreads} {x : SlogEffect} {c : Nat} {ok : Bool}

theorem SlogThreads.mem_opened {i : Nat} : i ∈ s.opened ↔
    (∃ proc ∈ s.procs, proc.log.fd = i) ∨ ∃ call ∈ s.calls, call.opened = some i := by
  rw [opened, List.mem_append, List.mem_map, List.mem_filterMap]

theorem slogMoves_coarse (hdir : s.dir.Moves s'.dir x.replaced)
    (hfds : ∀ i ∈ s'.opened, s'.dir.Named i ∨ i ∈ s.opened)
    (hwrote : ∀ w ∈ x.wrote, w.1 ∈ s.opened ∧ s'.dir.files w.1 = s.dir.files w.1 ++ [w.2]) :
    SlogMoves s.coarse s'.coarse x := by
  refine ⟨hdir, fun logger hl => ?_, fun w hw => ⟨?_, (hwrote w hw).2⟩⟩
  · obtain ⟨i, hi, rfl⟩ := List.mem_map.mp hl
    exact (hfds i hi).imp_right fun hold => ⟨_, List.mem_map.mpr ⟨i, hold, rfl⟩, rfl⟩
  · exact ⟨_, List.mem_map.mpr ⟨w.1, (hwrote w hw).1, rfl⟩, rfl⟩

section Turn
variable {call : SlogThread} {proc proc' : SlogProcess} {dir : SlogDir} {owner : Option Nat}
  {point : SlogPoint}

theorem SlogTurn.coarse (ht : SlogTurn s s' c call proc proc' ok point)
    (hdir : s.dir.Moves s'.dir x.replaced)
    (hfd : proc'.log.fd = proc.log.fd ∨ call.opened = some proc'.log.fd)
    (hopened : ∀ i, ({ call with point := point } : SlogThread).opened = some i →
      s'.dir.Named i ∨ call.opened = some i)
    (hwrote : ∀ w ∈ x.wrote, w.1 = proc.log.fd ∧
      s'.dir.files w.1 = s.dir.files w.1 ++ [w.2]) : SlogMoves s.coarse s'.coarse x := by
  have hproc : proc.log.fd ∈ s.opened :=
    SlogThreads.mem_opened.mpr (Or.inl ⟨proc, List.mem_of_getElem? ht.atProc, rfl⟩)
  have hcall : ∀ i, call.opened = some i → i ∈ s.opened := fun i hi =>
    SlogThreads.mem_opened.mpr (Or.inr ⟨call, List.mem_of_getElem? ht.atCall, hi⟩)
  refine slogMoves_coarse hdir (fun i hi => ?_) fun w hw => ⟨?_, (hwrote w hw).2⟩
  · rcases SlogThreads.mem_opened.mp hi with ⟨proc1, h1, rfl⟩ | ⟨call1, h1, hi⟩
    · rw [ht.procs] at h1
      rcases List.mem_or_eq_of_mem_set h1 with h1 | rfl
      · exact Or.inr (SlogThreads.mem_opened.mpr (Or.inl ⟨proc1, h1, rfl⟩))
      · exact Or.inr (hfd.elim (fun he => he ▸ hproc) (hcall _))
    · rw [ht.calls] at h1
      rcases List.mem_or_eq_of_mem_set h1 with h1 | rfl
      · exact Or.inr (SlogThreads.mem_opened.mpr (Or.inr ⟨call1, h1, hi⟩))
      · exact (hopened i hi).imp_right (hcall i)
  · rw [(hwrote w hw).1]
    exact hproc

theorem SlogThread.opened_eq {i : Nat} (h : call.opened = some i) :
    ∃ after, call.point = .reopen (.dup2 i) after := by
  unfold SlogThread.opened at h
  split at h
  · next j after hpoint =>
    cases h
    exact ⟨after, hpoint⟩
  · cases h

theorem SlogStat.next_ne (st : SlogStat) (rotateSize : Nat) {r : SlogReopen}
    {after : Option SlogStat} : st.next rotateSize ≠ .reopen r after := by
  cases st with
  | file ino size =>
    rw [SlogStat.next]
    split <;> exact fun he => by cases he
  | missing => exact fun he => by cases he
  | failed => exact fun he => by cases he

theorem slogReopened_ne (st : Option SlogStat) (rotateSize : Nat) {r : SlogReopen}
    {after : Option SlogStat} : slogReopened st rotateSize ≠ .reopen r after := by
  cases st with
  | none => exact nofun
  | some st => exact st.next_ne rotateSize

theorem SlogDoes.moves (h : SlogDoes filename s c call proc ok dir owner proc' point x)
    (hcall : s.calls[c]? = some call) (hproc : s.procs[call.proc]? = some proc) :
    SlogMoves s.coarse (s.advance c call dir owner proc' point).coarse x := by
  have ht := h.turn hcall hproc
  have hnone : (∀ i after, point ≠ .reopen (.dup2 i) after) → ∀ i,
      ({ call with point := point } : SlogThread).opened = some i →
        dir.Named i ∨ call.opened = some i := by
    intro hpt i hi
    obtain ⟨after, he⟩ := SlogThread.opened_eq hi
    exact absurd he (hpt i after)
  -- most calls change neither the directory nor a descriptor
  have hsame : dir = s.dir → x = ⟨none, none⟩ → proc'.log.fd = proc.log.fd →
      (∀ i after, point ≠ .reopen (.dup2 i) after) →
        SlogMoves s.coarse (s.advance c call dir owner proc' point).coarse x := by
    rintro rfl rfl hfd hpt
    exact ht.coarse (Moves.refl _) (Or.inl hfd) (hnone hpt) fun _ hw => by cases hw
  cases h with
  | mutexLock => exact hsame rfl rfl rfl nofun
  | flockEx =>
    refine hsame rfl rfl rfl ?_
    split <;> exact nofun
  | again hpoint =>
    refine hsame rfl rfl rfl ?_
    rcases hpoint with hpoint | hpoint <;> rw [hpoint] <;> exact nofun
  | stat =>
    refine hsame rfl rfl rfl ?_
    split
    · exact nofun
    · exact fun _ _ => SlogStat.next_ne _ _
  | reopenFails => exact hsame rfl rfl rfl fun _ _ => slogReopened_ne _ _
  | reopen =>
    refine ht.coarse (openCreate_moves s.dir filename) (Or.inl rfl) (fun i hi => Or.inl ?_)
      fun _ hw => by cases hw
    obtain rfl := Option.some.inj hi
    exact openCreate_named s.dir filename
  | dup2 hpoint =>
    exact ht.coarse (Moves.refl _) (Or.inr (by rw [SlogThread.opened, hpoint])) (hnone nofun)
      fun _ hw => by cases hw
  | fstat => exact hsame rfl rfl rfl fun _ _ => slogReopened_ne _ _
  | renameFails => exact hsame rfl rfl rfl nofun
  | rename =>
    exact ht.coarse (rename_moves s.dir _ _) (Or.inl rfl) (hnone nofun) fun _ hw => by cases hw
  | flockUn => exact hsame rfl rfl rfl nofun
  | mutexUnlock =>
    refine hsame rfl rfl rfl ?_
    split <;> exact nofun
  | silent => exact hsame rfl rfl rfl nofun
  | @writev _ line =>
    refine ht.coarse (append_moves s.dir _ line) (Or.inl rfl) (hnone nofun) fun w hw => ?_
    obtain rfl := Option.mem_some_iff.mp hw
    exact ⟨rfl, (append_files s.dir _ _ line).trans (by rw [if_pos rfl])⟩

end Turn

/-- A step of a thread is one of the coarser model. -/
theorem slogThreadStep_moves {e : SlogThreadEvent}
    (hstep : slogThreadStep filename s e = some (s', x)) : SlogMoves s.coarse s'.coarse x := by
  have hframe : s.dir.Moves s'.dir none → x = ⟨none, none⟩ →
      (∀ proc ∈ s'.procs, s'.dir.Named proc.log.fd ∨
        ∃ old ∈ s.procs, old.log.fd = proc.log.fd) →
      (∀ call ∈ s'.calls, call ∈ s.calls ∨ call.opened = none) →
        SlogMoves s.coarse s'.coarse x := by
    rintro hdir rfl hprocs hcalls
    refine slogMoves_coarse hdir (fun i hi => ?_) fun _ hw => by cases hw
    rw [SlogThreads.mem_opened]
    rcases SlogThreads.mem_opened.mp hi with ⟨proc, hp, rfl⟩ | ⟨call, hc, hi⟩
    · exact (hprocs proc hp).imp_right Or.inl
    · rcases hcalls call hc with hc | hnone
      · exact Or.inr (Or.inr ⟨call, hc, hi⟩)
      · rw [hnone] at hi
        cases hi
  have hkept : ∀ proc ∈ s.procs, s'.dir.Named proc.log.fd ∨
      ∃ old ∈ s.procs, old.log.fd = proc.log.fd := fun proc hp => Or.inr ⟨proc, hp, rfl⟩
  have hset : ∀ {p : Nat} {proc proc' : SlogProcess}, s.procs[p]? = some proc →
      proc'.log.fd = proc.log.fd → ∀ proc1 ∈ s.procs.set p proc', s'.dir.Named proc1.log.fd ∨
        ∃ old ∈ s.procs, old.log.fd = proc1.log.fd := by
    intro p proc proc' hp hfd proc1 h1
    rcases List.mem_or_eq_of_mem_set h1 with h1 | rfl
    · exact hkept proc1 h1
    · exact Or.inr ⟨proc, List.mem_of_getElem? hp, hfd.symm⟩
  have hpush : ∀ {proc' : SlogProcess}, (s'.dir.Named proc'.log.fd ∨
      ∃ old ∈ s.procs, old.log.fd = proc'.log.fd) → ∀ proc1 ∈ s.procs ++ [proc'],
        s'.dir.Named proc1.log.fd ∨ ∃ old ∈ s.procs, old.log.fd = proc1.log.fd := by
    intro proc' hnew proc1 h1
    rcases List.mem_append.mp h1 with h1 | h1
    · exact hkept proc1 h1
    · exact List.mem_singleton.mp h1 ▸ hnew
  have hcall : ∀ {call : SlogThread}, call.point = .mutexLock → ∀ call1 ∈ s.calls ++ [call],
      call1 ∈ s.calls ∨ call1.opened = none := by
    intro call hpt call1 h1
    refine (List.mem_append.mp h1).imp_right fun h1 => ?_
    rw [List.mem_singleton.mp h1, SlogThread.opened, hpt]
  cases slogThreadStep_acts hstep with
  | «open» =>
    exact hframe (openCreate_moves s.dir filename) rfl
      (hpush (Or.inl (openCreate_named s.dir filename))) fun _ hc => Or.inl hc
  | fork hp _ =>
    exact hframe (Moves.refl _) rfl (hpush (Or.inr ⟨_, List.mem_of_getElem? hp, rfl⟩))
      fun _ hc => Or.inl hc
  | reopenFails | quiet => exact hframe (Moves.refl _) rfl hkept fun _ hc => Or.inl hc
  | reopen hp | close hp | changeLevel hp =>
    exact hframe (Moves.refl _) rfl (hset hp rfl) fun _ hc => Or.inl hc
  | write | rotate => exact hframe (Moves.refl _) rfl hkept (hcall rfl)
  | proceed hcall hproc hdoes => exact hdoes.moves hcall hproc

section Runs
variable {dir : SlogDir} {es : List SlogThreadEvent} {xs : List SlogEffect}

theorem slogInv_threads
    (hrun : run (slogThreadStep filename) (slogThreadsStart dir) es = some (s, xs)) :
    SlogInv s.coarse xs := by
  have hstart : SlogInv (slogThreadsStart dir).coarse [] :=
    ⟨fun _ h => absurd h List.not_mem_nil, fun i h => absurd (rfl : linesOf i [] = []) h⟩
  have hinv := run_collects (fun (s : SlogThreads) xs => SlogInv s.coarse xs) (fun x => [x])
    (fun _ _ _ _ _ hinv _ hstep => hinv.step (slogThreadStep_moves hstep)) hstart
    (Along.of_all fun _ _ _ => trivial) hrun
  rwa [List.nil_append, List.flatMap_singleton'] at hinv

theorem slogGone_threads (hdir : dir.Single)
    (hrun : run (slogThreadStep filename) (slogThreadsStart dir) es = some (s, xs)) :
    SlogGone s.coarse xs := by
  have hstart : SlogGone (slogThreadsStart dir).coarse [] :=
    ⟨hdir, fun _ h => absurd h List.not_mem_nil⟩
  have hgone := run_collects (fun (s : SlogThreads) xs => SlogGone s.coarse xs) (fun x => [x])
    (fun _ _ _ _ _ hgone _ hstep => hgone.step (slogThreadStep_moves hstep)) hstart
    (Along.of_all fun _ _ _ => trivial) hrun
  rwa [List.nil_append, List.flatMap_singleton'] at hgone

/-- However the system calls of threads and processes interleave, and if some of them fail, a
line is lost only with the archive that it is in, and that only by a rename to its name. -/
theorem slog_syscalls_keep (filename : List UInt8) (dir : SlogDir) {es : List SlogThreadEvent}
    {s : SlogThreads} {xs : List SlogEffect} (hdir : dir.Single)
    (hrun : run (slogThreadStep filename) (slogThreadsStart dir) es = some (s, xs)) :
    LinesKept s.dir xs ↔ ∀ x ∈ xs, ∀ i, x.replaced = some i → linesOf i xs = [] := by
  constructor
  · intro hkept x hx i hi
    by_contra hne
    exact ((slogGone_threads hdir hrun).2 x hx i hi).2 (hkept i hne).1
  · intro hempty i hne
    obtain ⟨hkept, hsub⟩ := (slogInv_threads hrun).lines i hne
    refine ⟨hkept.2.elim id ?_, hsub⟩
    rintro ⟨x, hx, hi⟩
    exact absurd (hempty x hx i hi) hne

/-- A child writes while its parent rotates: its first flock is interrupted, and it cannot open
the new log, so it looks at the size and rotates too. -/
def slogLinesSample (usec : Nat) : List SlogThreadEvent :=
  [.open .info 1, .fork 0, .reopen 1 true, .write 0 slogSampleMessage (slogSampleTime 0)] ++
    List.replicate 6 (.proceed 0 true) ++
    [.write 0 slogSampleMessage (slogSampleTime 1), .write 1 slogSampleMessage (slogSampleTime usec),
      .proceed 1 true, .proceed 2 true, .proceed 1 true, .proceed 2 false] ++
    List.replicate 6 (.proceed 1 true) ++
    [.proceed 2 true, .proceed 1 true, .proceed 1 true, .proceed 2 true, .proceed 2 false] ++
    List.replicate 7 (.proceed 2 true)

/-- The child's archive has a name of its own, or that of its parent's. -/
theorem slog_syscalls_keep_sample :
    (∃ s xs, run (slogThreadStep [108]) (slogThreadsStart empty) (slogLinesSample 2) =
      some (s, xs) ∧ LinesKept s.dir xs) ∧
    ∃ s xs, run (slogThreadStep [108]) (slogThreadsStart empty) (slogLinesSample 1) =
      some (s, xs) ∧ ¬ LinesKept s.dir xs := by
  have hdir : (empty : SlogDir).Single := fun _ _ _ h => by cases h
  have hspared : (run (slogThreadStep [108]) (slogThreadsStart empty) (slogLinesSample 2)).map
      (fun y => y.2.map SlogEffect.replaced) = some (List.replicate 34 none) := by decide +kernel
  have hlost : (run (slogThreadStep [108]) (slogThreadsStart empty) (slogLinesSample 1)).map
      (fun y => (y.2.filterMap SlogEffect.replaced, (linesOf 0 y.2).length)) =
        some ([0], 1) := by decide +kernel
  obtain ⟨⟨s, xs⟩, hrun, hnone⟩ := Option.map_eq_some_iff.mp hspared
  obtain ⟨⟨s', xs'⟩, hrun', hsome⟩ := Option.map_eq_some_iff.mp hlost
  refine ⟨⟨s, xs, hrun, (slog_syscalls_keep [108] empty hdir hrun).mpr fun x hx i hi => ?_⟩,
    s', xs', hrun', fun hkept => ?_⟩
  · have hmem := List.mem_map_of_mem (f := SlogEffect.replaced) hx
    rw [hnone, hi] at hmem
    cases List.eq_of_mem_replicate hmem
  · obtain ⟨hreplaced, hlines⟩ := Prod.mk.inj hsome
    have hmem : 0 ∈ xs'.filterMap SlogEffect.replaced := by
      rw [hreplaced]
      exact List.mem_singleton_self 0
    obtain ⟨x, hx, hi⟩ := List.mem_filterMap.mp hmem
    rw [(slog_syscalls_keep [108] empty hdir hrun').mp hkept x hx 0 hi] at hlines
    cases hlines

end Runs

end SimpleKit
