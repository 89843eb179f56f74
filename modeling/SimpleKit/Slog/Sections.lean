import SimpleKit.Slog.Exclusion
import SimpleKit.Slog.Rotate

set_option autoImplicit false

namespace SimpleKit
open Runs Guard Directory

/-- What stat has told is still true: the file has the name, and has only grown. -/
def SlogStat.Holds (filename : List UInt8) (dir : SlogDir) (st : SlogStat) : Prop :=
  ∀ ino size, st = .file ino size → dir.names filename = some ino ∧ size ≤ fileSize dir ino

/-- What a call has found out when it is at a point; that the descriptor is the log's at the end
only if its system calls were `fine`. -/
def SlogPoint.Knows (fine : Prop) (filename : List UInt8) (dir : SlogDir) (log : Slog)
    (message : Option SlogMessage) : SlogPoint → Prop
  | .reopen .open after => ∀ st ∈ after, st.Holds filename dir
  | .reopen (.dup2 i) after => dir.names filename = some i ∧ ∀ st ∈ after, st.Holds filename dir
  | .reopen .fstat after =>
    dir.names filename = some log.fd ∧ ∀ st ∈ after, st.Holds filename dir
  | .rename => message.isSome → ∃ i, dir.names filename = some i ∧ log.rotateSize ≤ fileSize dir i
  | .flockUn => fine → dir.names filename = some log.fd
  | .mutexLock | .flockEx | .stat | .mutexUnlock | .writev | .done => True

structure LogGrows (filename : List UInt8) (dir dir' : SlogDir) : Prop where
  names : ∀ i, dir.names filename = some i → dir'.names filename = some i
  size : ∀ i, dir.names filename = some i → fileSize dir i ≤ fileSize dir' i

structure SlogKnown (fine : Prop) (filename : List UInt8) (s : SlogThreads) : Prop where
  points : ∀ (c : Nat) (call : SlogThread) (proc : SlogProcess), s.calls[c]? = some call →
    s.procs[call.proc]? = some proc →
      call.point.Knows fine filename s.dir proc.log call.message
  stated : ∀ (p : Nat) (proc : SlogProcess), s.procs[p]? = some proc →
    proc.log.fd = proc.log.fdstat ∨ ∃ (c : Nat) (call : SlogThread) (after : Option SlogStat),
      s.calls[c]? = some call ∧ call.proc = p ∧ call.point = .reopen .fstat after

variable {filename : List UInt8} {fine : Prop} {dir dir' : SlogDir} {log log' : Slog}
  {message : Option SlogMessage} {s s' : SlogThreads} {x : SlogEffect} {c : Nat} {ok : Bool}

theorem LogGrows.refl : LogGrows filename dir dir := ⟨fun _ h => h, fun _ _ => Nat.le_refl _⟩

theorem LogGrows.ofMoves {r : Option Nat} (hnames : ∀ i, dir.names filename = some i →
    dir'.names filename = some i) (h : dir.Moves dir' r) : LogGrows filename dir dir' := by
  refine ⟨hnames, fun i hi => ?_⟩
  obtain ⟨l, hl⟩ := h.files i (dir.bound _ _ hi)
  rw [fileSize, fileSize, ← hl, List.flatten_append, List.length_append]
  exact Nat.le_add_right _ _

theorem logGrows_append (i : Nat) (line : List UInt8) :
    LogGrows filename dir (dir.append i line) :=
  .ofMoves (fun _ h => h) (append_moves dir i line)

theorem logGrows_openCreate : LogGrows filename dir (dir.openCreate filename).1 :=
  .ofMoves (fun i h => by rw [openCreate_of_bound h]; exact h) (openCreate_moves dir filename)

theorem openCreate_names : (dir.openCreate filename).1.names filename =
    some (dir.openCreate filename).2 := by
  rw [openCreate]
  split
  · next i hi => exact hi
  · exact Function.update_self ..

theorem SlogStat.Holds.grows {st : SlogStat} (h : st.Holds filename dir)
    (hgrows : LogGrows filename dir dir') : st.Holds filename dir' := fun ino size he => by
  obtain ⟨hname, hsize⟩ := h ino size he
  exact ⟨hgrows.names ino hname, Nat.le_trans hsize (hgrows.size ino hname)⟩

theorem SlogPoint.knows_of_zone {point : SlogPoint} (h : point.zone ≠ .section) :
    point.Knows fine filename dir log message := by
  cases point with
  | stat | reopen | rename | flockUn => exact absurd rfl h
  | _ => trivial

theorem SlogPoint.Knows.grows {point : SlogPoint}
    (h : point.Knows fine filename dir log message) (hgrows : LogGrows filename dir dir')
    (hfd : log'.fd = log.fd) (hsize : log'.rotateSize = log.rotateSize) :
    point.Knows fine filename dir' log' message := by
  have hstat : ∀ {after : Option SlogStat}, (∀ st ∈ after, st.Holds filename dir) →
      ∀ st ∈ after, st.Holds filename dir' := fun hall st hst => (hall st hst).grows hgrows
  cases point with
  | reopen r after =>
    cases r with
    | «open» => exact hstat h
    | dup2 i => exact ⟨hgrows.names i h.1, hstat h.2⟩
    | fstat => exact ⟨by rw [hfd]; exact hgrows.names _ h.1, hstat h.2⟩
  | rename =>
    intro hm
    obtain ⟨i, hi, hle⟩ := h hm
    exact ⟨i, hgrows.names i hi, by rw [hsize]; exact Nat.le_trans hle (hgrows.size i hi)⟩
  | flockUn =>
    intro hfine
    rw [hfd]
    exact hgrows.names _ (h hfine)
  | _ => trivial

theorem SlogStat.next_knows {st : SlogStat} (hst : st.Holds filename dir)
    (hfd : fine → dir.names filename = some log.fd) :
    (st.next log.rotateSize).Knows fine filename dir log message := by
  cases st with
  | file ino size =>
    rw [next]
    split
    · next hsize =>
      intro _
      obtain ⟨hname, hle⟩ := hst ino size rfl
      exact ⟨ino, hname, Nat.le_trans hsize hle⟩
    · exact hfd
  | missing => exact hfd
  | failed => exact hfd

theorem slogReopened_knows {after : Option SlogStat} (hafter : ∀ st ∈ after, st.Holds filename dir)
    (hfd : fine → dir.names filename = some log.fd) :
    (slogReopened after log.rotateSize).Knows fine filename dir log message := by
  cases after with
  | none => exact hfd
  | some st => exact st.next_knows (hafter st rfl) hfd

theorem slogStat_holds (s : SlogThreads) (ok : Bool) :
    (slogStat filename s ok).Holds filename s.dir := by
  intro ino size he
  unfold slogStat at he
  split at he
  · split at he
    · next i hi =>
      cases he
      exact ⟨hi, Nat.le_refl _⟩
    · cases he
  · cases he

theorem names_of_not_changed {fdstat : Nat}
    (h : ¬(slogStat filename s true).Changed fdstat) : s.dir.names filename = some fdstat := by
  rw [slogStat, if_pos rfl] at h
  split at h
  · next i hi => rw [hi, not_not.mp h]
  · exact absurd trivial h

/-- The system calls of a call succeed, but flock, which is made again. -/
def SlogServed (s : SlogThreads) : SlogThreadEvent → Prop
  | .proceed c ok => ∀ call ∈ s.calls[c]?,
    ok = true ∨ call.point = .flockEx ∨ call.point = .flockUn
  | _ => True

instance (s : SlogThreads) : (e : SlogThreadEvent) → Decidable (SlogServed s e)
  | .proceed c _ => inferInstanceAs (Decidable (∀ call ∈ s.calls[c]?, _ ∨ _ ∨ _))
  | .open _ _ | .fork _ | .reopen _ _ | .close _ | .write _ _ _ | .rotate _ _ | .changeLevel _ _ =>
    .isTrue trivial

section Learns
variable {call : SlogThread} {proc proc' : SlogProcess} {owner : Option Nat} {point : SlogPoint}

/-- What call `c`, which goes on to `point`, finds out and leaves to the others. -/
structure SlogLearns (fine : Prop) (filename : List UInt8) (s s' : SlogThreads)
    (call : SlogThread) (proc proc' : SlogProcess) (point : SlogPoint) : Prop where
  knows : point.Knows fine filename s'.dir proc'.log call.message
  others : call.point.zone = .section ∨
    LogGrows filename s.dir s'.dir ∧ proc'.log = proc.log
  stated : call.point.zone = .section → proc'.log.fd = proc'.log.fdstat ∨
    ∃ after, point = .reopen .fstat after

theorem SlogDoes.learns (h : SlogDoes filename s c call proc ok dir owner proc' point x)
    (hknows : call.point.Knows fine filename s.dir proc.log call.message)
    (hstated : call.point.zone = .section →
      proc.log.fd = proc.log.fdstat ∨ ∃ after, call.point = .reopen .fstat after)
    (hok : fine → ok = true ∨ call.point = .flockEx ∨ call.point = .flockUn) :
    SlogLearns fine filename s (s.advance c call dir owner proc' point) call proc proc' point := by
  -- outside of the section the log stays as it is, and nothing is found out
  have hout : ∀ {pt : SlogPoint}, call.point = pt → pt.zone ≠ .section →
      point.Knows fine filename dir proc'.log call.message → LogGrows filename s.dir dir →
        proc'.log = proc.log → SlogLearns fine filename s
          (s.advance c call dir owner proc' point) call proc proc' point := by
    rintro pt rfl hz hp hdir hlog
    exact ⟨hp, Or.inr ⟨hdir, hlog⟩, fun hz' => absurd hz' hz⟩
  have hin : ∀ {pt : SlogPoint}, call.point = pt → pt.zone = .section →
      point.Knows fine filename dir proc'.log call.message →
        (proc'.log.fd = proc'.log.fdstat ∨ ∃ after, point = .reopen .fstat after) →
          SlogLearns fine filename s (s.advance c call dir owner proc' point) call proc proc'
            point := by
    rintro pt rfl hz hp hfd
    exact ⟨hp, Or.inl hz, fun _ => hfd⟩
  have hfd : ∀ {pt : SlogPoint}, call.point = pt → pt.zone = .section →
      (∀ after, pt ≠ .reopen .fstat after) → proc.log.fd = proc.log.fdstat := by
    rintro pt rfl hz hpt
    exact (hstated hz).resolve_right fun ⟨after, he⟩ => hpt after he
  have hfine : ∀ {pt : SlogPoint}, call.point = pt → pt ≠ .flockEx → pt ≠ .flockUn →
      fine → ok = true := by
    rintro pt rfl hex hun hf
    exact (hok hf).resolve_right fun he => he.elim hex hun
  cases h with
  | mutexLock hpoint _ => exact hout hpoint nofun trivial .refl rfl
  | flockEx hpoint _ =>
    refine hout hpoint nofun ?_ .refl rfl
    split
    · trivial
    · next hm => exact fun hm' => absurd hm' hm
  | again hpoint =>
    rcases hpoint with hpoint | hpoint
    · exact hout hpoint nofun hknows .refl rfl
    · exact hin hpoint rfl hknows (Or.inl (hfd hpoint rfl nofun))
  | stat hpoint =>
    have hfd := hfd hpoint rfl nofun
    refine hin hpoint rfl ?_ (Or.inl hfd)
    split
    · intro st hst
      obtain rfl := Option.mem_some_iff.mp hst
      exact slogStat_holds s ok
    · next hsame =>
      refine SlogStat.next_knows (slogStat_holds s ok) fun hf => ?_
      obtain rfl := hfine hpoint nofun nofun hf
      rw [hfd]
      exact names_of_not_changed hsame
  | reopenFails hpoint =>
    have hfd := hfd hpoint rfl nofun
    rw [hpoint] at hknows
    refine hin hpoint rfl (slogReopened_knows hknows fun hf => ?_) (Or.inl hfd)
    cases hfine hpoint nofun nofun hf
  | reopen hpoint =>
    have hfd := hfd hpoint rfl nofun
    rw [hpoint] at hknows
    exact hin hpoint rfl ⟨openCreate_names, fun st hst =>
      (hknows st hst).grows logGrows_openCreate⟩ (Or.inl hfd)
  | @dup2 _ i after hpoint =>
    rw [hpoint] at hknows
    exact hin hpoint rfl hknows (Or.inr ⟨after, rfl⟩)
  | fstat hpoint =>
    rw [hpoint] at hknows
    exact hin hpoint rfl (slogReopened_knows hknows.2 fun _ => hknows.1) (Or.inl rfl)
  | renameFails hpoint =>
    exact hin hpoint rfl (fun _ hst => by cases hst) (Or.inl (hfd hpoint rfl nofun))
  | rename hpoint =>
    exact hin hpoint rfl (fun _ hst => by cases hst) (Or.inl (hfd hpoint rfl nofun))
  | flockUn hpoint => exact hin hpoint rfl trivial (Or.inl (hfd hpoint rfl nofun))
  | mutexUnlock hpoint =>
    refine hout hpoint nofun ?_ .refl rfl
    split <;> trivial
  | silent hpoint _ => exact hout hpoint nofun trivial .refl rfl
  | writev hpoint _ => exact hout hpoint nofun trivial (logGrows_append _ _) rfl

/-- A system call keeps what the calls know: while one is in the section, no other is. -/
theorem SlogKnown.turn (h : SlogKnown fine filename s) (hlocked : SlogLocked s)
    (ht : SlogTurn s s' c call proc proc' ok point)
    (hlearns : SlogLearns fine filename s s' call proc proc' point) :
    SlogKnown fine filename s' := by
  have halone : call.point.zone = .section → ∀ (j : Nat) (call1 : SlogThread), j ≠ c →
      s.calls[j]? = some call1 → call1.point.zone ≠ .section := by
    intro hz j call1 hne hj hz1
    exact hne (hlocked.in_section ⟨call1, hj, hz1⟩ ⟨call, ht.atCall, hz⟩)
  refine ⟨fun j call1 proc1 hj hp1 => ?_, fun p proc1 hp1 => ?_⟩
  · rw [ht.getCall] at hj
    split at hj
    · cases hj
      rw [ht.getProc, if_pos rfl] at hp1
      cases hp1
      exact hlearns.knows
    · next hne =>
      rcases hlearns.others with hz | ⟨hgrows, hlog⟩
      · exact SlogPoint.knows_of_zone (halone hz j call1 hne hj)
      · rw [ht.getProc] at hp1
        split at hp1
        · next hp =>
          cases hp1
          rw [hlog]
          exact (h.points j call1 proc hj (hp ▸ ht.atProc)).grows hgrows rfl rfl
        · exact (h.points j call1 proc1 hj hp1).grows hgrows rfl rfl
  · -- a call that is between dup2 and fstat is there still, but for this one
    have hold : ∀ proc0, s.procs[p]? = some proc0 → proc1.log = proc0.log →
        (call.proc = p → call.point.zone ≠ .section) →
        proc1.log.fd = proc1.log.fdstat ∨ ∃ (j : Nat) (call1 : SlogThread)
          (after : Option SlogStat), s'.calls[j]? = some call1 ∧ call1.proc = p ∧
            call1.point = .reopen .fstat after := by
      intro proc0 hp0 hlog hnot
      rw [hlog]
      refine (h.stated p proc0 hp0).imp_right fun ⟨j, call1, after, hj, hp, hpt⟩ => ?_
      refine ⟨j, call1, after, ?_, hp, hpt⟩
      rw [ht.getCall, if_neg, hj]
      rintro rfl
      obtain rfl := Option.some.inj (ht.atCall.symm.trans hj)
      exact hnot hp (by rw [hpt]; rfl)
    rw [ht.getProc] at hp1
    split at hp1
    · next hp =>
      cases hp1
      by_cases hz : call.point.zone = .section
      · refine (hlearns.stated hz).imp_right fun ⟨after, he⟩ => ?_
        exact ⟨c, { call with point := point }, after, by rw [ht.getCall, if_pos rfl], hp.symm, he⟩
      · exact hold proc (hp ▸ ht.atProc) (hlearns.others.resolve_left hz).2 fun _ => hz
    · next hp => exact hold proc1 hp1 rfl fun he => absurd he.symm hp

end Learns

theorem SlogKnown.frame (h : SlogKnown fine filename s) (hlocked : SlogLocked s)
    (hgrows : LogGrows filename s.dir s'.dir)
    (hkept : ∀ (c : Nat) (call : SlogThread), s.calls[c]? = some call → s'.calls[c]? = some call)
    (hnew : ∀ (c : Nat) (call : SlogThread), s'.calls[c]? = some call →
      s.calls[c]? = some call ∨ call.point = .mutexLock)
    (hprocs : ∀ (p : Nat) (proc' : SlogProcess), s'.procs[p]? = some proc' →
      (∃ proc, s.procs[p]? = some proc ∧ proc'.log.fd = proc.log.fd ∧
        proc'.log.fdstat = proc.log.fdstat ∧ proc'.log.rotateSize = proc.log.rotateSize) ∨
      s.procs[p]? = none ∧ proc'.log.fd = proc'.log.fdstat) : SlogKnown fine filename s' := by
  refine ⟨fun c call proc' hc hp' => ?_, fun p proc' hp' => ?_⟩
  · rcases hnew c call hc with hold | hpt
    · by_cases hdone : call.point = .done
      · rw [hdone]
        trivial
      · obtain ⟨proc0, hp0, -⟩ := hlocked.used c call hold hdone
        rcases hprocs _ proc' hp' with ⟨proc, hp, hfd, -, hsize⟩ | ⟨hnone, -⟩
        · exact (h.points c call proc hold hp).grows hgrows hfd hsize
        · rw [hp0] at hnone
          cases hnone
    · rw [hpt]
      trivial
  · rcases hprocs p proc' hp' with ⟨proc, hp, hfd, hstat, -⟩ | ⟨-, hsame⟩
    · rw [hfd, hstat]
      exact (h.stated p proc hp).imp_right fun ⟨c, call, after, hc, hrest⟩ =>
        ⟨c, call, after, hkept c call hc, hrest⟩
    · exact Or.inl hsame

theorem SlogKnown.step {e : SlogThreadEvent} (h : SlogKnown fine filename s)
    (hlocked : SlogLocked s) (hfine : fine → SlogServed s e)
    (hstep : slogThreadStep filename s e = some (s', x)) : SlogKnown fine filename s' := by
  have hset : ∀ {p : Nat} {proc proc' : SlogProcess}, s.procs[p]? = some proc →
      s'.procs = s.procs.set p proc' → s'.dir = s.dir → s'.calls = s.calls →
      proc'.log.fd = proc.log.fd → proc'.log.fdstat = proc.log.fdstat →
      proc'.log.rotateSize = proc.log.rotateSize → SlogKnown fine filename s' := by
    intro p proc proc' hp hprocs hdir hcalls hfd hstat hsize
    refine h.frame hlocked (hdir ▸ .refl) (fun c call hc => hcalls ▸ hc)
      (fun c call hc => Or.inl (hcalls ▸ hc)) fun q proc1 hq => Or.inl ?_
    rw [hprocs, get_set hp] at hq
    split at hq
    · next he =>
      cases hq
      exact ⟨proc, he ▸ hp, hfd, hstat, hsize⟩
    · exact ⟨proc1, hq, rfl, rfl, rfl⟩
  have hpush : ∀ {proc' : SlogProcess}, s'.procs = s.procs ++ [proc'] →
      LogGrows filename s.dir s'.dir → s'.calls = s.calls → proc'.log.fd = proc'.log.fdstat →
        SlogKnown fine filename s' := by
    intro proc' hprocs hgrows hcalls hsame
    refine h.frame hlocked hgrows (fun c call hc => hcalls ▸ hc)
      (fun c call hc => Or.inl (hcalls ▸ hc)) fun q proc1 hq => ?_
    rw [hprocs, get_push] at hq
    rcases hq with hq | ⟨rfl, rfl⟩
    · exact Or.inl ⟨proc1, hq, rfl, rfl, rfl⟩
    · exact Or.inr ⟨List.getElem?_eq_none (Nat.le_refl _), hsame⟩
  have hcall : ∀ {call : SlogThread}, call.point = .mutexLock → s'.dir = s.dir →
      s'.calls = s.calls ++ [call] → s'.procs = s.procs → SlogKnown fine filename s' := by
    intro call hpt hdir hcalls hprocs
    refine h.frame hlocked (hdir ▸ .refl) (fun c call1 hc => ?_) (fun c call1 hc => ?_)
      fun q proc1 hq => Or.inl ⟨proc1, hprocs ▸ hq, rfl, rfl, rfl⟩
    · rw [hcalls, get_push]
      exact Or.inl hc
    · rw [hcalls, get_push] at hc
      exact hc.imp_right fun ⟨_, he⟩ => he ▸ hpt
  cases slogThreadStep_acts hstep with
  | «open» => exact hpush rfl logGrows_openCreate rfl rfl
  | @fork p proc hp hfree =>
    -- nobody is between dup2 and fstat, since the mutex is free
    refine hpush rfl .refl rfl ((h.stated p proc hp).resolve_right ?_)
    rintro ⟨c, call, after, hc, hcp, hpt⟩
    have hin : s.Inside p c := ⟨call, hc, hcp, by rw [hpt]; exact nofun⟩
    have hmutex := (hlocked.mutex p proc hp c).mpr hin
    rw [hfree] at hmutex
    cases hmutex
  | reopenFails | quiet => exact h
  | reopen hp | close hp | changeLevel hp => exact hset hp rfl rfl rfl rfl rfl rfl
  | write | rotate => exact hcall rfl rfl rfl rfl
  | @proceed c _ call proc _ _ _ _ _ hc hp hdoes =>
    refine h.turn hlocked (hdoes.turn hc hp) (hdoes.learns (h.points c call proc hc hp)
      (fun hz => ?_) fun hf => hfine hf call hc)
    refine (h.stated _ proc hp).imp_right ?_
    rintro ⟨j, call1, after, hj, -, hpt⟩
    obtain rfl := hlocked.in_section ⟨call1, hj, by rw [hpt]; rfl⟩ ⟨call, hc, hz⟩
    obtain rfl := Option.some.inj (hj.symm.trans hc)
    exact ⟨after, hpt⟩

theorem slogKnown_run {es : List SlogThreadEvent} {xs : List SlogEffect}
    (hes : Along (slogThreadStep filename) (fun s e => SlogAllowed s e ∧ (fine → SlogServed s e))
      (slogThreadsStart dir) es)
    (hrun : run (slogThreadStep filename) (slogThreadsStart dir) es = some (s, xs)) :
    SlogKnown fine filename s := by
  have hstart : SlogKnown fine filename (slogThreadsStart dir) :=
    ⟨fun _ _ _ h => (by cases h), fun _ _ h => by cases h⟩
  exact (run_keeps (fun s => SlogLocked s ∧ SlogKnown fine filename s)
    (fun s e s' x h hok hstep => ⟨h.1.step hok.1 hstep, h.2.step h.1 hok.2 hstep⟩)
    ⟨slogLocked_start dir, hstart⟩ hes hrun).2

/-- Of a log that is used as it is to be, slog_write archives no file that has not grown to the
size, whatever other processes do meanwhile. A process whose system calls succeed has the log's
file when it leaves the lock. -/
theorem slog_archives_full (filename : List UInt8) (dir : SlogDir) {es : List SlogThreadEvent}
    {s : SlogThreads} {xs : List SlogEffect}
    (hes : Along (slogThreadStep filename) SlogAllowed (slogThreadsStart dir) es)
    (hrun : run (slogThreadStep filename) (slogThreadsStart dir) es = some (s, xs)) :
    (∀ (c : Nat) (call : SlogThread) (proc : SlogProcess), s.calls[c]? = some call →
      s.procs[call.proc]? = some proc → call.point = .rename → call.message.isSome →
        ∃ i, s.dir.names filename = some i ∧ proc.log.rotateSize ≤ fileSize s.dir i) ∧
    (Along (slogThreadStep filename) SlogServed (slogThreadsStart dir) es →
      ∀ (c : Nat) (call : SlogThread) (proc : SlogProcess), s.calls[c]? = some call →
        s.procs[call.proc]? = some proc → call.point = .flockUn →
          s.dir.names filename = some proc.log.fd) := by
  refine ⟨fun c call proc hc hp hpt hm => ?_, fun hserved c call proc hc hp hpt => ?_⟩
  · have hknown : SlogKnown False filename s :=
      slogKnown_run (hes.mono fun s e h => ⟨h, False.elim⟩) hrun
    have hpoint := hknown.points c call proc hc hp
    rw [hpt] at hpoint
    exact hpoint hm
  · have hknown : SlogKnown True filename s :=
      slogKnown_run ((hes.inter hserved).mono fun s e h => ⟨h.1, fun _ => h.2⟩) hrun
    have hpoint := hknown.points c call proc hc hp
    rw [hpt] at hpoint
    exact hpoint trivial

/-- A process writes a line, and is about to archive the log when it writes another. -/
def slogArchiveSample : List SlogThreadEvent :=
  let t : SlogTime := ⟨114, 5, 3, 15, 2, 52, 1⟩
  let m : SlogMessage := ⟨.info, 7, [97, 46, 99], 1, [102], [98]⟩
  .open .info 1 :: .write 0 m t :: List.replicate 6 (.proceed 0 true) ++
    .write 0 m t :: List.replicate 3 (.proceed 1 true)

theorem slog_archives_full_sample :
    ∃ s xs, run (slogThreadStep [108]) (slogThreadsStart empty) slogArchiveSample = some (s, xs) ∧
      ∀ (c : Nat) (call : SlogThread) (proc : SlogProcess), s.calls[c]? = some call →
        s.procs[call.proc]? = some proc → call.point = .rename → call.message.isSome →
          ∃ i, s.dir.names [108] = some i ∧ proc.log.rotateSize ≤ fileSize s.dir i := by
  obtain ⟨⟨s, xs⟩, hrun⟩ := Option.isSome_iff_exists.mp
    (by decide +kernel : (run (slogThreadStep [108]) (slogThreadsStart empty)
      slogArchiveSample).isSome = true)
  exact ⟨s, xs, hrun, (slog_archives_full [108] empty (by decide +kernel) hrun).1⟩

end SimpleKit
