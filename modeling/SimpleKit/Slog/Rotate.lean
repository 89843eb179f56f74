import Mathlib.Data.List.Basic
import SimpleKit.Lib.Run
import SimpleKit.Slog.Model

set_option autoImplicit false

namespace SimpleKit
open Runs Directory

structure SlogMoves (s s' : SlogSystem) (x : SlogEffect) : Prop where
  dir : s.dir.Moves s'.dir x.replaced
  fds : ∀ logger ∈ s'.logs, s'.dir.Named logger.fd ∨ ∃ old ∈ s.logs, old.fd = logger.fd
  wrote : ∀ w ∈ x.wrote, (∃ old ∈ s.logs, old.fd = w.1) ∧
    s'.dir.files w.1 = s.dir.files w.1 ++ [w.2]

section Files
variable (filename : List UInt8) (dir : SlogDir) (logger : Slog)

theorem slogOpenFile_spec (ok : Bool) :
    let x := slogOpenFile filename dir logger ok
    dir.Moves x.1 none ∧ (x.1.Named x.2.fd ∨ x.2 = logger) := by
  cases ok
  · exact ⟨Moves.refl dir, Or.inr rfl⟩
  · exact ⟨openCreate_moves dir filename, Or.inl (openCreate_named dir filename)⟩

theorem slogForceRotate_spec (t : SlogTime) (ok : Bool) :
    let x := slogForceRotate filename dir logger t ok
    dir.Moves x.1 (dir.replaced filename (slogDestFilename filename t)) ∧
      (x.1.Named x.2.fd ∨ x.2 = logger) := by
  obtain ⟨hmoves, hfd⟩ := slogOpenFile_spec filename
    (dir.rename filename (slogDestFilename filename t)) logger ok
  exact ⟨(rename_moves dir _ _).trans hmoves, hfd⟩

/-- A log that is not the one remembered is opened; whether it is archived does not depend on
that. -/
theorem slogCheckFile_spec (t : SlogTime) (ok1 ok2 : Bool) :
    let x := slogCheckFile filename dir logger t ok1 ok2
    let dest := (dir.names filename).bind fun i =>
      if fileSize dir i ≥ logger.rotateSize then some (slogDestFilename filename t) else none
    dir.Moves x.1 (dest.bind (dir.replaced filename)) ∧
      (x.1.Named x.2.fd ∨ x.2.fd = logger.fd) := by
  obtain ⟨hmoves, hfd⟩ := slogOpenFile_spec filename dir logger ok1
  unfold slogCheckFile
  cases hst : dir.names filename with
  | none => exact ⟨hmoves, hfd.imp_right (congrArg Slog.fd)⟩
  | some i =>
    dsimp only [Option.bind_some]
    generalize hx : (if some i = some logger.fdstat then (dir, logger)
      else slogOpenFile filename dir logger ok1) = x
    have hsame : x.1 = dir ∧ (x.2.fd = i ∨ x.2.fd = logger.fd) := by
      rw [← hx]
      split
      · exact ⟨rfl, Or.inr rfl⟩
      · rw [slogOpenFile, openCreate_of_bound hst]
        cases ok1
        · exact ⟨rfl, Or.inr rfl⟩
        · exact ⟨rfl, Or.inl rfl⟩
    obtain ⟨dir', logger'⟩ := x
    obtain ⟨rfl, hlogger⟩ := hsame
    have hnamed : dir'.Named i := ⟨filename, hst⟩
    split
    · obtain ⟨hmoves, hfd⟩ := slogForceRotate_spec filename dir' logger' t ok2
      refine ⟨hmoves, hfd.elim Or.inl fun he => ?_⟩
      rcases hlogger with hi | hold
      · exact Or.inl ((congrArg Slog.fd he).trans hi ▸ hmoves.named i hnamed (replaced_ne hst))
      · exact Or.inr ((congrArg Slog.fd he).trans hold)
    · exact ⟨Moves.refl dir', hlogger.imp_left fun hi => by rwa [hi]⟩

end Files

section Steps
variable {filename : List UInt8} {s s' : SlogSystem} {x : SlogEffect}

theorem mem_set_fd {logs : List Slog} {p : Nat} {logger logger' : Slog}
    (h : logs[p]? = some logger) {dir : SlogDir}
    (hfd : dir.Named logger'.fd ∨ logger'.fd = logger.fd) :
    ∀ l ∈ logs.set p logger', dir.Named l.fd ∨ ∃ old ∈ logs, old.fd = l.fd := by
  intro l hl
  rcases List.mem_or_eq_of_mem_set hl with hl | rfl
  · exact Or.inr ⟨l, hl, rfl⟩
  · exact hfd.imp_right fun he => ⟨logger, List.mem_of_getElem? h, he.symm⟩

theorem slogProceed_moves {c : Nat} {ok1 ok2 : Bool}
    (hstep : slogProceed filename s c ok1 ok2 = some (s', x)) : SlogMoves s s' x := by
  unfold slogProceed at hstep
  obtain ⟨⟨log, time, stage⟩, -, hstep⟩ := Option.bind_eq_some_iff.mp hstep
  obtain ⟨logger, hlogger, hstep⟩ := Option.bind_eq_some_iff.mp hstep
  have hkept : ∀ l ∈ s.logs, s'.dir.Named l.fd ∨ ∃ old ∈ s.logs, old.fd = l.fd :=
    fun l hl => Or.inr ⟨l, hl, rfl⟩
  cases stage with
  | check m =>
    obtain ⟨hmoves, hfd⟩ := slogCheckFile_spec filename s.dir logger time ok1 ok2
    obtain ⟨rfl, rfl⟩ := Prod.mk.inj (Option.some.inj hstep)
    refine ⟨?_, mem_set_fd hlogger hfd, fun _ hw => by cases hw⟩
    have hdest : slogDest filename s ⟨log, time, .check m⟩ = (s.dir.names filename).bind fun i =>
        if fileSize s.dir i ≥ logger.rotateSize then some (slogDestFilename filename time)
        else none := by
      rw [slogDest, hlogger]
      cases s.dir.names filename <;> rfl
    rw [hdest]
    exact hmoves
  | append m =>
    dsimp only at hstep
    split at hstep
    · obtain ⟨rfl, rfl⟩ := Prod.mk.inj (Option.some.inj hstep)
      exact ⟨Moves.refl _, hkept, fun _ hw => by cases hw⟩
    · next line _ =>
      obtain ⟨rfl, rfl⟩ := Prod.mk.inj (Option.some.inj hstep)
      refine ⟨append_moves s.dir logger.fd line, hkept, fun w hw => ?_⟩
      obtain rfl := Option.mem_some_iff.mp hw
      refine ⟨⟨logger, List.mem_of_getElem? hlogger, rfl⟩, ?_⟩
      rw [append_files, if_pos rfl]
  | rotate =>
    obtain ⟨hmoves, hfd⟩ := slogForceRotate_spec filename s.dir logger time ok1
    obtain ⟨rfl, rfl⟩ := Prod.mk.inj (Option.some.inj hstep)
    refine ⟨?_, mem_set_fd hlogger (hfd.imp_right (congrArg Slog.fd)), fun _ hw => by cases hw⟩
    have hdest : (slogDest filename s ⟨log, time, .rotate⟩).bind (s.dir.replaced filename) =
        s.dir.replaced filename (slogDestFilename filename time) := by
      rw [slogDest, hlogger]
      cases hst : s.dir.names filename with
      | none => exact (replaced_eq_none.mpr (Or.inl hst)).symm
      | some i => rfl
    rw [hdest]
    exact hmoves
  | done => cases hstep

theorem slogStep_moves {e : SlogEvent} (hstep : slogStep filename s e = some (s', x)) :
    SlogMoves s s' x := by
  have hkept : ∀ l ∈ s.logs, s'.dir.Named l.fd ∨ ∃ old ∈ s.logs, old.fd = l.fd :=
    fun l hl => Or.inr ⟨l, hl, rfl⟩
  cases e with
  | «open» level rotateSize =>
    obtain ⟨rfl, rfl⟩ := Prod.mk.inj (Option.some.inj hstep)
    refine ⟨openCreate_moves s.dir filename, fun l hl => ?_, fun _ hw => by cases hw⟩
    rcases List.mem_append.mp hl with hl | hl
    · exact hkept l hl
    · obtain rfl := List.mem_singleton.mp hl
      exact Or.inl (openCreate_named s.dir filename)
  | fork p =>
    obtain ⟨logger, hlogger, heq⟩ := Option.map_eq_some_iff.mp hstep
    obtain ⟨rfl, rfl⟩ := Prod.mk.inj heq
    refine ⟨Moves.refl _, fun l hl => ?_, fun _ hw => by cases hw⟩
    rcases List.mem_append.mp hl with hl | hl
    · exact hkept l hl
    · obtain rfl := List.mem_singleton.mp hl
      exact hkept _ (List.mem_of_getElem? hlogger)
  | write p m t =>
    obtain ⟨logger, -, heq⟩ := Option.map_eq_some_iff.mp hstep
    split at heq
    · obtain ⟨rfl, rfl⟩ := Prod.mk.inj heq
      exact ⟨Moves.refl _, hkept, fun _ hw => by cases hw⟩
    · obtain ⟨rfl, rfl⟩ := Prod.mk.inj heq
      exact ⟨Moves.refl _, hkept, fun _ hw => by cases hw⟩
  | rotate p t =>
    obtain ⟨logger, -, heq⟩ := Option.map_eq_some_iff.mp hstep
    obtain ⟨rfl, rfl⟩ := Prod.mk.inj heq
    exact ⟨Moves.refl _, hkept, fun _ hw => by cases hw⟩
  | changeLevel p level =>
    obtain ⟨logger, hlogger, heq⟩ := Option.map_eq_some_iff.mp hstep
    obtain ⟨rfl, rfl⟩ := Prod.mk.inj heq
    exact ⟨Moves.refl _, mem_set_fd hlogger (Or.inr rfl), fun _ hw => by cases hw⟩
  | proceed c ok1 ok2 => exact slogProceed_moves hstep

end Steps

section Lines

def linesOf (i : Nat) (xs : List SlogEffect) : List (List UInt8) :=
  ((xs.filterMap SlogEffect.wrote).filter fun w => w.1 = i).map Prod.snd

/-- Every line that was written is in a file with a name. -/
def LinesKept (dir : SlogDir) (xs : List SlogEffect) : Prop :=
  ∀ i, linesOf i xs ≠ [] → dir.Named i ∧ (linesOf i xs).Sublist (dir.files i)

def FileKept (dir : SlogDir) (xs : List SlogEffect) (i : Nat) : Prop :=
  i < dir.next ∧ (dir.Named i ∨ ∃ x ∈ xs, x.replaced = some i)

structure SlogInv (s : SlogSystem) (xs : List SlogEffect) : Prop where
  fds : ∀ logger ∈ s.logs, FileKept s.dir xs logger.fd
  lines : ∀ i, linesOf i xs ≠ [] →
    FileKept s.dir xs i ∧ (linesOf i xs).Sublist (s.dir.files i)

/-- No file has two names, and what was replaced has none. -/
def SlogGone (s : SlogSystem) (xs : List SlogEffect) : Prop :=
  s.dir.Single ∧ ∀ x ∈ xs, ∀ i, x.replaced = some i → i < s.dir.next ∧ ¬ s.dir.Named i

variable {s s' : SlogSystem} {x : SlogEffect} {xs : List SlogEffect} {i : Nat}

theorem linesOf_append (i : Nat) (xs : List SlogEffect) (x : SlogEffect) :
    linesOf i (xs ++ [x]) =
      linesOf i xs ++ ((x.wrote.toList.filter fun w => w.1 = i).map Prod.snd) := by
  rw [linesOf, List.filterMap_append, List.filter_append, List.map_append]
  cases hw : x.wrote <;> simp [linesOf, hw]

theorem FileKept.step (hmoves : SlogMoves s s' x) (h : FileKept s.dir xs i) :
    FileKept s'.dir (xs ++ [x]) i := by
  refine ⟨Nat.lt_of_lt_of_le h.1 hmoves.dir.next, ?_⟩
  by_cases hx : x.replaced = some i
  · exact Or.inr ⟨x, List.mem_append_right _ List.mem_cons_self, hx⟩
  · rcases h.2 with hnamed | ⟨y, hy, hrep⟩
    · exact Or.inl (hmoves.dir.named i hnamed hx)
    · exact Or.inr ⟨y, List.mem_append_left _ hy, hrep⟩

theorem SlogInv.step (hmoves : SlogMoves s s' x) (h : SlogInv s xs) : SlogInv s' (xs ++ [x]) := by
  refine ⟨fun logger hl => ?_, fun i hi => ?_⟩
  · rcases hmoves.fds logger hl with hnamed | ⟨old, hold, he⟩
    · exact ⟨hnamed.lt, Or.inl hnamed⟩
    · exact he ▸ (h.fds old hold).step hmoves
  · have hgrown : linesOf i xs ≠ [] → FileKept s'.dir (xs ++ [x]) i ∧
        (linesOf i xs).Sublist (s'.dir.files i) := by
      intro hne
      obtain ⟨hkept, hsub⟩ := h.lines i hne
      exact ⟨hkept.step hmoves, hsub.trans (hmoves.dir.files i hkept.1).sublist⟩
    rw [linesOf_append] at hi ⊢
    cases hw : x.wrote with
    | none =>
      rw [hw] at hi
      simpa using hgrown (by simpa using hi)
    | some w =>
      obtain ⟨⟨old, hold, he⟩, hfile⟩ := hmoves.wrote w hw
      by_cases hwi : w.1 = i
      · subst hwi
        have hsub : (linesOf w.1 xs).Sublist (s.dir.files w.1) := by
          by_cases hne : linesOf w.1 xs = []
          · rw [hne]
            exact List.nil_sublist _
          · exact (h.lines w.1 hne).2
        refine ⟨he ▸ (h.fds old hold).step hmoves, ?_⟩
        rw [hfile]
        simpa using hsub.append_right [w.2]
      · rw [hw] at hi
        simp only [Option.toList_some, List.filter_cons_of_neg, hwi, decide_false,
          Bool.false_eq_true,
          not_false_eq_true, List.filter_nil, List.map_nil, List.append_nil] at hi ⊢
        exact hgrown hi

theorem SlogGone.step (hmoves : SlogMoves s s' x) (h : SlogGone s xs) :
    SlogGone s' (xs ++ [x]) := by
  refine ⟨hmoves.dir.single h.1, fun y hy i hi => ?_⟩
  rcases List.mem_append.mp hy with hy | hy
  · obtain ⟨hlt, hgone⟩ := h.2 y hy i hi
    exact ⟨Nat.lt_of_lt_of_le hlt hmoves.dir.next, fun hn => hgone (hmoves.dir.back i hlt hn)⟩
  · obtain rfl := List.mem_singleton.mp hy
    obtain ⟨hlt, hlost⟩ := hmoves.dir.lost i hi
    exact ⟨Nat.lt_of_lt_of_le hlt hmoves.dir.next, hlost h.1⟩

end Lines

section Spares
variable (filename : List UInt8)

/-- A step spares the archives if the name that it gives to the log, if any, is free. -/
def SlogSpares (s : SlogSystem) : SlogEvent → Prop
  | .proceed c _ _ => ∀ call ∈ s.calls[c]?, ∀ dest ∈ slogDest filename s call,
    s.dir.names dest = none ∨ s.dir.names dest = s.dir.names filename
  | _ => True

instance (s : SlogSystem) : (e : SlogEvent) → Decidable (SlogSpares filename s e)
  | .proceed c _ _ => inferInstanceAs (Decidable (∀ call ∈ s.calls[c]?,
    ∀ dest ∈ slogDest filename s call, _ ∨ _))
  | .open _ _ | .fork _ | .write _ _ _ | .rotate _ _ | .changeLevel _ _ => .isTrue trivial

variable {filename} {s s' : SlogSystem} {x : SlogEffect}

theorem slogDest_bound {call : SlogCall} {dest : List UInt8}
    (h : slogDest filename s call = some dest) : s.dir.names filename ≠ none := by
  intro hnone
  rw [slogDest, hnone] at h
  cases hstage : call.stage <;> cases hlogger : s.logs[call.log]? <;> rw [hstage, hlogger] at h <;>
    cases h

theorem spares_iff_replaced (e : SlogEvent) (hstep : slogStep filename s e = some (s', x)) :
    SlogSpares filename s e ↔ x.replaced = none := by
  cases e with
  | proceed c ok1 ok2 =>
    unfold slogStep slogProceed at hstep
    obtain ⟨call, hcall, hstep⟩ := Option.bind_eq_some_iff.mp hstep
    obtain ⟨logger, hlogger, hstep⟩ := Option.bind_eq_some_iff.mp hstep
    have hiff : SlogSpares filename s (.proceed c ok1 ok2) ↔
        (slogDest filename s call).bind (s.dir.replaced filename) = none := by
      rw [SlogSpares, hcall]
      simp only [Option.mem_some_iff, forall_eq']
      cases hdest : slogDest filename s call with
      | none => exact iff_of_true (fun _ hd => by cases hd) rfl
      | some dest =>
        rw [Option.bind_some, replaced_eq_none, or_iff_right (slogDest_bound hdest)]
        exact ⟨fun hd => hd dest rfl, fun hd _ he => Option.mem_some_iff.mp he ▸ hd⟩
    rw [hiff]
    obtain ⟨log, time, stage⟩ := call
    cases stage with
    | check m =>
      obtain ⟨-, rfl⟩ := Prod.mk.inj (Option.some.inj hstep)
      exact Iff.rfl
    | append m =>
      refine iff_of_true rfl ?_
      dsimp only at hstep
      split at hstep <;> exact (Prod.mk.inj (Option.some.inj hstep)).2 ▸ rfl
    | rotate =>
      obtain ⟨-, rfl⟩ := Prod.mk.inj (Option.some.inj hstep)
      exact Iff.rfl
    | done => cases hstep
  | «open» level rotateSize =>
    obtain ⟨-, rfl⟩ := Prod.mk.inj (Option.some.inj hstep)
    exact iff_of_true trivial rfl
  | fork p =>
    obtain ⟨_, -, heq⟩ := Option.map_eq_some_iff.mp hstep
    exact iff_of_true trivial ((Prod.mk.inj heq).2 ▸ rfl)
  | write p m t =>
    obtain ⟨_, -, heq⟩ := Option.map_eq_some_iff.mp hstep
    refine iff_of_true trivial ?_
    split at heq <;> exact (Prod.mk.inj heq).2 ▸ rfl
  | rotate p t =>
    obtain ⟨_, -, heq⟩ := Option.map_eq_some_iff.mp hstep
    exact iff_of_true trivial ((Prod.mk.inj heq).2 ▸ rfl)
  | changeLevel p level =>
    obtain ⟨_, -, heq⟩ := Option.map_eq_some_iff.mp hstep
    exact iff_of_true trivial ((Prod.mk.inj heq).2 ▸ rfl)

end Spares

section Runs
variable {filename : List UInt8} {dir : SlogDir} {es : List SlogEvent} {s : SlogSystem}
  {xs : List SlogEffect}

theorem slogInv_run (hrun : run (slogStep filename) (slogStart dir) es = some (s, xs)) :
    SlogInv s xs := by
  have hstart : SlogInv (slogStart dir) [] :=
    ⟨fun _ h => absurd h List.not_mem_nil, fun i h => absurd (rfl : linesOf i [] = []) h⟩
  have hinv := run_collects SlogInv (fun x => [x])
    (fun _ _ _ _ _ hinv _ hstep => hinv.step (slogStep_moves hstep)) hstart
    (Along.of_all fun _ _ _ => trivial) hrun
  rwa [List.nil_append, List.flatMap_singleton'] at hinv

theorem slogGone_run (hdir : dir.Single)
    (hrun : run (slogStep filename) (slogStart dir) es = some (s, xs)) : SlogGone s xs := by
  have hstart : SlogGone (slogStart dir) [] := ⟨hdir, fun _ h => absurd h List.not_mem_nil⟩
  have hgone := run_collects SlogGone (fun x => [x])
    (fun _ _ _ _ _ hgone _ hstep => hgone.step (slogStep_moves hstep)) hstart
    (Along.of_all fun _ _ _ => trivial) hrun
  rwa [List.nil_append, List.flatMap_singleton'] at hgone

/-- The lines that are lost are those of the files that were replaced. -/
theorem linesKept_iff (hdir : dir.Single)
    (hrun : run (slogStep filename) (slogStart dir) es = some (s, xs)) :
    LinesKept s.dir xs ↔ ∀ x ∈ xs, ∀ i, x.replaced = some i → linesOf i xs = [] := by
  constructor
  · intro hkept x hx i hi
    by_contra hne
    exact ((slogGone_run hdir hrun).2 x hx i hi).2 (hkept i hne).1
  · intro hempty i hne
    obtain ⟨hkept, hsub⟩ := (slogInv_run hrun).lines i hne
    refine ⟨hkept.2.elim id ?_, hsub⟩
    rintro ⟨x, hx, hi⟩
    exact absurd (hempty x hx i hi) hne

theorem linesKept_of_spared (hrun : run (slogStep filename) (slogStart dir) es = some (s, xs))
    (hxs : ∀ x ∈ xs, x.replaced = none) : LinesKept s.dir xs := by
  intro i hne
  obtain ⟨hkept, hsub⟩ := (slogInv_run hrun).lines i hne
  refine ⟨hkept.2.elim id ?_, hsub⟩
  rintro ⟨x, hx, hi⟩
  rw [hxs x hx] at hi
  cases hi

/-- No line is lost in a run that never gives the log the name of an archive; a run that gives
it such a name replaces the archive, and loses the lines that are in it. -/
theorem slog_rotation_keeps (filename : List UInt8) (dir : SlogDir) {es : List SlogEvent}
    {s : SlogSystem} {xs : List SlogEffect}
    (hrun : run (slogStep filename) (slogStart dir) es = some (s, xs)) :
    (Along (slogStep filename) (SlogSpares filename) (slogStart dir) es →
      LinesKept s.dir xs) ∧
    (Along (slogStep filename) (SlogSpares filename) (slogStart dir) es ↔
      ∀ x ∈ xs, x.replaced = none) ∧
    (dir.Single →
      (LinesKept s.dir xs ↔ ∀ x ∈ xs, ∀ i, x.replaced = some i → linesOf i xs = [])) := by
  have hiff : Along (slogStep filename) (SlogSpares filename) (slogStart dir) es ↔
      ∀ x ∈ xs, x.replaced = none :=
    Along.iff_results (fun x => x.replaced = none)
      (fun s e s' x hstep => spares_iff_replaced e hstep) hrun
  exact ⟨fun h => linesKept_of_spared hrun (hiff.mp h), hiff, fun hdir => linesKept_iff hdir hrun⟩

def slogSampleTime (usec : Nat) : SlogTime := ⟨114, 5, 3, 15, 2, 52, usec⟩

def slogSampleMessage : SlogMessage := ⟨.info, 7, [97, 46, 99], 1, [102], [98]⟩

/-- Two processes write three lines to the log `l`, which is archived from one byte on. -/
def slogSampleEvents (usec1 usec2 : Nat) : List SlogEvent :=
  [.open .info 1, .open .info 1, .write 0 slogSampleMessage (slogSampleTime usec1),
    .proceed 0 true true, .proceed 0 true true,
    .write 0 slogSampleMessage (slogSampleTime usec1),
    .write 1 slogSampleMessage (slogSampleTime usec2),
    .proceed 1 true true, .proceed 1 true true, .proceed 2 true true, .proceed 2 true true]

theorem slog_rotation_keeps_sample :
    ∃ s xs, run (slogStep [108]) (slogStart empty) (slogSampleEvents 1 2) = some (s, xs) ∧
      LinesKept s.dir xs := by
  obtain ⟨⟨s, xs⟩, hrun⟩ := Option.isSome_iff_exists.mp
    (by decide +kernel :
      (run (slogStep [108]) (slogStart empty) (slogSampleEvents 1 2)).isSome = true)
  exact ⟨s, xs, hrun, (slog_rotation_keeps [108] empty hrun).1 (by decide +kernel)⟩

/-- Both processes archive the log in one microsecond. -/
theorem slog_rotation_loses :
    ∃ s xs, run (slogStep [108]) (slogStart empty) (slogSampleEvents 1 1) = some (s, xs) ∧
      ¬ LinesKept s.dir xs := by
  obtain ⟨⟨s, xs⟩, hrun⟩ := Option.isSome_iff_exists.mp
    (by decide +kernel :
      (run (slogStep [108]) (slogStart empty) (slogSampleEvents 1 1)).isSome = true)
  have hlost : ∀ y ∈ run (slogStep [108]) (slogStart empty) (slogSampleEvents 1 1),
      (∃ x ∈ y.2, x.replaced = some 0) ∧ linesOf 0 y.2 ≠ [] := by decide +kernel
  obtain ⟨⟨x, hx, hrep⟩, hlines⟩ := hlost (s, xs) hrun
  have hempty : (empty : SlogDir).Single := fun _ _ _ h => by cases h
  exact ⟨s, xs, hrun, fun hkept => hlines ((linesKept_iff hempty hrun).mp hkept x hx 0 hrep)⟩

end Runs

end SimpleKit
