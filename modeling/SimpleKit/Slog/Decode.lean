import SimpleKit.Lib.Decimal
import SimpleKit.Lib.Pipe
import SimpleKit.Slog.Lines

set_option autoImplicit false

namespace SimpleKit
open Decimal Framing Guard Runs

/-- What localtime_r may return, up to the year 9999. -/
structure SlogTime.Valid (t : SlogTime) : Prop where
  year : t.tmYear + 1900 < 10000
  month : t.tmMon < 12
  mday : t.tmMday ≤ 31
  hour : t.tmHour < 24
  min : t.tmMin < 60
  sec : t.tmSec ≤ 60
  usec : t.tvUsec < 1000000

def SlogTime.units (t : SlogTime) : List Nat :=
  [t.tmYear, t.tmMon, t.tmMday, t.tmHour, t.tmMin, t.tmSec, t.tvUsec]

structure SlogEntry where
  time : SlogTime
  level : SlogLevel
  tid : Nat
  text : List UInt8
  deriving DecidableEq, Repr

def SlogMessage.place (m : SlogMessage) : List UInt8 :=
  if SlogLevel.info.toNat < m.level.toNat then
    ascii ['('] ++ (m.function ++ (ascii [' '] ++ (m.file ++ (ascii [':'] ++
      (padded 1 m.line ++ ascii [')', ' '])))))
  else []

def SlogMessage.entry (m : SlogMessage) (t : SlogTime) : SlogEntry :=
  ⟨t, m.level, m.tid, m.place ++ m.body.take 10239⟩

section Line
variable {t t' : SlogTime} {m : SlogMessage} {l r : List UInt8}

theorem zeroPadded_eq (width n : Nat) : zeroPadded width n = padded width n := by
  simp only [zeroPadded, padded, numeral, ascii, List.map_append, List.map_replicate,
    List.length_map]
  rfl

theorem length_ascii (text : List Char) : (ascii text).length = text.length := List.length_map ..

theorem SlogTime.Valid.columns (h : t.Valid) : t.tmYear + 1900 < 10 ^ 4 ∧ t.tmMon + 1 < 10 ^ 2 ∧
    t.tmMday < 10 ^ 2 ∧ t.tmHour < 10 ^ 2 ∧ t.tmMin < 10 ^ 2 ∧ t.tmSec < 10 ^ 2 ∧
      t.tvUsec < 10 ^ 6 := by
  obtain ⟨hyear, hmonth, hmday, hhour, hmin, hsec, husec⟩ := h
  omega

/-- What follows the name of the log in the name of an archive. -/
def slogArchiveWire (t : SlogTime) : List UInt8 :=
  ascii ['.'] ++ (padded 4 (t.tmYear + 1900) ++ (padded 2 (t.tmMon + 1) ++ (padded 2 t.tmMday ++
    (padded 2 t.tmHour ++ (padded 2 t.tmMin ++ (padded 2 t.tmSec ++ (ascii ['.'] ++
    (padded 6 t.tvUsec ++ []))))))))

theorem slogDestFilename_eq {filename : List UInt8} (hname : filename.length ≤ 4000)
    (ht : t.Valid) : slogDestFilename filename t = filename ++ slogArchiveWire t := by
  obtain ⟨hyear, hmonth, hmday, hhour, hmin, hsec, husec⟩ := ht.columns
  have hlen : (slogArchiveWire t).length ≤ 22 := by
    simp only [slogArchiveWire, List.length_append, length_ascii, List.length_cons,
      List.length_nil, length_padded (w := 4) (by decide) hyear,
      length_padded (w := 2) (by decide) hmonth, length_padded (w := 2) (by decide) hmday,
      length_padded (w := 2) (by decide) hhour, length_padded (w := 2) (by decide) hmin,
      length_padded (w := 2) (by decide) hsec, length_padded (w := 6) (by decide) husec]
    omega
  have hcut : (filename ++ slogArchiveWire t).take 4095 = filename ++ slogArchiveWire t :=
    List.take_of_length_le (by rw [List.length_append]; omega)
  rw [← hcut, slogDestFilename]
  congr 1
  simp only [slogArchiveWire, zeroPadded_eq, List.append_assoc, List.append_nil]

theorem append_lt_append_left (l : List UInt8) {r s : List UInt8} : l ++ r < l ++ s ↔ r < s := by
  rw [append_lt_append_iff rfl, or_iff_right (List.lt_irrefl l), and_iff_right rfl]

theorem slogArchiveWire_lt (ht : t.Valid) (ht' : t'.Valid) :
    slogArchiveWire t < slogArchiveWire t' ↔ t.units < t'.units := by
  obtain ⟨hyear, hmonth, hmday, hhour, hmin, hsec, husec⟩ := ht.columns
  obtain ⟨hyear', hmonth', hmday', hhour', hmin', hsec', husec'⟩ := ht'.columns
  rw [slogArchiveWire, slogArchiveWire, append_lt_append_left,
    padded_lt_iff (by decide) hyear hyear', padded_lt_iff (by decide) hmonth hmonth',
    padded_lt_iff (by decide) hmday hmday', padded_lt_iff (by decide) hhour hhour',
    padded_lt_iff (by decide) hmin hmin', padded_lt_iff (by decide) hsec hsec',
    append_lt_append_left, padded_lt_iff (by decide) husec husec']
  simp only [SlogTime.units, List.cons_lt_cons_iff, Nat.add_lt_add_iff_right,
    Nat.add_right_cancel_iff, List.not_lt_nil]

/-- The archives of a log are named in the order of the times at which they are made. -/
theorem slog_archive_order {filename : List UInt8} (hname : filename.length ≤ 4000)
    (ht : t.Valid) (ht' : t'.Valid) :
    slogDestFilename filename t < slogDestFilename filename t' ↔ t.units < t'.units := by
  rw [slogDestFilename_eq hname ht, slogDestFilename_eq hname ht', append_lt_append_left,
    slogArchiveWire_lt ht ht']

theorem slog_archive_order_sample :
    slogDestFilename [108] ⟨114, 5, 3, 15, 2, 52, 999999⟩ <
      slogDestFilename [108] ⟨114, 5, 3, 15, 2, 53, 1⟩ :=
  (slog_archive_order (by decide) (by constructor <;> decide) (by constructor <;> decide)).mpr
    (by decide)

end Line

section Log
variable {filename : List UInt8} {dir : SlogDir} {es : List SlogThreadEvent} {s s' : SlogThreads}
  {x : SlogEffect} {c : Nat} {ok : Bool} {call : SlogThread} {ws : List (Nat × Nat)}

/-- What a call has to write; nothing if it is of slog_rotate, or the body is empty. -/
def SlogThread.entry (call : SlogThread) : Option SlogEntry :=
  call.message.bind fun m => if m.body = [] then none else some (m.entry call.time)

def SlogThread.line (call : SlogThread) : Option (List UInt8) :=
  call.message.bind (slogLine call.time)

def SlogThread.written (call : SlogThread) : Nat :=
  if call.point = .done ∧ call.entry.isSome then 1 else 0

/-- The file that a step writes to, and the call that does it. -/
def slogWrote (e : SlogThreadEvent) (x : SlogEffect) : List (Nat × Nat) :=
  match e with
  | .proceed c _ => x.wrote.toList.map fun w => (w.1, c)
  | _ => []

def writersOf (i : Nat) (ws : List (Nat × Nat)) : List Nat :=
  (ws.filter fun w => w.1 = i).map Prod.snd

/-- The files that are open exist, and what is in the files was written by the calls that have
returned, by each of them once. -/
structure SlogTold (s : SlogThreads) (ws : List (Nat × Nat)) : Prop where
  opened : ∀ i ∈ s.opened, i < s.dir.next
  fresh : ∀ i, s.dir.next ≤ i → s.dir.files i = []
  lines : ∀ i, (writersOf i ws).map (fun c => s.calls[c]?.bind SlogThread.line) =
    (s.dir.files i).map some
  once : ∀ c, (ws.map Prod.snd).count c = s.calls[c]?.elim 0 SlogThread.written

theorem SlogThread.isSome_entry (call : SlogThread) : call.entry.isSome = call.line.isSome := by
  rw [entry, line]
  cases call.message with
  | none => rfl
  | some m =>
    rw [Option.bind_some, Option.bind_some, slogLine]
    split <;> rfl

theorem openCreate_files {d : SlogDir} (h : d.files d.next = []) (n : List UInt8) :
    (d.openCreate n).1.files = d.files := by
  unfold Directory.openCreate
  split
  · rfl
  · exact Function.update_eq_self_iff.mpr h.symm

theorem rename_files (d : SlogDir) (a b : List UInt8) : (d.rename a b).files = d.files := by
  unfold Directory.rename
  split <;> rfl

/-- A call writes its line when it returns, and nothing else. -/
theorem SlogDoes.wrote {proc proc' : SlogProcess} {owner : Option Nat} {point : SlogPoint}
    (hfresh : s.dir.files s.dir.next = [])
    (h : SlogDoes filename s c call proc ok dir owner proc' point x) :
    x.wrote = none ∧ dir.files = s.dir.files ∧ (point = .done → call.line = none) ∨
      ∃ line, x.wrote = some (proc.log.fd, line) ∧ dir = s.dir.append proc.log.fd line ∧
        point = .done ∧ call.line = some line := by
  cases h with
  | mutexLock => exact Or.inl ⟨rfl, rfl, nofun⟩
  | flockEx => exact Or.inl ⟨rfl, rfl, fun he => by split at he <;> cases he⟩
  | again hpoint =>
    refine Or.inl ⟨rfl, rfl, fun he => ?_⟩
    rw [he] at hpoint
    cases hpoint <;> contradiction
  | stat =>
    have hnext : ∀ st : SlogStat, st.next proc.log.rotateSize ≠ .done := fun st he => by
      have hzone := st.next_zone proc.log.rotateSize
      rw [he] at hzone
      cases hzone
    refine Or.inl ⟨rfl, rfl, fun he => ?_⟩
    split at he
    · cases he
    · exact absurd he (hnext _)
  | reopenFails | fstat =>
    refine Or.inl ⟨rfl, rfl, fun he => ?_⟩
    have hzone := slogReopened_zone _ _ |>.symm.trans (congrArg SlogPoint.zone he)
    cases hzone
  | reopen => exact Or.inl ⟨rfl, openCreate_files hfresh filename, nofun⟩
  | dup2 | renameFails | flockUn => exact Or.inl ⟨rfl, rfl, nofun⟩
  | rename => exact Or.inl ⟨rfl, rename_files _ _ _, nofun⟩
  | mutexUnlock =>
    refine Or.inl ⟨rfl, rfl, fun he => ?_⟩
    cases hm : call.message with
    | none => rw [SlogThread.line, hm, Option.bind_none]
    | some m =>
      rw [hm] at he
      cases he
  | silent _ hnone => exact Or.inl ⟨rfl, rfl, fun _ => hnone⟩
  | writev _ hline => exact Or.inr ⟨_, rfl, rfl, rfl, hline⟩

theorem SlogTold.writer (h : SlogTold s ws) {i : Nat} (hc : c ∈ writersOf i ws) :
    ∃ call line, s.calls[c]? = some call ∧ call.line = some line := by
  have hmem := List.mem_map_of_mem (f := fun c => s.calls[c]?.bind SlogThread.line) hc
  rw [h.lines i] at hmem
  obtain ⟨line, -, heq⟩ := List.mem_map.mp hmem
  obtain ⟨call, hcall, hline⟩ := Option.bind_eq_some_iff.mp heq.symm
  exact ⟨call, line, hcall, hline⟩

theorem SlogThreads.lt_of_opened (h : SlogMoves s.coarse s'.coarse x)
    (hopened : ∀ i ∈ s.opened, i < s.dir.next) : ∀ i ∈ s'.opened, i < s'.dir.next := by
  intro i hi
  rcases h.fds ⟨i, i, 0, .fatal⟩ (List.mem_map_of_mem hi) with hnamed | ⟨old, hold, he⟩
  · exact hnamed.lt
  · obtain ⟨j, hj, rfl⟩ := List.mem_map.mp hold
    obtain rfl : j = i := he
    exact Nat.lt_of_lt_of_le (hopened j hj) h.dir.next

theorem SlogTold.frame (h : SlogTold s ws) (hmoves : SlogMoves s.coarse s'.coarse x)
    (hfiles : s'.dir.files = s.dir.files)
    (hline : ∀ (c : Nat) (call : SlogThread), s.calls[c]? = some call →
      ∃ call' : SlogThread, s'.calls[c]? = some call' ∧ call'.line = call.line)
    (hwritten : ∀ c : Nat, s'.calls[c]?.elim 0 SlogThread.written =
      s.calls[c]?.elim 0 SlogThread.written) : SlogTold s' ws := by
  refine ⟨SlogThreads.lt_of_opened hmoves h.opened, fun i hi => ?_, fun i => ?_, fun c => ?_⟩
  · rw [hfiles]
    exact h.fresh i (Nat.le_trans hmoves.dir.next hi)
  · rw [hfiles, ← h.lines i]
    refine List.map_congr_left fun c hc => ?_
    obtain ⟨call, line, hcall, -⟩ := h.writer hc
    obtain ⟨call', hcall', heq⟩ := hline c call hcall
    rw [hcall, hcall', Option.bind_some, Option.bind_some, heq]
  · rw [h.once, hwritten]

theorem SlogTold.goes (h : SlogTold s ws) (hmoves : SlogMoves s.coarse s'.coarse x)
    {point : SlogPoint} (hcall : s.calls[c]? = some call)
    (hcalls : s'.calls = s.calls.set c { call with point := point })
    (hfiles : s'.dir.files = s.dir.files) (hpoint : call.point ≠ .done)
    (hdone : point = .done → call.line = none) : SlogTold s' ws := by
  refine h.frame hmoves hfiles (fun c1 call1 h1 => ?_) fun c1 => ?_
  · rw [hcalls, get_set hcall]
    split
    · next he =>
      obtain rfl := Option.some.inj ((he ▸ hcall).symm.trans h1)
      exact ⟨_, rfl, rfl⟩
    · exact ⟨call1, h1, rfl⟩
  · rw [hcalls, get_set hcall]
    split
    · next he =>
      rw [he, hcall]
      refine (if_neg fun hw => ?_).trans (if_neg fun hw => hpoint hw.1).symm
      have hsome : call.line.isSome = true := call.isSome_entry.symm.trans hw.2
      rw [hdone hw.1] at hsome
      cases hsome
    · rfl

theorem SlogTold.returns (h : SlogTold s ws) (hmoves : SlogMoves s.coarse s'.coarse x)
    {fd : Nat} {line : List UInt8} (hcall : s.calls[c]? = some call)
    (hcalls : s'.calls = s.calls.set c { call with point := .done })
    (hdir : s'.dir = s.dir.append fd line) (hfd : fd ∈ s.opened) (hpoint : call.point ≠ .done)
    (hline : call.line = some line) : SlogTold s' (ws ++ [(fd, c)]) := by
  have hget : s'.calls[c]? = some { call with point := .done } := by
    rw [hcalls, get_set hcall, if_pos rfl]
  refine ⟨SlogThreads.lt_of_opened hmoves h.opened, fun i hi => ?_, fun i => ?_, fun c1 => ?_⟩
  · have hlt := h.opened fd hfd
    rw [hdir] at hi ⊢
    have hne : i ≠ fd := fun he => Nat.lt_irrefl _ (Nat.lt_of_lt_of_le (he ▸ hlt) hi)
    rw [Directory.append_files, if_neg hne, List.append_nil]
    exact h.fresh i hi
  · have hold : ∀ c1 ∈ writersOf i ws, s'.calls[c1]?.bind SlogThread.line =
        s.calls[c1]?.bind SlogThread.line := by
      intro c1 _
      rw [hcalls, get_set hcall]
      split
      · next he =>
        rw [he, hcall]
        rfl
      · rfl
    rw [hdir, Directory.append_files, List.map_append, ← h.lines i, writersOf, List.filter_append,
      List.map_append, List.map_append]
    refine congrArg₂ (· ++ ·) (List.map_congr_left hold) ?_
    by_cases hi : i = fd
    · rw [if_pos hi, hi]
      have hafter : ({ call with point := .done } : SlogThread).line = some line := hline
      simp [hget, hafter]
    · rw [if_neg hi]
      simp [Ne.symm hi]
  · rw [List.map_append, List.count_append, h.once, hcalls, get_set hcall]
    by_cases he : c1 = c
    · rw [if_pos he, he, hcall]
      have hsome : call.entry.isSome = true := by rw [call.isSome_entry, hline]; rfl
      have hbefore : call.written = 0 := if_neg fun hw => hpoint hw.1
      have hafter : ({ call with point := .done } : SlogThread).written = 1 := if_pos ⟨rfl, hsome⟩
      simp [hbefore, hafter]
    · rw [if_neg he]
      simp [Ne.symm he]

theorem SlogTold.calls_push (h : SlogTold s ws) (hmoves : SlogMoves s.coarse s'.coarse x)
    (hcalls : s'.calls = s.calls ++ [call]) (hfiles : s'.dir.files = s.dir.files)
    (hpoint : call.point = .mutexLock) : SlogTold s' ws := by
  have hzero : call.written = 0 := if_neg fun hw => by
    rw [hpoint] at hw
    cases hw.1
  refine h.frame hmoves hfiles (fun c1 call1 h1 => ⟨call1, ?_, rfl⟩) fun c1 => ?_
  · rw [hcalls, get_push]
    exact Or.inl h1
  · rw [hcalls]
    rcases Nat.lt_or_ge c1 s.calls.length with hlt | hge
    · rw [List.getElem?_append_left hlt]
    · rw [List.getElem?_append_right hge, List.getElem?_eq_none hge]
      cases c1 - s.calls.length with
      | zero => exact hzero
      | succ n => rfl

theorem SlogTold.step (h : SlogTold s ws) {e : SlogThreadEvent}
    (hstep : slogThreadStep filename s e = some (s', x)) :
    SlogTold s' (ws ++ slogWrote e x) := by
  have hmoves := slogThreadStep_moves hstep
  have hfresh := h.fresh s.dir.next (Nat.le_refl _)
  have hquiet : slogWrote e x = [] → SlogTold s' ws → SlogTold s' (ws ++ slogWrote e x) :=
    fun hx ht => by rwa [hx, List.append_nil]
  have hsame : s'.calls = s.calls → s'.dir.files = s.dir.files → SlogTold s' ws :=
    fun hcalls hfiles => h.frame hmoves hfiles
      (fun c call hcall => ⟨call, hcalls.symm ▸ hcall, rfl⟩) fun c => by rw [hcalls]
  cases slogThreadStep_acts hstep with
  | «open» => exact hquiet rfl (hsame rfl (openCreate_files hfresh filename))
  | write | rotate => exact hquiet rfl (h.calls_push hmoves rfl rfl rfl)
  | @proceed c ok call proc _ _ _ point _ hcall hproc hdoes =>
    have hpoint := (hdoes.turn hcall hproc).notDone
    rcases hdoes.wrote hfresh with ⟨hx, hfiles, hdone⟩ | ⟨line, hx, rfl, rfl, hline⟩
    · exact hquiet (by rw [slogWrote, hx]; rfl) (h.goes hmoves hcall rfl hfiles hpoint hdone)
    · have hopened : proc.log.fd ∈ s.opened :=
        SlogThreads.mem_opened.mpr (Or.inl ⟨proc, List.mem_of_getElem? hproc, rfl⟩)
      rw [slogWrote, hx]
      exact h.returns hmoves hcall rfl rfl hopened hpoint hline
  | _ => exact hquiet rfl (hsame rfl rfl)

end Log

end SimpleKit
