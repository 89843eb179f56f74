import Mathlib.Data.List.Induction
import SimpleKit.Io.Sockets

set_option autoImplicit false

namespace SimpleKit.Loop
open Runs

def SockTrace.sock : SockTrace → SockRef
  | .made h _ _ _ | .use h _ _ | .event h _ _ _ | .dgramMade h _ _ | .datagram h _ _ _ _
  | .sendto h _ _ _ | .set h _ _ | .closed h => h

def usesOf (h : SockRef) (l : List SockTrace) : List StreamUse :=
  l.filterMap fun e => match e with
    | .use h' use _ => if h' = h then some use else none
    | _ => none

/-- What these uses have returned, or called the user for. -/
def retsOf (h : SockRef) (l : List SockTrace) : List StreamRet :=
  l.filterMap fun e => match e with
    | .use h' _ ret => if h' = h then some ret else none
    | _ => none

def userOf (h : SockRef) (l : List SockTrace) : Option (Nat × Nat) :=
  l.foldl (fun user e => match e with
    | .made h' _ callback arg | .dgramMade h' callback arg | .set h' callback arg =>
      if h' = h then some (callback, arg) else user
    | .closed h' => if h' = h then none else user
    | _ => user) none

def madeOf (h : SockRef) (l : List SockTrace) : Option SioStreamType :=
  l.foldl (fun type e => match e with
    | .made h' type' _ _ => if h' = h then some type' else type
    | _ => type) none

/-- The user is called as was asked for last, and only for sockets that are open. -/
def SafeSock (l : List SockTrace) : SockTrace → Prop
  | .event h _ callback arg | .datagram h _ _ callback arg => userOf h l = some (callback, arg)
  | .use h _ _ | .sendto h _ _ _ | .set h _ _ | .closed h => (userOf h l).isSome
  | .made h _ _ _ | .dgramMade h _ _ => ∀ e ∈ l, e.sock ≠ h

def SockSafe (trace : List SockTrace) : Prop := ∀ l e, l ++ [e] <+: trace → SafeSock l e

/-- What was done to a stream is a run of the stream alone, which has led to `y`. -/
structure Lived (h : SockRef) (l : List SockTrace) (type : SioStreamType)
    (y : SimpleKit.SioStream) : Prop where
  ok : Along useStep UseOk (sioStreamMade type) (usesOf h l)
  run : run useStep (sioStreamMade type) (usesOf h l) = some (y, retsOf h l)

variable {h : SockRef} {l : List SockTrace} {e : SockTrace}

theorem sockSafe_append (hl : SockSafe l) (he : SafeSock l e) : SockSafe (l ++ [e]) := by
  intro l' e' hp
  rcases List.prefix_concat_iff.mp hp with heq | hp
  · obtain ⟨rfl, hlast⟩ := List.append_inj' heq rfl
    obtain rfl := List.head_eq_of_cons_eq hlast
    exact he
  · exact hl l' e' hp

theorem userOf_append : userOf h (l ++ [e]) = match e with
    | .made h' _ callback arg | .dgramMade h' callback arg | .set h' callback arg =>
      if h' = h then some (callback, arg) else userOf h l
    | .closed h' => if h' = h then none else userOf h l
    | _ => userOf h l := by
  rw [userOf, List.foldl_append]
  rfl

theorem madeOf_append : madeOf h (l ++ [e]) = match e with
    | .made h' type _ _ => if h' = h then some type else madeOf h l
    | _ => madeOf h l := by
  rw [madeOf, List.foldl_append]
  rfl

theorem usesOf_append : usesOf h (l ++ [e]) = usesOf h l ++ match e with
    | .use h' use _ => if h' = h then [use] else []
    | _ => [] := by
  rw [usesOf, List.filterMap_append]
  congr 1
  cases e with
  | use h' use ret =>
    dsimp only
    split
    · next heq => simp [heq]
    · next hne => simp [hne]
  | _ => rfl

theorem retsOf_append : retsOf h (l ++ [e]) = retsOf h l ++ match e with
    | .use h' _ ret => if h' = h then [ret] else []
    | _ => [] := by
  rw [retsOf, List.filterMap_append]
  congr 1
  cases e with
  | use h' use ret =>
    dsimp only
    split
    · next heq => simp [heq]
    · next hne => simp [hne]
  | _ => rfl

theorem told_other (hne : e.sock ≠ h) : usesOf h (l ++ [e]) = usesOf h l ∧
    retsOf h (l ++ [e]) = retsOf h l ∧ userOf h (l ++ [e]) = userOf h l ∧
      madeOf h (l ++ [e]) = madeOf h l := by
  rw [usesOf_append, retsOf_append, userOf_append, madeOf_append]
  cases e <;> simp_all [SockTrace.sock]

theorem untold (hnew : ∀ e ∈ l, e.sock ≠ h) : usesOf h l = [] ∧ retsOf h l = [] ∧
    userOf h l = none ∧ madeOf h l = none := by
  induction l using List.reverseRecOn with
  | nil => exact ⟨rfl, rfl, rfl, rfl⟩
  | append_singleton l e ih =>
    obtain ⟨h1, h2, h3, h4⟩ := told_other (l := l) (hnew e (by simp))
    rw [h1, h2, h3, h4]
    exact ih fun e' he' => hnew e' (List.mem_append_left _ he')

theorem Lived.other {type : SioStreamType} {y : SimpleKit.SioStream} (hl : Lived h l type y)
    (hne : e.sock ≠ h) : Lived h (l ++ [e]) type y := by
  obtain ⟨h1, h2, -, -⟩ := told_other (l := l) hne
  exact ⟨h1.symm ▸ hl.ok, by rw [h1, h2]; exact hl.run⟩

theorem Lived.idle {type : SioStreamType} {y : SimpleKit.SioStream} (hl : Lived h l type y)
    (he : ∀ h' use ret, e ≠ .use h' use ret) : Lived h (l ++ [e]) type y := by
  have h1 : usesOf h (l ++ [e]) = usesOf h l := by
    rw [usesOf_append]
    cases e <;> simp_all
  have h2 : retsOf h (l ++ [e]) = retsOf h l := by
    rw [retsOf_append]
    cases e <;> simp_all
  exact ⟨h1.symm ▸ hl.ok, by rw [h1, h2]; exact hl.run⟩

theorem Lived.use {type : SioStreamType} {y y' : SimpleKit.SioStream} (hl : Lived h l type y)
    {use : StreamUse} {ret : StreamRet} (hok : UseOk y use)
    (hstep : useStep y use = some (y', ret)) : Lived h (l ++ [.use h use ret]) type y' := by
  have h1 : usesOf h (l ++ [.use h use ret]) = usesOf h l ++ [use] := by
    rw [usesOf_append]
    simp
  have h2 : retsOf h (l ++ [.use h use ret]) = retsOf h l ++ [ret] := by
    rw [retsOf_append]
    simp
  refine ⟨h1.symm ▸ Along.append hl.ok hl.run ⟨hok, fun _ _ _ => trivial⟩, ?_⟩
  rw [h1, h2, run_append hl.run, run_cons hstep]
  rfl

theorem Lived.start (hnew : ∀ e ∈ l, e.sock ≠ h) (type : SioStreamType) (callback arg : Nat) :
    Lived h (l ++ [.made h type callback arg]) type (sioStreamMade type) := by
  have h1 : usesOf h (l ++ [.made h type callback arg]) = [] := by
    rw [usesOf_append, (untold hnew).1]
    rfl
  have h2 : retsOf h (l ++ [.made h type callback arg]) = [] := by
    rw [retsOf_append, (untold hnew).2.1]
    rfl
  exact ⟨by rw [h1]; trivial, by rw [h1, h2]; rfl⟩

end SimpleKit.Loop
