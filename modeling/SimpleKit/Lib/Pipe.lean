import SimpleKit.Lib.Framing

set_option autoImplicit false

namespace Framing
variable {α β : Type} {next : List α → Next β} {encode : β → List α} {bs more : List β}
  {got l c : List α} {b : β} {n : Nat}

/-- The items `bs` are sent, the bytes `got` have come in, and of these `l` are not used yet. -/
structure Arrived (next : List α → Next β) (encode : β → List α) (bs : List β)
    (got l : List α) : Prop where
  encodes : Encodes next encode bs
  sent : got <+: (bs.map encode).flatten
  left : ∃ done rest, bs = done ++ rest ∧ got = (done.map encode).flatten ++ l

theorem Arrived.start (he : Encodes next encode bs) : Arrived next encode bs [] [] :=
  ⟨he, List.nil_prefix, [], bs, rfl, rfl⟩

theorem Arrived.grow (h : Arrived next encode bs got l) (he : Encodes next encode (bs ++ more)) :
    Arrived next encode (bs ++ more) got l := by
  obtain ⟨done, rest, rfl, hgot⟩ := h.left
  refine ⟨he, ?_, done, rest ++ more, List.append_assoc .., hgot⟩
  rw [List.map_append, List.flatten_append]
  exact h.sent.trans (List.prefix_append _ _)

theorem Arrived.read (h : Arrived next encode bs got l)
    (hc : got ++ c <+: (bs.map encode).flatten) : Arrived next encode bs (got ++ c) (l ++ c) := by
  obtain ⟨done, rest, hbs, hgot⟩ := h.left
  exact ⟨h.encodes, hc, done, rest, hbs, by rw [hgot, List.append_assoc]⟩

/-- What is seen at the front of the unused bytes is the next item that was sent. -/
theorem Arrived.item (hn : Stable next) (hnil : next [] = .wait)
    (h : Arrived next encode bs got l) (hl : next l = .item b n) :
    b ∈ bs ∧ Arrived next encode bs got (l.drop n) := by
  obtain ⟨done, rest, hbs, hgot⟩ := h.left
  have hpre : l <+: (rest.map encode).flatten := by
    have hsent := h.sent
    rw [hbs, hgot, List.map_append, List.flatten_append] at hsent
    exact (List.prefix_append_right_inj _).mp hsent
  obtain ⟨later, hlater⟩ := hpre
  cases rest with
  | nil =>
    rw [(List.append_eq_nil_iff.mp hlater).1, hnil] at hl
    cases hl
  | cons x rest =>
    have hx : x ∈ bs := by
      rw [hbs]
      exact List.mem_append_right done List.mem_cons_self
    rw [List.map_cons, List.flatten_cons] at hlater
    have hfull := hn.item l later b n hl
    rw [hlater, h.encodes x hx, Next.item.injEq] at hfull
    obtain ⟨rfl, rfl⟩ := hfull
    have hlen := hn.within l x _ hl
    have htake : l.take (encode x).length = encode x := by
      have happend : (l ++ later).take (encode x).length = l.take (encode x).length :=
        List.take_append_of_le_length hlen
      rw [← happend, hlater, List.take_left]
    have hcut : encode x ++ l.drop (encode x).length = l := by
      have htwo := List.take_append_drop (encode x).length l
      rwa [htake] at htwo
    refine ⟨hx, h.encodes, h.sent, done ++ [x], rest, by rw [hbs]; simp, ?_⟩
    rw [List.map_append, List.flatten_append, List.map_singleton, List.flatten_singleton,
      List.append_assoc, hcut, hgot]

/-- Of `l` the items `bs` are used up, one after another, and `r` is left. -/
inductive Cut (next : List α → Next β) : List α → List β → List α → Prop
  | nil {l : List α} : Cut next l [] l
  | cons {l r : List α} {b : β} {bs : List β} {n : Nat} : next l = .item b n →
      Cut next (l.drop n) bs r → Cut next l (b :: bs) r

variable {r : List α}

theorem Cut.snoc (h : Cut next l bs r) (hr : next r = .item b n) :
    Cut next l (bs ++ [b]) (r.drop n) := by
  induction h with
  | nil => exact .cons hr .nil
  | cons hl _ ih => exact .cons hl (ih hr)

theorem Cut.append (hn : Stable next) (h : Cut next l bs r) (m : List α) :
    Cut next (l ++ m) bs (r ++ m) := by
  induction h with
  | nil => exact .nil
  | @cons l r b bs n hl _ ih =>
    refine .cons (hn.item l m b n hl) ?_
    rwa [List.drop_append_of_le_length (hn.within l b n hl)]

theorem Cut.of_nil (hnil : next [] = .wait) (h : Cut next [] bs r) : r = [] := by
  cases h with
  | nil => rfl
  | cons hl _ => simp [hnil] at hl

theorem Cut.first (hnil : next [] = .wait) (h : Cut next l bs r) {all : List β}
    (hall : Cut next l all []) : bs <+: all := by
  induction h generalizing all with
  | nil => exact List.nil_prefix
  | @cons l r b bs n hl _ ih =>
    cases hall with
    | nil => simp [hnil] at hl
    | cons hl' hrest =>
      rw [hl, Next.item.injEq] at hl'
      obtain ⟨rfl, rfl⟩ := hl'
      exact (List.prefix_cons_inj b).mpr (ih hrest)

/-- What is cut out of what came in are the first of the items that were sent. -/
theorem Cut.sent (hn : Stable next) (hnil : next [] = .wait) {sent : List β}
    (he : Encodes next encode sent) (h : Cut next l bs r)
    (hl : l <+: (sent.map encode).flatten) : bs <+: sent := by
  induction h generalizing sent with
  | nil => exact List.nil_prefix
  | @cons l r b bs n hitem _ ih =>
    obtain ⟨later, hlater⟩ := hl
    cases sent with
    | nil =>
      rw [(List.append_eq_nil_iff.mp hlater).1, hnil] at hitem
      cases hitem
    | cons x sent =>
      rw [List.map_cons, List.flatten_cons] at hlater
      have hfull := hn.item l later b n hitem
      rw [hlater, he x List.mem_cons_self, Next.item.injEq] at hfull
      obtain ⟨rfl, rfl⟩ := hfull
      have hlen := hn.within l x _ hitem
      have hdrop : l.drop (encode x).length ++ later = (sent.map encode).flatten := by
        rw [← List.drop_append_of_le_length hlen, hlater, List.drop_left]
      have hrest := ih (fun b hb => he b (List.mem_cons_of_mem x hb)) ⟨later, hdrop⟩
      exact (List.prefix_cons_inj x).mpr hrest

end Framing
