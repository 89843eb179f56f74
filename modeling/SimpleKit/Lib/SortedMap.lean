import SimpleKit.Lib.Sorted

/-!
A finite map as the list of its entries in key order, the order being part of the
value. It is the specification of containers that also answer for the first, the last
and the rank of a key.
-/
set_option autoImplicit false

open SortedBy

structure SortedMap (K V : Type) [LinearOrder K] where
  entries : List (K × V)
  sorted : Sorted Prod.fst entries

namespace SortedMap
variable {K V : Type} [LinearOrder K]

def empty : SortedMap K V := ⟨[], List.Pairwise.nil⟩

def keys (m : SortedMap K V) : List K := m.entries.map Prod.fst

instance (m : SortedMap K V) (k : K) : Decidable (k ∈ m.keys) :=
  inferInstanceAs (Decidable (k ∈ m.entries.map Prod.fst))

def lookup (m : SortedMap K V) (k : K) : Option V :=
  (m.entries.find? fun e => e.1 = k).map Prod.snd

def insert (m : SortedMap K V) (k : K) (v : V) : SortedMap K V :=
  if h : k ∈ m.keys then m else
    { entries := below Prod.fst k m.entries ++ (k, v) :: above Prod.fst k m.entries
      sorted := sorted_insert m.sorted rfl fun _ he hk => h (hk ▸ List.mem_map_of_mem he) }

def erase (m : SortedMap K V) (k : K) : SortedMap K V where
  entries := m.entries.filter fun e => e.1 ≠ k
  sorted := m.sorted.filter _

def first (m : SortedMap K V) : Option (K × V) := m.entries.head?

def last (m : SortedMap K V) : Option (K × V) := m.entries.getLast?

def size (m : SortedMap K V) : Nat := m.entries.length

def rank (m : SortedMap K V) (k : K) : Nat := (below Prod.fst k m.entries).length

theorem entries_insert {m : SortedMap K V} {k : K} (h : k ∉ m.keys) (v : V) :
    (m.insert k v).entries =
      below Prod.fst k m.entries ++ (k, v) :: above Prod.fst k m.entries := by
  rw [insert, dif_neg h]

theorem lookup_eq_some {m : SortedMap K V} {k : K} {v : V} :
    m.lookup k = some v ↔ (k, v) ∈ m.entries := by
  rw [lookup, Option.map_eq_some_iff]
  constructor
  · rintro ⟨e, hfind, rfl⟩
    have hk : e.1 = k := by simpa using List.find?_some hfind
    subst hk
    exact List.mem_of_find?_eq_some hfind
  · intro hmem
    cases hfind : m.entries.find? fun e => e.1 = k with
    | none => exact absurd (decide_eq_true rfl) (List.find?_eq_none.mp hfind _ hmem)
    | some e =>
      have hk : e.1 = k := by simpa using List.find?_some hfind
      have he := m.sorted.key_inj (List.mem_of_find?_eq_some hfind) hmem hk
      exact ⟨e, rfl, by rw [he]⟩

theorem insert_perm {m : SortedMap K V} {k : K} (h : k ∉ m.keys) (v : V) :
    (m.insert k v).entries.Perm ((k, v) :: m.entries) := by
  rw [entries_insert h]
  refine List.perm_middle.trans ?_
  rw [below_append_above m.sorted]

theorem mem_keys_insert {m : SortedMap K V} {k k' : K} (h : k ∉ m.keys) (v : V) :
    k' ∈ (m.insert k v).keys ↔ k' = k ∨ k' ∈ m.keys := by
  rw [keys, ((insert_perm h v).map Prod.fst).mem_iff, List.map_cons, List.mem_cons]
  rfl

section Listed
variable {α : Type} {key : α → K} {value : α → V} {l : List α} {m : SortedMap K V}

/-- The map lists the elements of `l`, as a container stores them. -/
def Lists (m : SortedMap K V) (key : α → K) (value : α → V) (l : List α) : Prop :=
  m.entries = l.map fun x => (key x, value x)

theorem Lists.mem_keys (h : m.Lists key value l) {k : K} :
    k ∈ m.keys ↔ ∃ x ∈ l, key x = k := by
  rw [keys, h, List.map_map]
  exact List.mem_map

theorem Lists.lookup (h : m.Lists key value l) (k : K) :
    m.lookup k = (l.find? fun x => key x = k).map value := by
  rw [SortedMap.lookup, h, List.find?_map, Option.map_map]
  rfl

theorem Lists.rank (h : m.Lists key value l) (k : K) : m.rank k = (below key k l).length := by
  rw [SortedMap.rank, h, below, List.filter_map, List.length_map]
  rfl

theorem Lists.insert (h : m.Lists key value l) {key' : α → K} {value' : α → V} {x : α}
    (hk : key' x ∉ m.keys) (hold : ∀ y ∈ l, key' y = key y ∧ value' y = value y) :
    (m.insert (key' x) (value' x)).Lists key' value'
      (below key (key' x) l ++ x :: above key (key' x) l) := by
  have hsel : ∀ q : K → Bool, ((l.map fun y => (key y, value y)).filter fun e => q e.1) =
      (l.filter fun y => q (key y)).map fun y => (key' y, value' y) := by
    intro q
    rw [List.filter_map]
    refine List.map_congr_left fun y hy => ?_
    obtain ⟨h1, h2⟩ := hold y (List.mem_filter.mp hy).1
    rw [h1, h2]
  have hb := hsel fun k => decide (k < key' x)
  have ha := hsel fun k => decide (key' x ≤ k)
  rw [Lists, entries_insert hk, h, List.map_append, List.map_cons]
  exact congrArg₂ (fun u w => u ++ (key' x, value' x) :: w) hb ha

theorem Lists.erase {lo hi : List α} {x : α} (h : m.Lists key value (lo ++ x :: hi))
    {key' : α → K} {value' : α → V}
    (hold : ∀ y ∈ lo ++ hi, key' y = key y ∧ value' y = value y) :
    (m.erase (key x)).Lists key' value' (lo ++ hi) := by
  have hsorted : Sorted key (lo ++ x :: hi) := by
    have hs := m.sorted
    rw [h, Sorted, List.pairwise_map] at hs
    exact hs
  obtain ⟨-, hx, hlo⟩ := List.pairwise_append.mp hsorted
  have hne : ∀ y ∈ lo ++ hi, key y ≠ key x := by
    intro y hy
    rcases List.mem_append.mp hy with hy | hy
    · exact ne_of_lt (hlo y hy x (by simp))
    · exact ne_of_gt ((List.pairwise_cons.mp hx).1 y hy)
  have hsel : (lo ++ x :: hi).filter ((fun e : K × V => decide (e.1 ≠ key x)) ∘
      fun y => (key y, value y)) = lo ++ hi := by
    rw [List.filter_append, List.filter_cons_of_neg (by simp), ← List.filter_append,
      List.filter_eq_self]
    intro y hy
    simpa using hne y hy
  have hentries : (m.erase (key x)).entries = m.entries.filter fun e => e.1 ≠ key x := rfl
  rw [Lists, hentries, h, List.filter_map, hsel]
  refine List.map_congr_left fun y hy => ?_
  obtain ⟨h1, h2⟩ := hold y hy
  rw [h1, h2]

end Listed

end SortedMap
