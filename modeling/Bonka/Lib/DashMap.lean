import Mathlib.Algebra.Order.Ring.Nat
import Mathlib.Data.List.AList
import Mathlib.Data.List.Perm.Basic

/-!
# A concurrent hash map at the granularity of its calls

`DashMap K V` is the contents of a concurrent hash map: finitely many entries with distinct keys
(the `AList` of Mathlib, whose `lookup`, `insert` and `erase` are the map's `get`, `insert` and
`remove`).  Iteration meets every entry once, in an order the map does not promise, so each
iteration takes that order as an argument (`IterOrder`).
-/

/-- The contents of a concurrent hash map. -/
abbrev DashMap (K V : Type) : Type := AList fun _ : K => V

/-- The order in which one iteration meets the entries it is given. -/
structure IterOrder (α : Type) where
  arrange : List α → List α
  perm : ∀ entries, (arrange entries).Perm entries

/-- The order the entries are stored in. -/
instance {α : Type} : Inhabited (IterOrder α) := ⟨⟨id, fun _ => .refl _⟩⟩

namespace DashMap

variable {K V : Type}

/-! ## Iteration -/

/-- The stored entries. -/
def toList (m : DashMap K V) : List (K × V) := m.entries.map fun entry => (entry.1, entry.2)

/-- `iter()`: every entry once, in the order of this iteration. -/
def iter (m : DashMap K V) (order : IterOrder (K × V)) : List (K × V) := order.arrange m.toList

/-- `len()`. -/
def len (m : DashMap K V) : ℕ := m.entries.length

theorem keys_toList (m : DashMap K V) : m.toList.map Prod.fst = m.keys := by
  rw [toList, List.map_map]
  rfl

theorem keys_iter_perm (m : DashMap K V) (order : IterOrder (K × V)) :
    ((m.iter order).map Prod.fst).Perm m.keys := by
  rw [iter, ← keys_toList]
  exact (order.perm m.toList).map Prod.fst

/-- An iteration meets no key twice. -/
theorem nodup_keys_iter (m : DashMap K V) (order : IterOrder (K × V)) :
    ((m.iter order).map Prod.fst).Nodup :=
  (keys_iter_perm m order).nodup_iff.mpr m.keys_nodup

/-! ## Shards -/

/-- The entries of one shard. -/
def shardEntries (m : DashMap K V) (shardOf : K → ℕ) (shard : ℕ) : List (K × V) :=
  m.toList.filter fun entry => shardOf entry.1 = shard

/-- Take every entry out of one shard. -/
def clearShard (m : DashMap K V) (shardOf : K → ℕ) (shard : ℕ) : DashMap K V where
  entries := m.entries.filter fun entry => shardOf entry.1 ≠ shard
  nodupKeys := m.nodupKeys.sublist List.filter_sublist

variable {α : Type} {shards : ℕ}

/-- The entries of the first shards, shard by shard. -/
theorem flatMap_range_perm (shardOf : α → ℕ) (within : IterOrder α) (entries : List α)
    (shards : ℕ) :
    ((List.range shards).flatMap fun shard =>
      within.arrange (entries.filter (shardOf · = shard))).Perm
        (entries.filter (shardOf · < shards)) := by
  induction shards with
  | zero => simp
  | succ shards ih =>
      have split := List.filter_append_perm (fun entry => decide (shardOf entry < shards))
        (entries.filter (shardOf · < shards + 1))
      have earlier : (entries.filter (shardOf · < shards + 1)).filter (shardOf · < shards) =
          entries.filter (shardOf · < shards) := by
        rw [List.filter_filter]
        apply List.filter_congr
        intro entry _
        rw [Bool.eq_iff_iff]
        simp only [Bool.and_eq_true, decide_eq_true_eq]
        omega
      have last : ((entries.filter (shardOf · < shards + 1)).filter
          fun entry => !decide (shardOf entry < shards)) =
          entries.filter (shardOf · = shards) := by
        rw [List.filter_filter]
        apply List.filter_congr
        intro entry _
        rw [Bool.eq_iff_iff]
        simp only [Bool.and_eq_true, Bool.not_eq_true', decide_eq_false_iff_not,
          decide_eq_true_eq]
        omega
      rw [earlier, last] at split
      rw [List.range_succ, List.flatMap_append, List.flatMap_singleton]
      exact (ih.append (within.perm _)).trans split

/-- The order of an iteration that takes one shard after the other. -/
def shardOrder (shardOf : α → ℕ) (shards : ℕ) (bounded : ∀ a, shardOf a < shards)
    (within : IterOrder α) : IterOrder α where
  arrange entries := (List.range shards).flatMap fun shard =>
    within.arrange (entries.filter (shardOf · = shard))
  perm entries := by
    have all : entries.filter (shardOf · < shards) = entries :=
      List.filter_eq_self.mpr fun entry _ => by simpa using bounded entry
    have perm := flatMap_range_perm shardOf within entries shards
    rwa [all] at perm

variable {shardOf : K → ℕ} (bounded : ∀ key, shardOf key < shards)

include bounded in
/-- `len()` may count one shard after the other. -/
theorem sum_shardEntries (m : DashMap K V) :
    ((List.range shards).map fun shard => (m.shardEntries shardOf shard).length).sum = m.len := by
  have perm := (shardOrder (fun entry : K × V => shardOf entry.1) shards (fun _ => bounded _)
    default).perm m.toList
  have lengths := perm.length_eq
  simp only [shardOrder, List.length_flatMap] at lengths
  rw [toList, List.length_map] at lengths
  exact lengths

theorem entries_foldl_clearShard (m : DashMap K V) (is : List ℕ) :
    (is.foldl (fun m shard => m.clearShard shardOf shard) m).entries =
      m.entries.filter fun entry => shardOf entry.1 ∉ is := by
  induction is generalizing m with
  | nil => simp
  | cons shard is ih =>
      rw [List.foldl_cons, ih, clearShard, List.filter_filter]
      apply List.filter_congr
      intro entry _
      simp only [List.mem_cons, not_or, Bool.decide_and, ne_eq]
      exact Bool.and_comm _ _

include bounded in
/-- Clearing every shard leaves nothing. -/
theorem foldl_clearShard (m : DashMap K V) :
    (List.range shards).foldl (fun m shard => m.clearShard shardOf shard) m = ∅ := by
  apply AList.ext
  rw [entries_foldl_clearShard, AList.empty_entries, List.filter_eq_nil_iff]
  intro entry _
  simpa using bounded entry.1

variable [DecidableEq K] {m : DashMap K V} {key other : K} {value : V}

theorem mem_toList : (key, value) ∈ m.toList ↔ m.lookup key = some value := by
  rw [← Option.mem_def, AList.mem_lookup_iff, toList, List.mem_map]
  constructor
  · intro holds
    rcases holds with ⟨⟨k, v⟩, member, same⟩
    cases same
    exact member
  · intro member
    exact ⟨_, member, rfl⟩

theorem mem_iter {order : IterOrder (K × V)} :
    (key, value) ∈ m.iter order ↔ m.lookup key = some value := by
  rw [iter, (order.perm _).mem_iff, mem_toList]

/-! ## Lookup after a write -/

theorem lookup_insert_if (m : DashMap K V) (key other : K) (value : V) :
    (m.insert key value).lookup other = if other = key then some value else m.lookup other := by
  by_cases same : other = key
  · rw [if_pos same, same, AList.lookup_insert]
  · rw [if_neg same, AList.lookup_insert_ne same]

theorem lookup_erase_if (m : DashMap K V) (key other : K) :
    (m.erase key).lookup other = if other = key then none else m.lookup other := by
  by_cases same : other = key
  · rw [if_pos same, same, AList.lookup_erase]
  · rw [if_neg same, AList.lookup_erase_ne same]

theorem mem_of_lookup (found : m.lookup key = some value) : key ∈ m :=
  AList.lookup_isSome.mp (by rw [found]; rfl)

theorem exists_lookup (member : key ∈ m) : ∃ value, m.lookup key = some value :=
  Option.isSome_iff_exists.mp (AList.lookup_isSome.mpr member)

/-- A map that finds nothing has no entry. -/
theorem eq_empty (absent : ∀ key, m.lookup key = none) : m = ∅ := by
  apply AList.ext
  rw [AList.empty_entries, List.eq_nil_iff_forall_not_mem]
  intro entry member
  have found : m.lookup entry.1 = some entry.2 := AList.mem_lookup_iff.mpr member
  rw [absent] at found
  cases found

theorem erase_of_lookup (absent : m.lookup key = none) : m.erase key = m := by
  apply AList.ext
  exact List.kerase_of_notMem_keys (AList.lookup_eq_none.mp absent)

theorem lookup_of_erase (found : (m.erase key).lookup other = some value) :
    other ≠ key ∧ m.lookup other = some value := by
  rw [lookup_erase_if] at found
  split at found
  · cases found
  · exact ⟨‹_›, found⟩

/-! ## What a write does to the shards -/

variable {shard : ℕ}

theorem map_kerase (key : K) (entries : List (Sigma fun _ : K => V))
    (distinct : entries.NodupKeys) :
    (entries.kerase key).map (fun entry => (entry.1, entry.2)) =
      (entries.map fun entry => (entry.1, entry.2)).filter fun entry => entry.1 ≠ key := by
  induction entries with
  | nil => rfl
  | cons entry entries ih =>
      obtain ⟨k, v⟩ := entry
      obtain ⟨fresh, distinct⟩ := List.nodupKeys_cons.mp distinct
      by_cases same : key = k
      · subst same
        have dropped : List.kerase key ((⟨key, v⟩ : Sigma fun _ : K => V) :: entries) = entries :=
          List.kerase_cons_eq rfl
        rw [dropped, List.map_cons, List.filter_cons_of_neg (by simp)]
        refine (List.filter_eq_self.mpr fun entry member => ?_).symm
        obtain ⟨stored, there, rfl⟩ := List.mem_map.mp member
        simp only [ne_eq, decide_not, Bool.not_eq_true', decide_eq_false_iff_not]
        intro same
        have absent : key ∉ entries.keys := fresh
        rw [← same] at absent
        exact absent (List.mem_keys_of_mem there)
      · rw [List.kerase_cons_ne same, List.map_cons, ih distinct, List.map_cons,
          List.filter_cons_of_pos (by simpa using Ne.symm same)]

theorem toList_erase (m : DashMap K V) (key : K) :
    toList (m.erase key) = m.toList.filter fun entry => entry.1 ≠ key :=
  map_kerase key m.entries m.nodupKeys

theorem toList_insert (m : DashMap K V) (key : K) (value : V) :
    toList (m.insert key value) = (key, value) :: m.toList.filter fun entry => entry.1 ≠ key := by
  rw [toList, AList.entries_insert, List.map_cons, map_kerase key m.entries m.nodupKeys, toList]

theorem shardEntries_erase (m : DashMap K V) (key : K) :
    shardEntries (m.erase key) shardOf shard =
      (m.shardEntries shardOf shard).filter fun entry => entry.1 ≠ key := by
  rw [shardEntries, toList_erase, List.filter_filter, shardEntries, List.filter_filter]
  exact List.filter_congr fun entry _ => Bool.and_comm _ _

theorem shardEntries_erase_ne (m : DashMap K V) (other : shardOf key ≠ shard) :
    shardEntries (m.erase key) shardOf shard = m.shardEntries shardOf shard := by
  rw [shardEntries_erase]
  refine List.filter_eq_self.mpr fun entry member => ?_
  have here := (List.mem_filter.mp member).2
  simp only [decide_eq_true_eq] at here
  simp only [ne_eq, decide_not, Bool.not_eq_true', decide_eq_false_iff_not]
  intro same
  exact other (same ▸ here)

theorem shardEntries_insert (m : DashMap K V) (key : K) (value : V) :
    shardEntries (m.insert key value) shardOf shard =
      if shardOf key = shard then (key, value) :: shardEntries (m.erase key) shardOf shard
      else shardEntries (m.erase key) shardOf shard := by
  rw [shardEntries, toList_insert, List.filter_cons, shardEntries, toList_erase]
  simp only [decide_eq_true_eq]

omit [DecidableEq K] in
theorem shardEntries_clearShard (m : DashMap K V) (cleared : ℕ) :
    (m.clearShard shardOf cleared).shardEntries shardOf shard =
      if shard = cleared then [] else m.shardEntries shardOf shard := by
  have cut : (m.clearShard shardOf cleared).toList =
      m.toList.filter fun entry => shardOf entry.1 ≠ cleared := by
    rw [toList, clearShard, toList, List.filter_map]
    rfl
  rw [shardEntries, cut, List.filter_filter, shardEntries]
  split
  · subst shard
    rw [List.filter_eq_nil_iff]
    simp
  · rename_i other
    refine List.filter_congr fun entry _ => ?_
    simp only [ne_eq, decide_not, Bool.and_eq_left_iff_imp, decide_eq_true_eq]
    intro here
    simpa [here] using other

/-- What a map finds under a key is in the shard of the key. -/
theorem lookup_congr {m' : DashMap K V}
    (same : m.shardEntries shardOf (shardOf key) = m'.shardEntries shardOf (shardOf key)) :
    m.lookup key = m'.lookup key := by
  have stored : ∀ {m : DashMap K V} {value}, m.lookup key = some value ↔
      (key, value) ∈ m.shardEntries shardOf (shardOf key) := by
    intro m value
    rw [← mem_toList, shardEntries, List.mem_filter]
    simp
  ext value
  rw [stored, same, ← stored]

end DashMap
