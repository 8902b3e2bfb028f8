import Mathlib.Data.List.Nodup
import Mathlib.Data.List.Perm.Basic

/-!
# Scanning a changing set shard by shard

A set of keys is spread over shards, and a scan reads the shards one after the other while the
set may change between two reads.  What such a scan promises is `Regular`: it finds no key twice,
misses no key that stayed throughout, and finds no key that was never there.
-/

namespace ShardScan

variable {σ K : Type*} {present : σ → K → Prop} {shardOf : K → ℕ} {visited : List σ}
  {shard : ℕ} {keys found : List K} {s : σ}

/-- What a scan has found after the shards below `shards`, in the states `visited` meanwhile. -/
structure Regular (present : σ → K → Prop) (shardOf : K → ℕ) (visited : List σ) (shards : ℕ)
    (keys : List K) : Prop where
  nodup : keys.Nodup
  scanned : ∀ key ∈ keys, shardOf key < shards
  complete : ∀ key, shardOf key < shards → (∀ s ∈ visited, present s key) → key ∈ keys
  sound : ∀ key ∈ keys, ∃ s ∈ visited, present s key

theorem Regular.start (present : σ → K → Prop) (shardOf : K → ℕ) (visited : List σ) :
    Regular present shardOf visited 0 [] where
  nodup := List.nodup_nil
  scanned _ member := by cases member
  complete _ below := absurd below (Nat.not_lt_zero _)
  sound _ member := by cases member

/-- The set changes between two reads. -/
theorem Regular.moved (regular : Regular present shardOf visited shard keys) (s : σ) :
    Regular present shardOf (visited ++ [s]) shard keys where
  nodup := regular.nodup
  scanned := regular.scanned
  complete key below stays :=
    regular.complete key below fun t member => stays t (List.mem_append_left _ member)
  sound key member := by
    obtain ⟨t, visitedThen, there⟩ := regular.sound key member
    exact ⟨t, List.mem_append_left _ visitedThen, there⟩

/-- The next shard is read in one of the visited states. -/
theorem Regular.read (regular : Regular present shardOf visited shard keys) (now : s ∈ visited)
    (nodup : found.Nodup) (mem_found : ∀ key, key ∈ found ↔ present s key ∧ shardOf key = shard) :
    Regular present shardOf visited (shard + 1) (keys ++ found) where
  nodup := by
    refine List.nodup_append.mpr ⟨regular.nodup, nodup, ?_⟩
    intro key old other new same
    subst same
    have earlier := regular.scanned key old
    have here := ((mem_found key).mp new).2
    omega
  scanned key member := by
    rcases List.mem_append.mp member with old | new
    · have earlier := regular.scanned key old
      omega
    · have here := ((mem_found key).mp new).2
      omega
  complete key below stays := by
    rcases Nat.lt_succ_iff_lt_or_eq.mp below with earlier | here
    · exact List.mem_append_left _ (regular.complete key earlier stays)
    · exact List.mem_append_right _ ((mem_found key).mpr ⟨stays s now, here⟩)
  sound key member := by
    rcases List.mem_append.mp member with old | new
    · exact regular.sound key old
    · exact ⟨s, now, ((mem_found key).mp new).1⟩

/-- When nothing changes, a scan of all shards finds exactly the set. -/
theorem Regular.mem_iff (regular : Regular present shardOf visited shard keys)
    (all : ∀ key, shardOf key < shard)
    (quiet : ∀ t ∈ visited, ∀ key, present t key ↔ present s key) (key : K) :
    key ∈ keys ↔ present s key := by
  constructor
  · intro member
    obtain ⟨t, visitedThen, there⟩ := regular.sound key member
    exact (quiet t visitedThen key).mp there
  · intro there
    exact regular.complete key (all key) fun t visitedThen => (quiet t visitedThen key).mpr there

end ShardScan
