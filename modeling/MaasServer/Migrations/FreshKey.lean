import MaasServer.Migrations.OwnerDataKey
import Mathlib.Data.Finset.Card

/-!
# The deduplicating loop

After `node_keys.remove(orig_key)` the migration runs

    new_key = REPLACE_RE.sub("_", entry.key)
    while new_key in node_keys:
        new_key += "_"

`freshKey nodeKeys newKey` is that loop.  It is well founded because `node_keys`
is finite: every candidate it rejects is a member of the set, and the candidates
grow by one character each time.

## The trace and its bound

`exists_freshKey_eq` is the trace of a run: the loop stops at
`newKey ++ "_" * j`, and every shorter candidate was rejected because it was in
the set.  The rejected candidates have pairwise different lengths, so they are
`j` distinct members of the set and `j ≤ |node_keys|`
(`exists_freshKey_eq`, `le_card_of_rejected`).

## Probing in another order

The candidates of one start form a ray `k, k_, k__, …`, and the loop takes the
first free slot on it: this is linear probing with string keys.  Two facts about
inserting into the set drive the order-independence of the migration:

* `freshKey_insert_of_ne`: inserting anything but the slot the loop takes does
  not change where it stops;
* `freshKey_insert_freshKey`: once that slot is taken, the loop moves on to the
  next free slot after it.

`insert_freshKey_comm` combines them into the exchange law of linear probing:
two keys probed one after the other occupy the same two slots in either order.
-/

namespace MaasServer
namespace Migrations

/-- The `while new_key in node_keys: new_key += "_"` loop. -/
def freshKey (nodeKeys : Finset String) (newKey : String) : String :=
  if newKey ∈ nodeKeys then freshKey nodeKeys (newKey ++ "_") else newKey
termination_by (nodeKeys.filter fun k => newKey.length ≤ k.length).card
decreasing_by
  have h1 : "_".length = 1 := rfl
  refine Finset.card_lt_card ⟨fun k hk => ?_, fun hsub => ?_⟩
  · simp only [Finset.mem_filter, String.length_append, h1] at hk ⊢
    exact ⟨hk.1, by omega⟩
  · have := hsub (Finset.mem_filter.mpr ⟨‹newKey ∈ nodeKeys›, le_rfl⟩)
    simp only [Finset.mem_filter, String.length_append, h1] at this
    omega

variable {S : Finset String} {k x : String}

theorem freshKey_of_mem (h : k ∈ S) : freshKey S k = freshKey S (k ++ "_") := by
  rw [freshKey, if_pos h]

theorem freshKey_of_not_mem (h : k ∉ S) : freshKey S k = k := by
  rw [freshKey, if_neg h]

/-- The loop ends on a key that is not in the set. -/
theorem freshKey_not_mem : freshKey S k ∉ S := by
  induction k using freshKey.induct S with
  | case1 k h ih => rwa [freshKey_of_mem h]
  | case2 k h => rwa [freshKey_of_not_mem h]

theorem append_underscores_succ (k : String) (i : Nat) :
    k ++ "_" ++ underscores i = k ++ underscores (i + 1) := by
  simp [String.ext_iff, underscores, List.replicate_succ]

@[simp] theorem length_append_underscores (k : String) (i : Nat) :
    (k ++ underscores i).length = k.length + i := by
  rw [String.length_append, length_underscores]

/-- **The trace of the loop.**  It stops after `j` iterations at `k ++ "_" * j`,
and each of the `j` candidates before was in the set. -/
theorem exists_freshKey_eq (S : Finset String) (k : String) :
    ∃ j, freshKey S k = k ++ underscores j ∧ ∀ i < j, k ++ underscores i ∈ S := by
  induction k using freshKey.induct S with
  | case1 k h ih =>
    obtain ⟨j, hj, hrej⟩ := ih
    refine ⟨j + 1, by rw [freshKey_of_mem h, hj, append_underscores_succ], fun i hi => ?_⟩
    cases i with
    | zero => simpa [String.ext_iff] using h
    | succ i => simpa [append_underscores_succ] using hrej i (by omega)
  | case2 k h => exact ⟨0, by simp [String.ext_iff, freshKey_of_not_mem h], by simp⟩

/-- Rejected candidates are distinct members of the set, so there are at most
`|S|` of them. -/
theorem le_card_of_rejected {j : Nat} (h : ∀ i < j, k ++ underscores i ∈ S) : j ≤ S.card := by
  have hinj : Function.Injective fun i => k ++ underscores i := fun a b hab => by
    simpa using congrArg String.length hab
  calc j = ((Finset.range j).image fun i => k ++ underscores i).card := by
        rw [Finset.card_image_of_injective _ hinj, Finset.card_range]
    _ ≤ S.card := Finset.card_le_card fun y hy => by
        obtain ⟨i, hi, rfl⟩ := Finset.mem_image.mp hy
        exact h i (Finset.mem_range.mp hi)

theorem length_le_freshKey : k.length ≤ (freshKey S k).length := by
  obtain ⟨j, hj, -⟩ := exists_freshKey_eq S k
  simp [hj]

theorem ne_freshKey_append_underscore : k ≠ freshKey S (k ++ "_") := fun h => by
  have := congrArg String.length h ▸ (length_le_freshKey (S := S) (k := k ++ "_"))
  simp only [String.length_append] at this
  exact absurd this (by rw [show "_".length = 1 from rfl]; omega)

/-! ## Inserting into the set -/

/-- Inserting a key other than the slot the loop takes leaves the loop's result. -/
theorem freshKey_insert_of_ne (h : x ≠ freshKey S k) : freshKey (insert x S) k = freshKey S k := by
  induction k using freshKey.induct S with
  | case1 k hk ih =>
    rw [freshKey_of_mem hk] at h ⊢
    rw [freshKey_of_mem (Finset.mem_insert_of_mem hk), ih h]
  | case2 k hk =>
    rw [freshKey_of_not_mem hk] at h ⊢
    exact freshKey_of_not_mem (by simp [hk, Ne.symm h])

/-- Once its slot is taken, the loop stops at the next free slot after it. -/
theorem freshKey_insert_freshKey :
    freshKey (insert (freshKey S k) S) k = freshKey S (freshKey S k ++ "_") := by
  induction k using freshKey.induct S with
  | case1 k hk ih => rw [freshKey_of_mem hk, freshKey_of_mem (Finset.mem_insert_of_mem hk), ih]
  | case2 k hk =>
    rw [freshKey_of_not_mem hk, freshKey_of_mem (Finset.mem_insert_self k S),
      freshKey_insert_of_ne ne_freshKey_append_underscore]

/-- **The exchange law of linear probing.**  Probing `a` then `b` fills the same
two slots as probing `b` then `a`. -/
theorem insert_freshKey_comm (S : Finset String) (a b : String) :
    insert (freshKey (insert (freshKey S a) S) b) (insert (freshKey S a) S) =
      insert (freshKey (insert (freshKey S b) S) a) (insert (freshKey S b) S) := by
  by_cases hab : freshKey S a = freshKey S b
  · rw [hab, freshKey_insert_freshKey, ← hab, freshKey_insert_freshKey, hab]
  · rw [freshKey_insert_of_ne hab, freshKey_insert_of_ne (Ne.symm hab), Finset.Insert.comm]

end Migrations
end MaasServer
