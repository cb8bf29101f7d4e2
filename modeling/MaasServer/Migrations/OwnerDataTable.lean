import MaasServer.Migrations.OwnerDataKey
import Mathlib.Data.Finset.Card

/-!
# The `OwnerData` table as the migration sees it

`fix_ownerdata_keys` reads three columns of `maasserver_ownerdata`: the primary
key, `node_id` and `key`.  `entry.save()` writes back every column, but only the
key has changed, so the `value` column is left out of the model.

* `nodeKeyList rows n`: the keys of node `n`'s rows, in table order.
* `existingNodeKeys`: the dictionary `existing_node_keys` built before the loop.
* `save`: `entry.save()`, an `UPDATE` of the row with the entry's primary key.
* `OwnerDataTable`: a table whose primary keys are distinct and in which no node
  carries a key twice, the precondition the migration is run under.

The lemmas split a table around one row, `s ++ e :: t`: `save_split` says a save
touches that row only, and `nodeKeyList_split_perm` says the row's node carries
its key next to the keys of the other rows.
-/

namespace MaasServer
namespace Migrations

/-- A row of `maasserver_ownerdata`: primary key, node and key. -/
structure OwnerData where
  id : Nat
  nodeId : Nat
  key : String
  deriving DecidableEq, Repr

/-- The keys of node `n`'s rows, in table order. -/
def nodeKeyList (rows : List OwnerData) (n : Nat) : List String :=
  (rows.filter (·.nodeId = n)).map (·.key)

/-- `existing_node_keys`: `{node_id: set(keys)}` over
`values_list("node_id").annotate(keys=ArrayAgg("key"))`.  A node without rows has
no entry, and looking it up raises `KeyError`. -/
def existingNodeKeys (rows : List OwnerData) (n : Nat) : Option (Finset String) :=
  if nodeKeyList rows n = [] then none else some (nodeKeyList rows n).toFinset

/-- `entry.save()`: the row with the entry's primary key takes its values. -/
def save (rows : List OwnerData) (entry : OwnerData) : List OwnerData :=
  rows.map fun r => if r.id = entry.id then entry else r

/-- `OwnerData.objects.exclude(key__regex=r"^[\w.-]+$")`, in table order.  The
queryset has no `ORDER BY`, so the loop may visit these rows in any order. -/
def violating (db : WordClass) (rows : List OwnerData) : List OwnerData :=
  rows.filter fun r => !matchesKeyRegex db r.key

/-- A table the migration runs on: primary keys are distinct, and no node has
two rows with the same key. -/
structure OwnerDataTable where
  rows : List OwnerData
  ids_nodup : (rows.map (·.id)).Nodup
  keys_nodup : ∀ n, (nodeKeyList rows n).Nodup

@[simp] theorem nodeKeyList_nil (n : Nat) : nodeKeyList [] n = [] := rfl

theorem nodeKeyList_cons (r : OwnerData) (rows : List OwnerData) (n : Nat) :
    nodeKeyList (r :: rows) n =
      if r.nodeId = n then r.key :: nodeKeyList rows n else nodeKeyList rows n := by
  by_cases h : r.nodeId = n <;> simp [nodeKeyList, List.filter_cons, h]

theorem nodeKeyList_append (s t : List OwnerData) (n : Nat) :
    nodeKeyList (s ++ t) n = nodeKeyList s n ++ nodeKeyList t n := by
  simp [nodeKeyList]

theorem mem_nodeKeyList {rows : List OwnerData} {r : OwnerData} (h : r ∈ rows) :
    r.key ∈ nodeKeyList rows r.nodeId :=
  List.mem_map_of_mem _ (List.mem_filter.mpr ⟨h, by simp⟩)

theorem nodeKeyList_sublist {rows rows' : List OwnerData} (h : rows.Sublist rows') (n : Nat) :
    (nodeKeyList rows n).Sublist (nodeKeyList rows' n) :=
  (h.filter _).map _

theorem nodeKeyList_perm {rows rows' : List OwnerData} (h : rows.Perm rows') (n : Nat) :
    (nodeKeyList rows n).Perm (nodeKeyList rows' n) :=
  (h.filter _).map _

/-- Distinct `(node_id, key)` pairs give per-node unique keys; unlike the
per-node statement, this one can be checked by `decide`. -/
theorem nodeKeyList_nodup_of_pairs {rows : List OwnerData}
    (h : (rows.map fun r => (r.nodeId, r.key)).Nodup) (n : Nat) : (nodeKeyList rows n).Nodup := by
  have hf : ((rows.filter (·.nodeId = n)).map fun r => (r.nodeId, r.key)).Nodup :=
    ((List.filter_sublist rows).map _).nodup h
  refine List.Nodup.of_map (fun k => (n, k)) ?_
  rw [nodeKeyList, List.map_map]
  convert hf using 1
  exact List.map_congr_left fun r hr => by simp [of_decide_eq_true (List.mem_filter.mp hr).2]

/-- Split around one row: its node carries its key beside the other rows' keys;
other nodes do not see it. -/
theorem nodeKeyList_split_perm (s t : List OwnerData) (r : OwnerData) :
    (nodeKeyList (s ++ r :: t) r.nodeId).Perm
      (r.key :: (nodeKeyList s r.nodeId ++ nodeKeyList t r.nodeId)) := by
  rw [nodeKeyList_append, nodeKeyList_cons, if_pos rfl]
  exact List.perm_middle

theorem nodeKeyList_split_of_ne (s t : List OwnerData) (r : OwnerData) {n : Nat}
    (h : r.nodeId ≠ n) :
    nodeKeyList (s ++ r :: t) n = nodeKeyList s n ++ nodeKeyList t n := by
  rw [nodeKeyList_append, nodeKeyList_cons, if_neg h]

/-- The dictionary entry, read with `∅` for a missing node, is the node's key set. -/
theorem getD_existingNodeKeys (rows : List OwnerData) (n : Nat) :
    (existingNodeKeys rows n).getD ∅ = (nodeKeyList rows n).toFinset := by
  unfold existingNodeKeys
  split <;> simp_all

theorem existingNodeKeys_of_mem {rows : List OwnerData} {r : OwnerData} (h : r ∈ rows) :
    existingNodeKeys rows r.nodeId = some (nodeKeyList rows r.nodeId).toFinset :=
  if_neg (List.ne_nil_of_mem (mem_nodeKeyList h))

/-! ## Saving one row -/

theorem save_eq_self {rows : List OwnerData} {entry : OwnerData}
    (h : ∀ r ∈ rows, r.id ≠ entry.id) : save rows entry = rows := by
  conv_rhs => rw [← List.map_id rows]
  exact List.map_congr_left fun r hr => if_neg (h r hr)

/-- With distinct primary keys, saving an entry replaces its own row and no other. -/
theorem save_split {s t : List OwnerData} {e entry : OwnerData}
    (hids : ((s ++ e :: t).map (·.id)).Nodup) (hid : entry.id = e.id) :
    save (s ++ e :: t) entry = s ++ entry :: t := by
  simp only [List.map_append, List.map_cons, List.nodup_middle, List.nodup_cons,
    List.mem_append, List.mem_map, not_or, not_exists, not_and] at hids
  have hs : save s entry = s := save_eq_self fun r hr => hid ▸ hids.1.1 r hr
  have ht : save t entry = t := save_eq_self fun r hr => hid ▸ hids.1.2 r hr
  simp only [save, List.map_append, List.map_cons, hid, if_pos] at hs ht ⊢
  rw [hs, ht]

/-- With distinct primary keys, saving a row of the table as it is changes nothing. -/
theorem save_of_mem {rows : List OwnerData} {e : OwnerData} (hids : (rows.map (·.id)).Nodup)
    (he : e ∈ rows) : save rows e = rows := by
  conv_rhs => rw [← List.map_id rows]
  refine List.map_congr_left fun r hr => ?_
  split
  · exact (List.inj_on_of_nodup_map hids hr he ‹_›).symm
  · rfl

/-- Saving never changes the primary keys. -/
@[simp] theorem map_id_save (rows : List OwnerData) (entry : OwnerData) :
    (save rows entry).map (·.id) = rows.map (·.id) := by
  simp only [save, List.map_map]
  exact List.map_congr_left fun r _ => by dsimp only [Function.comp_apply]; split <;> simp_all

theorem mem_save {rows : List OwnerData} {e r : OwnerData} (h : r ∈ save rows e) :
    r = e ∨ (r ∈ rows ∧ r.id ≠ e.id) := by
  obtain ⟨x, hx, rfl⟩ := List.mem_map.mp h
  split
  · exact .inl rfl
  · exact .inr ⟨hx, ‹_›⟩

theorem mem_save_of_ne {rows : List OwnerData} {e r : OwnerData} (hr : r ∈ rows) (hid : r.id ≠ e.id) :
    r ∈ save rows e :=
  List.mem_map.mpr ⟨r, hr, if_neg hid⟩

theorem mem_save_with_key {rows : List OwnerData} {e : OwnerData} (he : e ∈ rows) (k : String) :
    { e with key := k } ∈ save rows { e with key := k } :=
  List.mem_map.mpr ⟨e, he, if_pos rfl⟩

/-- Saving row `e` of a table with distinct primary keys under the key `k`: the
node of `e` trades `e.key` for `k` beside the keys `L` of its other rows, and
every other node keeps its keys. -/
theorem nodeKeyList_save_key {rows : List OwnerData} {e : OwnerData}
    (hids : (rows.map (·.id)).Nodup) (he : e ∈ rows) (k : String) :
    ∃ L, (nodeKeyList rows e.nodeId).Perm (e.key :: L) ∧
      (nodeKeyList (save rows { e with key := k }) e.nodeId).Perm (k :: L) ∧
      ∀ n, n ≠ e.nodeId → nodeKeyList (save rows { e with key := k }) n = nodeKeyList rows n := by
  obtain ⟨s, t, rfl⟩ := List.append_of_mem he
  rw [save_split hids (show ({ e with key := k } : OwnerData).id = e.id from rfl)]
  refine ⟨_, nodeKeyList_split_perm s t e, nodeKeyList_split_perm s t { e with key := k },
    fun n hn => ?_⟩
  rw [nodeKeyList_split_of_ne s t { e with key := k } (Ne.symm hn),
    nodeKeyList_split_of_ne s t e (Ne.symm hn)]

end Migrations
end MaasServer
