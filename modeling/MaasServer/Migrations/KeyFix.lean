import MaasServer.Migrations.FreshKey
import MaasServer.Migrations.OwnerDataTable

/-!
# `fix_ownerdata_keys`: the loop and its invariant

    for entry in OwnerData.objects.exclude(key__regex=r"^[\w.-]+$"):
        orig_key = entry.key
        node_keys = existing_node_keys[entry.node_id]
        node_keys.remove(orig_key)
        new_key = REPLACE_RE.sub("_", entry.key)
        while new_key in node_keys:
            new_key += "_"
        node_keys.add(new_key)
        entry.key = new_key
        entry.save()

The state of the loop is the dictionary and the table (`LoopState`); one
iteration is `fixEntry`, which raises `KeyError` where Python would.  The
queryset is evaluated once, when the loop starts, and has no `ORDER BY`: the run
`fixOwnerdataKeys` takes the order of visits as an argument, and the theorems
quantify over every permutation of `violating db rows`.

## The invariant

`LoopInv` says the dictionary is exactly what `existing_node_keys` would be if
it were built from the current table, that primary keys are distinct, and that
no node carries a key twice.  `fixEntry_inv` is the step: from a state with the
invariant, visiting a current row succeeds and keeps it.  `run_fixEntry` is the
run, and it also computes the final dictionary node by node, as a fold of
`rekey` over that node's visited keys, which is what the order-independence
argument consumes.
-/

namespace MaasServer
namespace Migrations

/-- Python's `KeyError`: a node missing from `existing_node_keys`, or a key
missing from `node_keys` at `node_keys.remove(orig_key)`. -/
inductive KeyError where
  | nodeId (n : Nat)
  | key (k : String)
  deriving DecidableEq, Repr

/-- The loop's state: the dictionary `existing_node_keys` and the table. -/
structure LoopState where
  existingNodeKeys : Nat → Option (Finset String)
  rows : List OwnerData

variable (py : WordClass)

/-- One iteration of the loop, on the entry the queryset returned.  `node_keys`
is the dictionary's own set, so the removal and the addition write back. -/
def fixEntry (st : LoopState) (entry : OwnerData) : Except KeyError LoopState :=
  match st.existingNodeKeys entry.nodeId with
  | none => .error (.nodeId entry.nodeId)
  | some nodeKeys =>
    if entry.key ∈ nodeKeys then
      let nodeKeys := nodeKeys.erase entry.key
      let newKey := freshKey nodeKeys (replaceReSub py entry.key)
      .ok ⟨Function.update st.existingNodeKeys entry.nodeId (some (insert newKey nodeKeys)),
        save st.rows { entry with key := newKey }⟩
    else .error (.key entry.key)

/-- The state before the loop. -/
def initState (rows : List OwnerData) : LoopState := ⟨existingNodeKeys rows, rows⟩

/-- `fix_ownerdata_keys`, visiting the selected rows in `order`. -/
def fixOwnerdataKeys (rows order : List OwnerData) : Except KeyError (List OwnerData) := do
  let st ← order.foldlM (fixEntry py) (initState rows)
  pure st.rows

/-- The key the loop body gives a row with key `origKey` on a node whose set is
`nodeKeys`. -/
def fixedKey (nodeKeys : Finset String) (origKey : String) : String :=
  freshKey (nodeKeys.erase origKey) (replaceReSub py origKey)

/-- What the loop body does to the node's set. -/
def rekey (nodeKeys : Finset String) (origKey : String) : Finset String :=
  insert (fixedKey py nodeKeys origKey) (nodeKeys.erase origKey)

variable {py}

theorem ok_bind {α β : Type} (a : α) (f : α → Except KeyError β) :
    (Except.ok a >>= f) = f a := rfl

theorem fixEntry_eq {st : LoopState} {e : OwnerData} {S : Finset String}
    (h : st.existingNodeKeys e.nodeId = some S) (hk : e.key ∈ S) :
    fixEntry py st e = .ok ⟨Function.update st.existingNodeKeys e.nodeId (some (rekey py S e.key)),
      save st.rows { e with key := fixedKey py S e.key }⟩ := by
  simp only [fixEntry, h, if_pos hk, rekey, fixedKey]

/-- A node missing from the dictionary raises `KeyError`. -/
theorem fixEntry_of_none {st : LoopState} {e : OwnerData} (h : st.existingNodeKeys e.nodeId = none) :
    fixEntry py st e = .error (.nodeId e.nodeId) := by
  simp only [fixEntry, h]

/-- A key missing from its node's set raises `KeyError` at `remove`. -/
theorem fixEntry_of_not_mem {st : LoopState} {e : OwnerData} {S : Finset String}
    (h : st.existingNodeKeys e.nodeId = some S) (hk : e.key ∉ S) :
    fixEntry py st e = .error (.key e.key) := by
  simp only [fixEntry, h, if_neg hk]

/-- **The loop stops within the node's other keys.**  For a node whose set is
`nodeKeys` and a key `origKey` of it, the `while` loop runs `j` times, where `j`
is at most the number of the node's other keys: each rejected candidate
`REPLACE_RE.sub("_", orig_key) + "_" * i` is a distinct member of the set.  As
`REPLACE_RE.sub` keeps the length, the new key is at most that many characters
longer than `origKey`. -/
theorem fixedKey_iterations_le (py : WordClass) (nodeKeys : Finset String) (origKey : String)
    (h : origKey ∈ nodeKeys) :
    ∃ j, j ≤ nodeKeys.card - 1 ∧
      fixedKey py nodeKeys origKey = replaceReSub py origKey ++ underscores j ∧
      (∀ i < j, replaceReSub py origKey ++ underscores i ∈ nodeKeys.erase origKey) ∧
      (fixedKey py nodeKeys origKey).length ≤ origKey.length + (nodeKeys.card - 1) := by
  obtain ⟨j, hj, hrej⟩ := exists_freshKey_eq (nodeKeys.erase origKey) (replaceReSub py origKey)
  have hcard := le_card_of_rejected hrej
  rw [Finset.card_erase_of_mem h] at hcard
  refine ⟨j, hcard, hj, hrej, ?_⟩
  rw [fixedKey, hj, length_append_underscores, length_replaceReSub]
  omega

/-- The spec's example: `"bad key!"` beside an existing `"bad_key_"` becomes
`"bad_key__"`. -/
example : fixedKey asciiWord {"bad key!", "bad_key_"} "bad key!" = "bad_key__" := by
  rw [fixedKey, show replaceReSub asciiWord "bad key!" = "bad_key_" by decide,
    freshKey_of_mem (by decide), freshKey_of_not_mem (by decide)]
  rfl

theorem fixedKey_iterations_le_chain :
    "a!" ∈ ({"a!", "a?", "a_"} : Finset String) ∧
      ∃ j, j ≤ ({"a!", "a?", "a_"} : Finset String).card - 1 ∧
        fixedKey asciiWord {"a!", "a?", "a_"} "a!" = replaceReSub asciiWord "a!" ++ underscores j ∧
        (∀ i < j, replaceReSub asciiWord "a!" ++ underscores i ∈
          ({"a!", "a?", "a_"} : Finset String).erase "a!") ∧
        (fixedKey asciiWord {"a!", "a?", "a_"} "a!").length ≤
          "a!".length + (({"a!", "a?", "a_"} : Finset String).card - 1) := by
  have h : "a!" ∈ ({"a!", "a?", "a_"} : Finset String) := by decide
  exact ⟨h, fixedKey_iterations_le asciiWord _ _ h⟩

/-! ## The invariant -/

/-- The loop invariant. -/
structure LoopInv (st : LoopState) : Prop where
  existing_eq : st.existingNodeKeys = existingNodeKeys st.rows
  ids_nodup : (st.rows.map (·.id)).Nodup
  keys_nodup : ∀ n, (nodeKeyList st.rows n).Nodup

theorem loopInv_initState (t : OwnerDataTable) : LoopInv (initState t.rows) :=
  ⟨rfl, t.ids_nodup, t.keys_nodup⟩

/-- **The step.**  Visiting a current row of a state with the invariant succeeds,
rekeys that row's node, keeps every other row, and keeps the invariant. -/
theorem fixEntry_inv (py : WordClass) {st : LoopState} {e : OwnerData} (hinv : LoopInv st) (he : e ∈ st.rows) :
    ∃ st', fixEntry py st e = .ok st' ∧ LoopInv st' ∧
      st'.existingNodeKeys = Function.update st.existingNodeKeys e.nodeId
        (some (rekey py (nodeKeyList st.rows e.nodeId).toFinset e.key)) ∧
      ∀ r ∈ st.rows, r.id ≠ e.id → r ∈ st'.rows := by
  set S := (nodeKeyList st.rows e.nodeId).toFinset
  have hS : st.existingNodeKeys e.nodeId = some S := hinv.existing_eq ▸ existingNodeKeys_of_mem he
  have hk : e.key ∈ S := List.mem_toFinset.mpr (mem_nodeKeyList he)
  obtain ⟨L, hperm, hperm', hother⟩ := nodeKeyList_save_key hinv.ids_nodup he (fixedKey py S e.key)
  have hnd : (e.key :: L).Nodup := hperm.nodup_iff.mp (hinv.keys_nodup _)
  have hSL : S.erase e.key = L.toFinset := by
    rw [show S = (e.key :: L).toFinset from List.toFinset_eq_of_perm _ _ hperm, List.toFinset_cons,
      Finset.erase_insert (by simpa using (List.nodup_cons.mp hnd).1)]
  have hfresh : fixedKey py S e.key ∉ L := by
    rw [← List.mem_toFinset, ← hSL]
    exact freshKey_not_mem
  refine ⟨_, fixEntry_eq hS hk, ⟨?_, by simpa using hinv.ids_nodup, fun n => ?_⟩, rfl,
    fun r hr hid => mem_save_of_ne hr hid⟩ <;> dsimp only
  · funext n
    by_cases hn : n = e.nodeId
    · subst hn
      rw [Function.update_same, existingNodeKeys_of_mem (mem_save_with_key he _),
        List.toFinset_eq_of_perm _ _ hperm', List.toFinset_cons, rekey, hSL]
    · rw [Function.update_noteq hn, hinv.existing_eq, existingNodeKeys, existingNodeKeys, hother n hn]
  · by_cases hn : n = e.nodeId
    · subst hn
      exact hperm'.nodup_iff.mpr (List.nodup_cons.mpr ⟨hfresh, (List.nodup_cons.mp hnd).2⟩)
    · rw [hother n hn]
      exact hinv.keys_nodup n

/-- **The run.**  From a state with the invariant, visiting distinct current rows
succeeds and keeps the invariant, and each node's final set is its initial set
rekeyed by the node's visited keys, in visiting order. -/
theorem run_fixEntry (py : WordClass) (order : List OwnerData) {st : LoopState} (hinv : LoopInv st)
    (hmem : ∀ e ∈ order, e ∈ st.rows) (hids : (order.map (·.id)).Nodup) :
    ∃ st', order.foldlM (fixEntry py) st = .ok st' ∧ LoopInv st' ∧
      ∀ n, st'.existingNodeKeys n =
        (st.existingNodeKeys n).map fun S => (nodeKeyList order n).foldl (rekey py) S := by
  induction order generalizing st with
  | nil => exact ⟨st, rfl, hinv, fun n => by cases st.existingNodeKeys n <;> rfl⟩
  | cons e rest ih =>
    simp only [List.map_cons, List.nodup_cons, List.mem_map, not_exists, not_and] at hids
    have he := hmem e (List.mem_cons_self e rest)
    obtain ⟨st₁, h₁, hinv₁, hex₁, hkeep⟩ := fixEntry_inv py hinv he
    obtain ⟨st', h', hinv', hex'⟩ :=
      ih hinv₁ (fun r hr => hkeep r (hmem r (List.mem_cons_of_mem e hr)) (hids.1 r hr)) hids.2
    refine ⟨st', by rw [List.foldlM_cons, h₁, ok_bind, h'], hinv', fun n => ?_⟩
    rw [hex', hex₁, nodeKeyList_cons]
    by_cases hn : e.nodeId = n
    · subst hn
      rw [Function.update_same, if_pos rfl, hinv.existing_eq, existingNodeKeys_of_mem he]
      rfl
    · rw [Function.update_noteq (Ne.symm hn), if_neg hn]

/-- The rows the loop visits are distinct rows of the table. -/
theorem mem_and_nodup_of_perm {db : WordClass} {t : OwnerDataTable} {order : List OwnerData}
    (horder : order.Perm (violating db t.rows)) :
    (∀ e ∈ order, e ∈ t.rows) ∧ (order.map (·.id)).Nodup := by
  have hsub : (violating db t.rows).Sublist t.rows := List.filter_sublist _
  exact ⟨fun e he => hsub.subset (horder.subset he),
    (horder.map _).nodup_iff.mpr ((hsub.map _).nodup t.ids_nodup)⟩

/-- **The loop keeps every node's keys unique.**  On a table with per-node unique
keys, in every visiting order, every prefix of the loop runs without `KeyError`
and ends in a state with the invariant: the dictionary holds each node's current
keys, and no save has given a node a key twice.  At the end each node has as many
distinct keys as rows. -/
theorem fixOwnerdataKeys_invariant (py db : WordClass) (t : OwnerDataTable) (order : List OwnerData)
    (horder : order.Perm (violating db t.rows)) :
    (∀ k, ∃ st, (order.take k).foldlM (fixEntry py) (initState t.rows) = .ok st ∧ LoopInv st) ∧
      ∃ rows', fixOwnerdataKeys py t.rows order = .ok rows' ∧
        ∀ n, (nodeKeyList rows' n).toFinset.card = (rows'.filter (·.nodeId = n)).length := by
  obtain ⟨hmem, hids⟩ := mem_and_nodup_of_perm horder
  refine ⟨fun k => ?_, ?_⟩
  · obtain ⟨st, h, hinv, -⟩ := run_fixEntry py (order.take k) (loopInv_initState t)
      (fun e he => hmem e (List.mem_of_mem_take he)) (((List.take_sublist k order).map _).nodup hids)
    exact ⟨st, h, hinv⟩
  · obtain ⟨st, h, hinv, -⟩ := run_fixEntry py order (loopInv_initState t) hmem hids
    refine ⟨st.rows, by rw [fixOwnerdataKeys, h]; rfl, fun n => ?_⟩
    rw [List.toFinset_card_of_nodup (hinv.keys_nodup n), nodeKeyList, List.length_map]

/-- A chain of collisions on node 1: `"a!"` and `"a?"` both rewrite to `"a_"`,
which a third row already holds. -/
def chainTable : OwnerDataTable :=
  ⟨[⟨1, 1, "a!"⟩, ⟨2, 1, "a?"⟩, ⟨3, 1, "a_"⟩], by decide, nodeKeyList_nodup_of_pairs (by decide)⟩

/-- The violating rows of `chainTable`, in table order. -/
def chainOrder : List OwnerData := [⟨1, 1, "a!"⟩, ⟨2, 1, "a?"⟩]

theorem fixOwnerdataKeys_invariant_chain :
    chainOrder.Perm (violating asciiWord chainTable.rows) ∧
      (∀ k, ∃ st, (chainOrder.take k).foldlM (fixEntry asciiWord) (initState chainTable.rows) =
          .ok st ∧ LoopInv st) ∧
      ∃ rows', fixOwnerdataKeys asciiWord chainTable.rows chainOrder = .ok rows' ∧
        ∀ n, (nodeKeyList rows' n).toFinset.card = (rows'.filter (·.nodeId = n)).length := by
  have h : chainOrder.Perm (violating asciiWord chainTable.rows) := by decide
  exact ⟨h, fixOwnerdataKeys_invariant asciiWord asciiWord chainTable chainOrder h⟩

end Migrations
end MaasServer
