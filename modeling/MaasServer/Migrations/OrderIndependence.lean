import MaasServer.Migrations.KeyRewrite

/-!
# The order of visits does not change the keys a node ends with

The queryset of violating rows has no `ORDER BY`, so the database may hand the
loop its rows in any order.  Which of several colliding rows receives which
underscore suffix depends on that order; the set of keys each node ends with
does not (`nodeKeys_eq_of_perm`), and nothing else does: two orders leave the
same rows in the same places, and a row of the one differs from the row with its
primary key in the other only in the number of underscores padding its rewritten
key (`fixOwnerdataKeys_order_independent`, from `LeftRow.agree`).

## The exchange

`run_fixEntry` reduces a node's final set to a fold of `rekey` over the keys of
its visited rows, so it is enough that two visits commute (`rekey_comm`).  Take
the node's set as `insert b (insert c R)` with `b`, `c` the two visited keys.
Visiting `b` first, the loop probes from `REPLACE_RE.sub(b)` past a set that
still holds `c`; visiting `c` first, past one that still holds `b`.

* If neither `c` nor `b` sits on the other's probe, the two probes see `R` alone,
  and the exchange law of linear probing (`insert_freshKey_comm`) finishes.
* If `c` is the slot `b`'s probe would take in `R`, then `c` is a candidate of
  the loop, hence a fixed point of `REPLACE_RE` that probes to itself.  Either
  order leaves `c` where it is and sends `b` to the next free slot after it
  (`exchange_of_eq`).  The case of `b` on `c`'s probe is the mirror image.

`foldl_rekey_perm` lifts the exchange to permutations of the visited keys, by
induction on the permutation; the hypotheses it carries (the keys are distinct
and still in the set) are what every iteration of the migration provides.
-/

namespace MaasServer
namespace Migrations

variable {py : WordClass}

/-- Visiting two keys of `insert b (insert c R)`, `b` first. -/
theorem rekey_rekey {R : Finset String} {b c : String} (hbR : b ∉ R) (hcR : c ∉ R) (hbc : b ≠ c) :
    rekey py (rekey py (insert b (insert c R)) b) c =
      insert (freshKey (insert (freshKey (insert c R) (replaceReSub py b)) R) (replaceReSub py c))
        (insert (freshKey (insert c R) (replaceReSub py b)) R) := by
  have hb : (insert b (insert c R)).erase b = insert c R := Finset.erase_insert (by simp [hbc, hbR])
  have hp : freshKey (insert c R) (replaceReSub py b) ≠ c := fun h =>
    freshKey_not_mem (S := insert c R) (by rw [h]; exact Finset.mem_insert_self c R)
  have hc : (insert (freshKey (insert c R) (replaceReSub py b)) (insert c R)).erase c =
      insert (freshKey (insert c R) (replaceReSub py b)) R := by
    rw [Finset.erase_insert_of_ne hp, Finset.erase_insert hcR]
  have h₁ : rekey py (insert b (insert c R)) b =
      insert (freshKey (insert c R) (replaceReSub py b)) (insert c R) := by
    rw [rekey, fixedKey, hb]
  rw [h₁, rekey, fixedKey, hc]

/-- The exchange when `c` is the slot the probe from `β` takes in `R`, and so
probes to itself. -/
theorem exchange_of_eq {R : Finset String} {b c β : String} (hbc : b ≠ c) (hcR : c ∉ R)
    (h : c = freshKey R β) :
    insert (freshKey (insert (freshKey (insert c R) β) R) c) (insert (freshKey (insert c R) β) R) =
      insert (freshKey (insert (freshKey (insert b R) c) R) β) (insert (freshKey (insert b R) c) R) := by
  have hP : freshKey (insert c R) β = freshKey R (c ++ "_") := by
    rw [h]
    exact freshKey_insert_freshKey
  have hcP : c ∉ insert (freshKey R (c ++ "_")) R := by simp [hcR, ne_freshKey_append_underscore]
  have hcb : c ∉ insert b R := by simp [hcR, Ne.symm hbc]
  rw [hP, freshKey_of_not_mem hcP, freshKey_of_not_mem hcb, hP, Finset.Insert.comm]

/-- A loop candidate is a fixed point of `REPLACE_RE`. -/
theorem replaceReSub_freshKey (R : Finset String) (b : String) :
    replaceReSub py (freshKey R (replaceReSub py b)) = freshKey R (replaceReSub py b) := by
  obtain ⟨j, hj, -⟩ := exists_freshKey_eq R (replaceReSub py b)
  rw [hj, replaceReSub_append_underscores]

/-- **Two visits commute** while both keys are still in the node's set. -/
theorem rekey_comm {S : Finset String} {b c : String} (hb : b ∈ S) (hc : c ∈ S) (hbc : b ≠ c) :
    rekey py (rekey py S b) c = rekey py (rekey py S c) b := by
  set R := (S.erase b).erase c
  have hS : S = insert b (insert c R) := by
    rw [Finset.insert_erase (Finset.mem_erase.mpr ⟨hbc.symm, hc⟩), Finset.insert_erase hb]
  have hbR : b ∉ R := by simp [R]
  have hcR : c ∉ R := by simp [R]
  rw [hS, rekey_rekey hbR hcR hbc, Finset.Insert.comm b c R, rekey_rekey hcR hbR hbc.symm]
  by_cases h₁ : c = freshKey R (replaceReSub py b)
  · have hγ : replaceReSub py c = c := h₁ ▸ replaceReSub_freshKey R b
    rw [hγ]
    exact exchange_of_eq hbc hcR h₁
  by_cases h₂ : b = freshKey R (replaceReSub py c)
  · have hβ : replaceReSub py b = b := h₂ ▸ replaceReSub_freshKey R c
    rw [hβ]
    exact (exchange_of_eq hbc.symm hbR h₂).symm
  rw [freshKey_insert_of_ne h₁, freshKey_insert_of_ne h₂]
  exact insert_freshKey_comm R _ _

theorem mem_rekey_of_ne {S : Finset String} {x y : String} (hy : y ∈ S) (hne : y ≠ x) :
    y ∈ rekey py S x :=
  Finset.mem_insert_of_mem (Finset.mem_erase.mpr ⟨hne, hy⟩)

/-- Visiting distinct keys of the set in two orders that are permutations of
each other gives the same set. -/
theorem foldl_rekey_perm {l₁ l₂ : List String} (hp : l₁.Perm l₂) :
    ∀ {S : Finset String}, l₁.Nodup → (∀ x ∈ l₁, x ∈ S) →
      l₁.foldl (rekey py) S = l₂.foldl (rekey py) S := by
  induction hp with
  | nil => intros; rfl
  | cons x _ ih =>
    intro S hnd hS
    have hx := List.nodup_cons.mp hnd
    exact ih hx.2 fun y hy => mem_rekey_of_ne (hS y (List.mem_cons_of_mem x hy))
      fun h => hx.1 (h ▸ hy)
  | swap x y l =>
    intro S hnd hS
    have hyx : y ≠ x := fun h => (List.nodup_cons.mp hnd).1 (h ▸ List.mem_cons_self y l)
    simp only [List.foldl_cons]
    rw [rekey_comm (hS y (by simp)) (hS x (by simp)) hyx]
  | trans h₁₂ _ ih₁ ih₂ =>
    intro S hnd hS
    exact (ih₁ hnd hS).trans (ih₂ (h₁₂.nodup_iff.mp hnd) fun x hx => hS x (h₁₂.symm.subset hx))

/-- The keys of a node's visited rows are distinct keys of the node. -/
theorem nodeKeyList_visited {db : WordClass} {t : OwnerDataTable} {order : List OwnerData}
    (horder : order.Perm (violating db t.rows)) (n : Nat) :
    (nodeKeyList order n).Nodup ∧ ∀ x ∈ nodeKeyList order n, x ∈ nodeKeyList t.rows n := by
  have hsub : (nodeKeyList (violating db t.rows) n).Sublist (nodeKeyList t.rows n) :=
    nodeKeyList_sublist (List.filter_sublist _) n
  exact ⟨(nodeKeyList_perm horder n).nodup_iff.mpr (hsub.nodup (t.keys_nodup n)),
    fun x hx => hsub.subset ((nodeKeyList_perm horder n).subset hx)⟩

/-- Two visiting orders give every node the same set of keys. -/
theorem nodeKeys_eq_of_perm {py db : WordClass} {t : OwnerDataTable} {o₁ o₂ r₁ r₂ : List OwnerData}
    (h₁ : o₁.Perm (violating db t.rows)) (h₂ : o₂.Perm (violating db t.rows))
    (f₁ : fixOwnerdataKeys py t.rows o₁ = .ok r₁) (f₂ : fixOwnerdataKeys py t.rows o₂ = .ok r₂) (n : Nat) :
    (nodeKeyList r₁ n).toFinset = (nodeKeyList r₂ n).toFinset := by
  obtain ⟨hm₁, hi₁⟩ := mem_and_nodup_of_perm h₁
  obtain ⟨hm₂, hi₂⟩ := mem_and_nodup_of_perm h₂
  obtain ⟨st₁, e₁, inv₁, ex₁⟩ := run_fixEntry py o₁ (loopInv_initState t) hm₁ hi₁
  obtain ⟨st₂, e₂, inv₂, ex₂⟩ := run_fixEntry py o₂ (loopInv_initState t) hm₂ hi₂
  rw [fixOwnerdataKeys, e₁] at f₁
  rw [fixOwnerdataKeys, e₂] at f₂
  cases f₁
  cases f₂
  rw [← getD_existingNodeKeys, ← getD_existingNodeKeys, ← inv₁.existing_eq, ← inv₂.existing_eq,
    ex₁ n, ex₂ n]
  obtain ⟨hnd, hsub⟩ := nodeKeyList_visited h₁ n
  have hinit := getD_existingNodeKeys t.rows n
  simp only [initState]
  cases h : existingNodeKeys t.rows n with
  | none => rfl
  | some S =>
    rw [h, Option.getD_some] at hinit
    simp only [Option.map_some', Option.getD_some]
    exact foldl_rekey_perm (nodeKeyList_perm (h₁.trans h₂.symm) n) hnd
      fun x hx => hinit ▸ List.mem_toFinset.mpr (hsub x hx)

/-- **The visiting order decides only who gets which padding.**  Any two orders
run to the end and give every node the same set of keys.  Both leave the rows'
primary keys in place, and two rows with one primary key have the same node and
are equal, unless they come from a row that failed the pattern and carry its
rewritten key padded with different numbers of underscores. -/
theorem fixOwnerdataKeys_order_independent (py db : WordClass) (t : OwnerDataTable)
    (o₁ o₂ : List OwnerData) (h₁ : o₁.Perm (violating db t.rows)) (h₂ : o₂.Perm (violating db t.rows)) :
    ∃ r₁ r₂, fixOwnerdataKeys py t.rows o₁ = .ok r₁ ∧ fixOwnerdataKeys py t.rows o₂ = .ok r₂ ∧
      (∀ n, (nodeKeyList r₁ n).toFinset = (nodeKeyList r₂ n).toFinset) ∧
      r₁.map (·.id) = r₂.map (·.id) ∧
      ∀ a ∈ r₁, ∀ b ∈ r₂, a.id = b.id → a.nodeId = b.nodeId ∧
        (a = b ∨ ∃ r₀ ∈ t.rows, matchesKeyRegex db r₀.key = false ∧
          ∃ j₁ j₂, a.key = replaceReSub py r₀.key ++ underscores j₁ ∧
            b.key = replaceReSub py r₀.key ++ underscores j₂) := by
  obtain ⟨r₁, f₁, -, left₁⟩ := fixOwnerdataKeys_rewrites py db t o₁ h₁
  obtain ⟨r₂, f₂, -, left₂⟩ := fixOwnerdataKeys_rewrites py db t o₂ h₂
  exact ⟨r₁, r₂, f₁, f₂, nodeKeys_eq_of_perm h₁ h₂ f₁ f₂,
    (fixOwnerdataKeys_map_id f₁).trans (fixOwnerdataKeys_map_id f₂).symm,
    fun a ha b hb hab => LeftRow.agree t.ids_nodup (left₁ a ha) (left₂ b hb) hab⟩

theorem fixOwnerdataKeys_order_independent_chain :
    chainOrder.Perm (violating asciiWord chainTable.rows) ∧
      chainOrder.reverse.Perm (violating asciiWord chainTable.rows) ∧
      ∃ r₁ r₂, fixOwnerdataKeys asciiWord chainTable.rows chainOrder = .ok r₁ ∧
        fixOwnerdataKeys asciiWord chainTable.rows chainOrder.reverse = .ok r₂ ∧
        (∀ n, (nodeKeyList r₁ n).toFinset = (nodeKeyList r₂ n).toFinset) ∧
        r₁.map (·.id) = r₂.map (·.id) ∧
        ∀ a ∈ r₁, ∀ b ∈ r₂, a.id = b.id → a.nodeId = b.nodeId ∧
          (a = b ∨ ∃ r₀ ∈ chainTable.rows, matchesKeyRegex asciiWord r₀.key = false ∧
            ∃ j₁ j₂, a.key = replaceReSub asciiWord r₀.key ++ underscores j₁ ∧
              b.key = replaceReSub asciiWord r₀.key ++ underscores j₂) := by
  have h₁ : chainOrder.Perm (violating asciiWord chainTable.rows) := by decide
  have h₂ : chainOrder.reverse.Perm (violating asciiWord chainTable.rows) := by decide
  exact ⟨h₁, h₂, fixOwnerdataKeys_order_independent asciiWord asciiWord chainTable _ _ h₁ h₂⟩

end Migrations
end MaasServer
