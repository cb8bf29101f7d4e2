import MaasServer.Migrations.KeyFix

/-!
# The keys the migration leaves behind

Every row of the table after `fix_ownerdata_keys` is a row of the table before:
a row that matched `^[\w.-]+$` is untouched, and a row that did not has the key
`REPLACE_RE.sub("_", orig_key) + "_" * j` for some `j` (`fixOwnerdataKeys_rewrites`).

So when the database's class and Python's agree on what `[\w.-]` keeps, every
key left matches the pattern unless it is empty (`fixOwnerdataKeys_keys_match`).
The exception is real: an empty key fails the pattern, is selected,
`REPLACE_RE.sub` leaves it empty, no other key of its node is empty, and the loop
saves it back as it was (`fixOwnerdataKeys_empty_key`).

`RowOrigin` is the invariant of the run: where a row of the state comes from,
while some rows are still to be visited.

Every key the loop writes is made of characters `REPLACE_RE` keeps, so a second
run finds only keys that `REPLACE_RE.sub` leaves as they are; each is missing from
its node's set once removed, and is saved back unchanged.  Running the migration
again changes nothing, whatever the two classes are (`fixOwnerdataKeys_fixpoint`).
-/

namespace MaasServer
namespace Migrations

variable {py db : WordClass}

/-- A successful iteration saves its entry with the key `REPLACE_RE.sub` gives
it, padded with underscores. -/
theorem fixEntry_ok_rows {st st' : LoopState} {e : OwnerData} (h : fixEntry py st e = .ok st') :
    ∃ j, st'.rows = save st.rows { e with key := replaceReSub py e.key ++ underscores j } := by
  cases hS : st.existingNodeKeys e.nodeId with
  | none => rw [fixEntry_of_none hS] at h; cases h
  | some S =>
    by_cases hk : e.key ∈ S
    · rw [fixEntry_eq hS hk] at h
      cases h
      obtain ⟨j, hj, -⟩ := exists_freshKey_eq (S.erase e.key) (replaceReSub py e.key)
      exact ⟨j, by rw [fixedKey, hj]⟩
    · rw [fixEntry_of_not_mem hS hk] at h; cases h

/-- Where a row of the state comes from while `rest` is still to be visited: a
row of the original table, either as it was (it matched the pattern, or it is
still to be visited) or with its key rewritten and padded. -/
def RowOrigin (db py : WordClass) (rows₀ rest : List OwnerData) (r : OwnerData) : Prop :=
  ∃ r₀ ∈ rows₀, r.id = r₀.id ∧ r.nodeId = r₀.nodeId ∧
    ((r = r₀ ∧ (matchesKeyRegex db r₀.key = true ∨ r₀ ∈ rest)) ∨
      (matchesKeyRegex db r₀.key = false ∧ ∃ j, r.key = replaceReSub py r₀.key ++ underscores j))

theorem rowOrigin_save {rows₀ rows rest : List OwnerData} {e r : OwnerData}
    (he : e ∈ violating db rows₀) (j : Nat) (hrows : ∀ x ∈ rows, RowOrigin db py rows₀ (e :: rest) x)
    (hr : r ∈ save rows { e with key := replaceReSub py e.key ++ underscores j }) :
    RowOrigin db py rows₀ rest r := by
  obtain ⟨he₀, hbad⟩ := List.mem_filter.mp he
  rcases mem_save hr with rfl | ⟨hr, hid⟩
  · exact ⟨e, he₀, rfl, rfl, .inr ⟨by simpa using hbad, j, rfl⟩⟩
  obtain ⟨r₀, hr₀, hid₀, hn₀, h⟩ := hrows r hr
  refine ⟨r₀, hr₀, hid₀, hn₀, ?_⟩
  rcases h with ⟨rfl, hm | hm⟩ | h
  · exact .inl ⟨rfl, .inl hm⟩
  · rcases List.mem_cons.mp hm with rfl | hm
    · exact absurd rfl hid
    · exact .inl ⟨rfl, .inr hm⟩
  · exact .inr h

/-- A save for a violating row leaves every matching row of the table in place. -/
theorem mem_save_of_matches {rows₀ rows : List OwnerData} {e r₀ : OwnerData} {k : String}
    (hids : (rows₀.map (·.id)).Nodup) (he : e ∈ violating db rows₀) (hr₀ : r₀ ∈ rows₀)
    (hm : matchesKeyRegex db r₀.key = true) (hr : r₀ ∈ rows) : r₀ ∈ save rows { e with key := k } := by
  obtain ⟨he₀, hbad⟩ := List.mem_filter.mp he
  refine mem_save_of_ne hr fun hid => ?_
  have := List.inj_on_of_nodup_map hids hr₀ he₀ hid
  subst this
  simp [hm] at hbad

/-- The run keeps `RowOrigin` and the matching rows. -/
theorem run_rowOrigin {rows₀ : List OwnerData} (hids : (rows₀.map (·.id)).Nodup) :
    ∀ (order : List OwnerData) {st st' : LoopState}, order.foldlM (fixEntry py) st = .ok st' →
      (∀ e ∈ order, e ∈ violating db rows₀) →
      (∀ r ∈ st.rows, RowOrigin db py rows₀ order r) →
      (∀ r₀ ∈ rows₀, matchesKeyRegex db r₀.key = true → r₀ ∈ st.rows) →
      (∀ r ∈ st'.rows, RowOrigin db py rows₀ [] r) ∧
        ∀ r₀ ∈ rows₀, matchesKeyRegex db r₀.key = true → r₀ ∈ st'.rows
  | [], _, _, h, _, horig, hkeep => by cases h; exact ⟨horig, hkeep⟩
  | e :: rest, st, _, h, hviol, horig, hkeep => by
    rw [List.foldlM_cons] at h
    cases h₁ : fixEntry py st e with
    | error err => rw [h₁] at h; cases h
    | ok st₁ =>
      rw [h₁, ok_bind] at h
      obtain ⟨j, hj⟩ := fixEntry_ok_rows h₁
      have he := hviol e (List.mem_cons_self e rest)
      exact run_rowOrigin hids rest h (fun x hx => hviol x (List.mem_cons_of_mem e hx))
        (fun r hr => rowOrigin_save he j horig (hj ▸ hr))
        (fun r₀ hr₀ hm => hj ▸ mem_save_of_matches hids he hr₀ hm (hkeep r₀ hr₀ hm))

/-- Where a row the migration leaves comes from: a row of the table, unchanged
and matching the pattern, or not matching with its key rewritten and padded. -/
def LeftRow (db py : WordClass) (rows₀ : List OwnerData) (r : OwnerData) : Prop :=
  ∃ r₀ ∈ rows₀, r.id = r₀.id ∧ r.nodeId = r₀.nodeId ∧
    ((r = r₀ ∧ matchesKeyRegex db r₀.key = true) ∨
      (matchesKeyRegex db r₀.key = false ∧ ∃ j, r.key = replaceReSub py r₀.key ++ underscores j))

/-- Two rows left under one primary key come from the same row of the table: they
are equal, or both carry its rewritten key, padded with their own underscores. -/
theorem LeftRow.agree {rows₀ : List OwnerData} (hids : (rows₀.map (·.id)).Nodup) {a b : OwnerData}
    (ha : LeftRow db py rows₀ a) (hb : LeftRow db py rows₀ b) (hab : a.id = b.id) :
    a.nodeId = b.nodeId ∧ (a = b ∨ ∃ r₀ ∈ rows₀, matchesKeyRegex db r₀.key = false ∧
      ∃ j₁ j₂, a.key = replaceReSub py r₀.key ++ underscores j₁ ∧
        b.key = replaceReSub py r₀.key ++ underscores j₂) := by
  obtain ⟨r₀, hr₀, hida, hna, ha⟩ := ha
  obtain ⟨r₀', hr₀', hidb, hnb, hb⟩ := hb
  obtain rfl : r₀ = r₀' := List.inj_on_of_nodup_map hids hr₀ hr₀' (hida.symm.trans (hab.trans hidb))
  refine ⟨hna.trans hnb.symm, ?_⟩
  rcases ha with ⟨rfl, hm⟩ | ⟨hm, j₁, hj₁⟩ <;> rcases hb with ⟨rfl, hm'⟩ | ⟨hm', j₂, hj₂⟩
  · exact .inl rfl
  · cases hm.symm.trans hm'
  · cases hm.symm.trans hm'
  · exact .inr ⟨r₀, hr₀, hm, j₁, j₂, hj₁, hj₂⟩

/-- Saves keep the primary keys, in place. -/
theorem run_map_id : ∀ (order : List OwnerData) {st st' : LoopState},
    order.foldlM (fixEntry py) st = .ok st' → st'.rows.map (·.id) = st.rows.map (·.id)
  | [], _, _, h => by cases h; rfl
  | e :: rest, st, _, h => by
    rw [List.foldlM_cons] at h
    cases h₁ : fixEntry py st e with
    | error err => rw [h₁] at h; cases h
    | ok st₁ =>
      rw [h₁, ok_bind] at h
      obtain ⟨j, hj⟩ := fixEntry_ok_rows h₁
      rw [run_map_id rest h, hj, map_id_save]

theorem fixOwnerdataKeys_map_id {rows order rows' : List OwnerData}
    (h : fixOwnerdataKeys py rows order = .ok rows') : rows'.map (·.id) = rows.map (·.id) := by
  rw [fixOwnerdataKeys] at h
  cases hrun : order.foldlM (fixEntry py) (initState rows) with
  | error err => rw [hrun] at h; cases h
  | ok st =>
    rw [hrun] at h
    cases h
    exact run_map_id order hrun

/-- **Where the rows after the migration come from.**  In every visiting order
the loop runs to the end.  Afterwards every row that matched the pattern is
still there, and every row is a row of the original table with its primary key
and node: unchanged and matching, or non-matching with the key
`REPLACE_RE.sub("_", orig_key) + "_" * j`. -/
theorem fixOwnerdataKeys_rewrites (py db : WordClass) (t : OwnerDataTable) (order : List OwnerData)
    (horder : order.Perm (violating db t.rows)) :
    ∃ rows', fixOwnerdataKeys py t.rows order = .ok rows' ∧
      (∀ r ∈ t.rows, matchesKeyRegex db r.key = true → r ∈ rows') ∧
      ∀ r ∈ rows', LeftRow db py t.rows r := by
  obtain ⟨hmem, hids⟩ := mem_and_nodup_of_perm horder
  obtain ⟨st, h, -, -⟩ := run_fixEntry py order (loopInv_initState t) hmem hids
  have horig : ∀ r ∈ (initState t.rows).rows, RowOrigin db py t.rows order r := fun r hr => by
    refine ⟨r, hr, rfl, rfl, .inl ⟨rfl, ?_⟩⟩
    cases hm : matchesKeyRegex db r.key
    · exact .inr (horder.symm.subset (List.mem_filter.mpr ⟨hr, by simp [hm]⟩))
    · exact .inl rfl
  obtain ⟨hfin, hkeep⟩ := run_rowOrigin t.ids_nodup order h (fun e he => horder.subset he) horig
    fun r₀ hr₀ _ => hr₀
  refine ⟨st.rows, by rw [fixOwnerdataKeys, h]; rfl, hkeep, fun r hr => ?_⟩
  obtain ⟨r₀, hr₀, hid, hn, hcase⟩ := hfin r hr
  exact ⟨r₀, hr₀, hid, hn, by simpa using hcase⟩

/-- **Every key left matches the pattern, or is empty.**  When every character
Python's `REPLACE_RE` keeps is one the database's pattern accepts, every visiting
order runs to the end, leaves the matching rows as they were, and leaves only
keys that match `^[\w.-]+$` or are empty. -/
theorem fixOwnerdataKeys_keys_match (py db : WordClass)
    (hagree : ∀ c, keyChar py c = true → keyChar db c = true) (t : OwnerDataTable)
    (order : List OwnerData) (horder : order.Perm (violating db t.rows)) :
    ∃ rows', fixOwnerdataKeys py t.rows order = .ok rows' ∧
      (∀ r ∈ t.rows, matchesKeyRegex db r.key = true → r ∈ rows') ∧
      ∀ r ∈ rows', matchesKeyRegex db r.key = true ∨ r.key = "" := by
  obtain ⟨rows', h, hkeep, hrows⟩ := fixOwnerdataKeys_rewrites py db t order horder
  refine ⟨rows', h, hkeep, fun r hr => ?_⟩
  obtain ⟨r₀, -, -, -, ⟨rfl, hm⟩ | ⟨-, j, hj⟩⟩ := hrows r hr
  · exact .inl hm
  rw [hj]
  by_cases hne : (replaceReSub py r₀.key ++ underscores j).data = []
  · exact .inr (String.ext_iff.mpr hne)
  · exact .inl (matchesKeyRegex_replaceReSub_append hagree hne)

theorem fixOwnerdataKeys_keys_match_chain :
    (∀ c, keyChar asciiWord c = true → keyChar asciiWord c = true) ∧
      chainOrder.Perm (violating asciiWord chainTable.rows) ∧
      ∃ rows', fixOwnerdataKeys asciiWord chainTable.rows chainOrder = .ok rows' ∧
        (∀ r ∈ chainTable.rows, matchesKeyRegex asciiWord r.key = true → r ∈ rows') ∧
        ∀ r ∈ rows', matchesKeyRegex asciiWord r.key = true ∨ r.key = "" := by
  have hagree : ∀ c, keyChar asciiWord c = true → keyChar asciiWord c = true := fun _ h => h
  have h : chainOrder.Perm (violating asciiWord chainTable.rows) := by decide
  exact ⟨hagree, h, fixOwnerdataKeys_keys_match asciiWord asciiWord hagree chainTable chainOrder h⟩

/-! ## Running the migration again -/

/-- A row whose key `REPLACE_RE.sub` leaves as it is is saved back unchanged. -/
theorem fixEntry_rows_of_fixed {st st' : LoopState} {e : OwnerData} (hinv : LoopInv st)
    (he : e ∈ st.rows) (hk : replaceReSub py e.key = e.key) (h : fixEntry py st e = .ok st') :
    st'.rows = st.rows := by
  rw [fixEntry_eq (hinv.existing_eq ▸ existingNodeKeys_of_mem he)
    (List.mem_toFinset.mpr (mem_nodeKeyList he))] at h
  cases h
  have hfix : fixedKey py (nodeKeyList st.rows e.nodeId).toFinset e.key = e.key := by
    rw [fixedKey, hk]
    exact freshKey_of_not_mem (Finset.not_mem_erase _ _)
  simp only [hfix]
  exact save_of_mem hinv.ids_nodup he

/-- A run over rows whose keys `REPLACE_RE.sub` leaves as they are ends with the
table it began with. -/
theorem run_fixed_keys (order : List OwnerData) {st : LoopState} (hinv : LoopInv st)
    (horder : ∀ e ∈ order, e ∈ st.rows ∧ replaceReSub py e.key = e.key) :
    ∃ st', order.foldlM (fixEntry py) st = .ok st' ∧ st'.rows = st.rows := by
  induction order generalizing st with
  | nil => exact ⟨st, rfl, rfl⟩
  | cons e rest ih =>
    obtain ⟨he, hk⟩ := horder e (List.mem_cons_self e rest)
    obtain ⟨st₁, h₁, hinv₁, -, -⟩ := fixEntry_inv py hinv he
    have hrows := fixEntry_rows_of_fixed hinv he hk h₁
    obtain ⟨st', h', hrows'⟩ := ih hinv₁ fun x hx => by
      rw [hrows]
      exact horder x (List.mem_cons_of_mem e hx)
    exact ⟨st', by rw [List.foldlM_cons, h₁, ok_bind, h'], hrows'.trans hrows⟩

/-- **Running the migration again changes nothing.**  In every visiting order the
loop runs to the end, and a second run over the table it leaves, in any of its
visiting orders, runs to the end and leaves that table as it is. -/
theorem fixOwnerdataKeys_fixpoint (py db : WordClass) (t : OwnerDataTable) (order : List OwnerData)
    (horder : order.Perm (violating db t.rows)) :
    ∃ rows', fixOwnerdataKeys py t.rows order = .ok rows' ∧
      ∀ order', order'.Perm (violating db rows') → fixOwnerdataKeys py rows' order' = .ok rows' := by
  obtain ⟨hmem, hids⟩ := mem_and_nodup_of_perm horder
  obtain ⟨st, h, hinv, -⟩ := run_fixEntry py order (loopInv_initState t) hmem hids
  obtain ⟨rows', h', -, hrows⟩ := fixOwnerdataKeys_rewrites py db t order horder
  obtain rfl : rows' = st.rows := by
    rw [fixOwnerdataKeys, h] at h'
    exact (Except.ok.inj h').symm
  refine ⟨st.rows, h', fun order' horder' => ?_⟩
  have hfixed : ∀ e ∈ order', e ∈ st.rows ∧ replaceReSub py e.key = e.key := fun e he => by
    obtain ⟨he', hbad⟩ := List.mem_filter.mp (horder'.subset he)
    refine ⟨he', ?_⟩
    obtain ⟨r₀, -, -, -, ⟨rfl, hm⟩ | ⟨-, j, hj⟩⟩ := hrows e he'
    · simp [hm] at hbad
    · rw [hj, replaceReSub_append_underscores]
  obtain ⟨st', h'', hrows'⟩ :=
    run_fixed_keys order' (⟨rfl, hinv.ids_nodup, hinv.keys_nodup⟩ : LoopInv (initState st.rows)) hfixed
  rw [fixOwnerdataKeys, h'', ok_bind, hrows']
  rfl

theorem fixOwnerdataKeys_fixpoint_chain :
    chainOrder.Perm (violating asciiWord chainTable.rows) ∧
      ∃ rows', fixOwnerdataKeys asciiWord chainTable.rows chainOrder = .ok rows' ∧
        ∀ order', order'.Perm (violating asciiWord rows') →
          fixOwnerdataKeys asciiWord rows' order' = .ok rows' := by
  have h : chainOrder.Perm (violating asciiWord chainTable.rows) := by decide
  exact ⟨h, fixOwnerdataKeys_fixpoint asciiWord asciiWord chainTable chainOrder h⟩

/-- **The empty key survives the migration**, whatever the two classes are: it
fails `^[\w.-]+$`, so the loop visits it; `REPLACE_RE.sub` leaves it empty; no
other key of its node is empty, so the `while` loop adds nothing, and the row is
saved back as it was. -/
theorem fixOwnerdataKeys_empty_key (py db : WordClass) :
    violating db [⟨1, 1, ""⟩] = [⟨1, 1, ""⟩] ∧
      fixOwnerdataKeys py [⟨1, 1, ""⟩] [⟨1, 1, ""⟩] = .ok [⟨1, 1, ""⟩] ∧
      matchesKeyRegex db "" = false := by
  refine ⟨by simp [violating], ?_, matchesKeyRegex_empty db⟩
  have hS : (initState [⟨1, 1, ""⟩]).existingNodeKeys 1 = some {""} := by decide
  have hk : fixedKey py {""} "" = "" := freshKey_of_not_mem (by simp)
  rw [fixOwnerdataKeys, List.foldlM_cons, fixEntry_eq hS (Finset.mem_singleton_self _)]
  simp only [hk]
  rfl

end Migrations
end MaasServer
