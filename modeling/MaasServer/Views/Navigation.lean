import MaasServer.Views.NodeListing

/-!
# Moving through the node listing

A user moves through the node listing in two ways.  The header of every sortable
column is a link: `?` followed by `params.urlencode()` of the request's
parameters with `sort` and `dir` changed (`_prepare_sort_links`).  The
bulk-action form posts back to the listing with the page's `preserved_query`;
a valid form then redirects to `get_success_url`, the listing with the query
`get_preserved_query` writes once more, and an invalid one is shown again.

Every page first paginates, in the `get_context_data` that `NodeListView`
inherits from `PaginatedListView`: that raises `Http404` for a `page` that is
not a number or `last`, or past the last page.  The pagination is Django's and
not in the source, so its verdict on each page is a parameter, a `Paginator`;
the nodes can change from one request to the next, so every page has its own.
Then the page computes `preserved_query`, and raises `UnicodeEncodeError` when
`str` cannot encode a preserved parameter (`renderListing`).

`listingStep` is one request to the listing and what the user does on the page
it renders: it gives the raw query string of the next request, or the error.
`ListingState.step` says what the navigation is for.  A column's header sorts by
the column: it reverses the direction of the current column, uses ascending for
any other, and keeps the search and the page.  A bulk action leaves the listing
as it was.

* `requestGet_linkQuery`: following a column's header link gives the request the
  link was built from, with the column's `sort` and `dir`, whatever text the
  request holds;
* `composeSortOrder_sortLink`: that request sorts by the column, toggling the
  direction of the current one;
* `listingStep_refines`: one step from a page that renders succeeds, is the
  abstract step, and leads to a request with the same `page` whose preserved
  parameters are ASCII again;
* `listingRun_spec`: **every run from a page whose preserved parameters are
  ASCII, over paginators that serve its page, succeeds and ends where the
  abstract navigation says; every other run fails, with `Http404` when the
  parameters are ASCII**;
* `listingRun_sortBy_twice`: following the current column's header twice gives
  back the listing, when its direction is `asc` or `desc`;
* `listingRun_sortBy_keeps`: following header links keeps every parameter of the
  request other than `sort` and `dir`, whatever characters it holds.

The dictionaries involved hand out their keys in an order Python 2 does not fix,
so `dictOrder` and `items` are parameters, any permutation.  `replace` is what
`force_text(..., errors='replace')` gives for ill-formed UTF-8.  The form's URL
is the template's, which the source does not hold.  It is the listing's URL with
`preserved_query`, the purpose `get_preserved_params` states.
-/

namespace MaasServer
namespace Views

/-- `request.GET` of a request to the listing with the raw query string `qs`. -/
def requestGet (replace : List Nat → List Char) (qs : List Char) : Params :=
  (QueryDict.ofRequest replace qs).toParams

theorem toParams_ne_some_nil (q : QueryDict) (k : String) : q.toParams k ≠ some [] := by
  unfold QueryDict.toParams
  split <;> simp_all

theorem toParams_of_not_mem {q : QueryDict} {k : String} (hk : k ∉ q.pairs.map (·.1)) :
    q.toParams k = none := by
  have : q.getlist k = [] := by
    simp only [QueryDict.getlist, List.map_eq_nil_iff, List.filter_eq_nil_iff]
    exact fun kv hkv h => hk (List.mem_map.mpr ⟨kv, hkv, by simpa using h⟩)
  simp [QueryDict.toParams, this]

/-- A `QueryDict` made of the lists of `params`, over distinct keys that hold
every key `params` has, reads back as `params`. -/
theorem toParams_flatMap {keys : List String} (hnd : keys.Nodup) {params : Params}
    (hne : ∀ k, params k ≠ some []) (hdom : ∀ k, k ∉ keys → params k = none) :
    QueryDict.toParams ⟨keys.flatMap fun k => ((params k).getD []).map (k, ·)⟩ = params := by
  funext k
  rw [QueryDict.toParams, getlist_flatMap hnd]
  by_cases hk : k ∈ keys
  · rw [if_pos hk]
    cases h : params k with
    | none => rfl
    | some l => simp [show l ≠ [] from fun hl => hne k (hl ▸ h)]
  · simp [hk, hdom k hk]

/-! ## Following a header link -/

/-- The header links of the listing page for the raw query string `qs`. -/
def sortLinks (dictOrder : List String → List String) (replace : List Nat → List Char)
    (qs : List Char) : String → String :=
  (prepareSortLinks (paramsUrlencode (linkKeys dictOrder (QueryDict.ofRequest replace qs)))
    (requestGet replace qs)).1

/-- The raw query string of the request a browser makes for a link `?<query>` on
the listing. -/
def linkQuery (link : String) : List Char := link.data.tail

theorem linkQuery_append (s : String) : linkQuery ("?" ++ s) = s.data := rfl

/-- The link of a column, whatever `urlencode` is. -/
theorem prepareSortLinks_fst (urlencode : Params → String) (get : Params) {field : String}
    (hf : field ∈ sortFields ++ lateSortFields) :
    (prepareSortLinks urlencode get).1 field = "?" ++ urlencode (linkParams get field) := by
  have := (foldl_linkStep urlencode get (sortFields ++ lateSortFields) (by decide)
    ⟨get, fun _ => "?", fun _ => "sort-none"⟩ (fun _ _ _ => rfl) field).1
  simpa [hf] using this

theorem get_linkParams_of_ne (get : Params) (field : String) {k : String} (hs : k ≠ "sort")
    (hd : k ≠ "dir") : (linkParams get field).get k = get.get k := by
  simp [linkParams, Params.get, Params.set, Function.update_noteq hs, Function.update_noteq hd]

section Links

variable (dictOrder : List String → List String) (replace : List Nat → List Char)

theorem mem_linkKeys (hdict : ∀ l, (dictOrder l).Perm l) (q : QueryDict) (k : String) :
    k ∈ linkKeys dictOrder q ↔ k ∈ q.pairs.map (·.1) ∨ k = "sort" ∨ k = "dir" := by
  simp [linkKeys, (hdict _).mem_iff, List.mem_dedup]

theorem linkParams_ne_some_nil (q : QueryDict) (field k : String) :
    linkParams q.toParams field k ≠ some [] := by
  simp only [linkParams, Params.set, Function.update_apply]
  split_ifs <;> simp [toParams_ne_some_nil]

theorem linkParams_of_not_mem (hdict : ∀ l, (dictOrder l).Perm l) {q : QueryDict}
    (field : String) {k : String} (hk : k ∉ linkKeys dictOrder q) : linkParams q.toParams field k = none := by
  simp only [mem_linkKeys dictOrder hdict, not_or] at hk
  simp [linkParams, Params.set, Function.update_noteq hk.2.1, Function.update_noteq hk.2.2,
    toParams_of_not_mem hk.1]

/-- **Following a column's header link gives the request the link was built
from, with the column's `sort` and `dir`.**  Every other parameter comes back
with all its values, in every dictionary order and whatever characters it holds:
`QueryDict.urlencode` writes UTF-8 and `request.GET` decodes it. -/
theorem requestGet_linkQuery (hdict : ∀ l, (dictOrder l).Perm l) (qs : List Char) {field : String}
    (hf : field ∈ sortFields ++ lateSortFields) :
    requestGet replace (linkQuery (sortLinks dictOrder replace qs field)) =
      linkParams (requestGet replace qs) field := by
  rw [sortLinks, prepareSortLinks_fst _ _ hf, linkQuery_append, paramsUrlencode, requestGet,
    ofRequest_queryDictUrlencode]
  exact toParams_flatMap ((hdict _).nodup_iff.mpr (List.nodup_dedup _))
    (linkParams_ne_some_nil _ _) fun k hk => linkParams_of_not_mem dictOrder hdict _ hk

end Links

/-! ## The POST keeps the preserved parameters -/

/-- The preserved parameters of the request are ASCII: `str` can encode them. -/
def PreservedAscii (get : Params) : Prop :=
  ∀ param ∈ preservedParams, ∀ v, get.get param = some v → ∀ c ∈ v.data, c.toNat < 128

/-- The request `get_preserved_query` leads to: the preserved parameters of
`get`, each with its one value, and nothing else. -/
def preservedRequest (get : Params) : Params :=
  fun k => if k ∈ preservedParams then (get.get k).map ([·]) else none

theorem get_preservedRequest (get : Params) {param : String} (hp : param ∈ preservedParams) :
    (preservedRequest get).get param = get.get param := by
  show (preservedRequest get param).bind List.getLast? = _
  rw [preservedRequest, if_pos hp]
  cases get.get param <;> rfl

theorem preservedRequest_preservedRequest (get : Params) :
    preservedRequest (preservedRequest get) = preservedRequest get := by
  funext k
  by_cases hk : k ∈ preservedParams
  · show (if k ∈ preservedParams then ((preservedRequest get).get k).map ([·]) else none) = _
    rw [get_preservedRequest get hk]
    rfl
  · simp [preservedRequest, hk]

theorem preservedAscii_preservedRequest {get : Params} (h : PreservedAscii get) :
    PreservedAscii (preservedRequest get) :=
  fun param hp v hv => h param hp v (by rwa [get_preservedRequest get hp] at hv)

theorem asciiPair_of_mem_preservedPairs {get : Params} (h : PreservedAscii get)
    {kv : String × String} (hkv : kv ∈ preservedPairs get) : AsciiPair kv := by
  obtain ⟨param, hp, hkv'⟩ := List.mem_filterMap.mp hkv
  obtain ⟨v, hv, rfl⟩ := Option.map_eq_some'.mp hkv'
  have hkeys : ∀ param ∈ preservedParams, ∀ c ∈ param.data, c.toNat < 128 := by decide
  intro c hc
  rcases List.mem_append.mp hc with hc | hc
  · exact hkeys param hp c hc
  · exact h param hp v hv c hc

/-- A permutation keeps the values of a key that has at most one. -/
theorem getlist_perm {l l' : List (String × String)} (h : l'.Perm l) {k : String}
    (hk : (QueryDict.getlist ⟨l⟩ k).length ≤ 1) :
    QueryDict.getlist ⟨l'⟩ k = QueryDict.getlist ⟨l⟩ k := by
  have hp : (QueryDict.getlist ⟨l'⟩ k).Perm (QueryDict.getlist ⟨l⟩ k) := (h.filter _).map _
  rcases hl : QueryDict.getlist ⟨l⟩ k with _ | ⟨v, _ | ⟨w, t⟩⟩
  · exact (hl ▸ hp).eq_nil
  · exact List.perm_singleton.mp (hl ▸ hp)
  · simp [hl] at hk

/-- The request `get_preserved_query` leads to has at most one value per key. -/
theorem preservedRequest_cases (get : Params) (k : String) :
    preservedRequest get k = none ∨ ∃ v, preservedRequest get k = some [v] := by
  unfold preservedRequest
  split_ifs <;> cases get.get k <;> simp

theorem toParams_items_preservedPairs (items : List (String × String) → List (String × String))
    (hitems : ∀ l, (items l).Perm l) (get : Params) :
    QueryDict.toParams ⟨items (preservedPairs get)⟩ = preservedRequest get := by
  have hlists : ∀ k, QueryDict.getlist ⟨preservedPairs get⟩ k = (preservedRequest get k).getD [] := by
    intro k
    have hpairs : preservedPairs get =
        preservedParams.flatMap fun k => ((preservedRequest get k).getD []).map (k, ·) := by
      rw [preservedPairs, List.filterMap_eq_flatMap_toList]
      refine List.flatMap_congr fun k hk => ?_
      simp only [preservedRequest, if_pos hk]
      cases get.get k <;> rfl
    rw [hpairs, getlist_flatMap (by decide)]
    by_cases hk : k ∈ preservedParams
    · rw [if_pos hk]
    · rw [if_neg hk, preservedRequest, if_neg hk]
      rfl
  funext k
  have hlen : (QueryDict.getlist ⟨preservedPairs get⟩ k).length ≤ 1 := by
    rw [hlists]
    rcases preservedRequest_cases get k with h | ⟨v, h⟩ <;> simp [h]
  rw [QueryDict.toParams, getlist_perm (hitems _) hlen, hlists]
  rcases preservedRequest_cases get k with h | ⟨v, h⟩ <;> simp [h]

section Preserved

variable (items : List (String × String) → List (String × String)) (replace : List Nat → List Char)

/-- From a request whose preserved parameters are ASCII, `get_preserved_query`
succeeds, and the request to the URL it writes holds the preserved parameters
and nothing else. -/
theorem requestGet_getPreservedQuery (hitems : ∀ l, (items l).Perm l) {get : Params}
    (h : PreservedAscii get) :
    ∃ p, getPreservedQuery items get = .ok p ∧ requestGet replace p = preservedRequest get := by
  obtain ⟨p, henc, hread⟩ := ofRequest_urlencode replace
    fun kv hkv => asciiPair_of_mem_preservedPairs h ((hitems _).subset hkv)
  exact ⟨p, henc, by rw [requestGet, hread, toParams_items_preservedPairs items hitems]⟩

/-- A preserved parameter `str` cannot encode makes `get_preserved_query` raise. -/
theorem getPreservedQuery_error (hitems : ∀ l, (items l).Perm l) {get : Params}
    (h : ¬ PreservedAscii get) : ∃ e, getPreservedQuery items get = .error e := by
  simp only [PreservedAscii, not_forall, not_lt] at h
  obtain ⟨param, hp, v, hv, c, hc, hbad⟩ := h
  exact (parseQsl_urlencode _).2 (param, v) ((hitems _).symm.subset (mem_preservedPairs hp hv)) c
    (List.mem_append_right _ hc) hbad

end Preserved

/-! ## The abstract listing -/

/-- What a user does on a listing page: follow the header link of a column, or
submit the bulk-action form, valid or not. -/
inductive ListingEvent
  | sortBy (field : String) (hcol : field ∈ sortFields ++ lateSortFields)
  | bulkAction (valid : Bool)

/-- What a listing page shows: the search, the column and direction it is sorted
by, and the page. -/
structure ListingState where
  query : Option String
  sortBy : Option String
  sortDir : Option String
  page : Option String
  deriving DecidableEq, Repr

/-- The listing a request asks for, as `populate_modifiers` reads it (and
`PaginatedListView` its `page`). -/
def ListingState.ofParams (get : Params) : ListingState :=
  ⟨get.get "query", get.get "sort", get.get "dir", get.get "page"⟩

/-- What each action is for.  A column's header sorts by the column, reversing
the direction of the current column and ascending for any other; the search and
the page stay.  A bulk action leaves the listing as it was. -/
def ListingState.step (s : ListingState) : ListingEvent → ListingState
  | .sortBy field _ =>
    { s with sortBy := some field,
             sortDir := some (if some field = s.sortBy then reverseDir s.sortDir else "asc") }
  | .bulkAction _ => s

/-- The header of the current column, followed twice, gives back the direction. -/
theorem step_sortBy_twice {s : ListingState} {field : String} (hcol : field ∈ sortFields ++ lateSortFields)
    (hsorted : s.sortBy = some field) (hdir : s.sortDir = some "asc" ∨ s.sortDir = some "desc") :
    (s.step (.sortBy field hcol)).step (.sortBy field hcol) = s := by
  obtain ⟨q, b, d, pg⟩ := s
  simp only at hsorted hdir
  subst hsorted
  rcases hdir with rfl | rfl <;> simp [ListingState.step, reverseDir]

/-- Neither action changes the page. -/
@[simp] theorem ListingState.step_page (s : ListingState) (e : ListingEvent) : (s.step e).page = s.page := by
  cases e <;> rfl

/-- The request a step leads to has the page of the one it starts from. -/
theorem get_page_of_ofParams_eq {get get' : Params} {e : ListingEvent}
    (h : ListingState.ofParams get' = (ListingState.ofParams get).step e) :
    get'.get "page" = get.get "page" :=
  (congrArg ListingState.page h).trans (ListingState.step_page _ e)

theorem ofParams_linkParams (get : Params) {field : String}
    (hcol : field ∈ sortFields ++ lateSortFields) :
    ListingState.ofParams (linkParams get field) = (ListingState.ofParams get).step (.sortBy field hcol) := by
  simp (disch := decide) [ListingState.ofParams, ListingState.step, get_linkParams_of_ne]

theorem ofParams_preservedRequest (get : Params) :
    ListingState.ofParams (preservedRequest get) = ListingState.ofParams get := by
  simp (disch := decide) only [ListingState.ofParams, get_preservedRequest]

theorem preservedAscii_linkParams {get : Params} (h : PreservedAscii get) {field : String}
    (hcol : field ∈ sortFields ++ lateSortFields) : PreservedAscii (linkParams get field) := by
  intro param hp v hv c hc
  by_cases hs : param = "sort"
  · have hcols : ∀ f ∈ sortFields ++ lateSortFields, ∀ c ∈ f.data, c.toNat < 128 := by decide
    rw [hs, get_linkParams_sort, Option.some_inj] at hv
    exact hcols field hcol c (hv ▸ hc)
  by_cases hd : param = "dir"
  · have hdirs : ∀ d ∈ ["asc", "desc"], ∀ c ∈ d.data, c.toNat < 128 := by decide
    rw [hd, get_linkParams_dir, Option.some_inj] at hv
    refine hdirs v ?_ c hc
    rw [← hv, reverseDir]
    split_ifs <;> simp
  · rw [get_linkParams_of_ne get field hs hd] at hv
    exact h param hp v hv c hc

/-! ## Runs of the listing -/

/-- What the pagination `NodeListView` inherits does with the request's `page`,
over the nodes the page lists when it is rendered: `true` when it serves the
page, `false` when `paginate_queryset` raises `Http404`. -/
def Paginator : Type := Option String → Bool

/-- The exceptions a listing page raises. -/
inductive ListingError where
  | http404
  | unicodeEncodeError (e : UnicodeEncodeError)
  deriving DecidableEq, Repr

section Run

variable (dictOrder : List String → List String)
  (items : List (String × String) → List (String × String)) (replace : List Nat → List Char)

/-- `NodeListView.get_context_data` as far as it can fail, for the request `get`:
`super().get_context_data()` paginates first, then `get_preserved_query` writes
the page's `preserved_query`. -/
def renderListing (paginate : Paginator) (get : Params) : Except ListingError (List Char) :=
  if paginate (get.get "page") then (getPreservedQuery items get).mapError .unicodeEncodeError
  else .error .http404

/-- One request to the listing, with the raw query string `qs` and the verdict
`paginate` of the paginator when it is rendered, and what the user does on the
page: the raw query string of the next request to the listing, or the error the
page raises. -/
def listingStep (paginate : Paginator) (qs : List Char) : ListingEvent → Except ListingError (List Char)
  | .sortBy field _ => do
    let _ ← renderListing items paginate (requestGet replace qs)
    pure (linkQuery (sortLinks dictOrder replace qs field))
  | .bulkAction valid => do
    let preserved ← renderListing items paginate (requestGet replace qs)
    if valid then (getPreservedQuery items (requestGet replace preserved)).mapError .unicodeEncodeError
    else pure preserved

/-- The listing over a sequence of user actions from the request `qs`, each on a
page with its own paginator. -/
def listingRun : List Char → List (Paginator × ListingEvent) → Except ListingError (List Char)
  | qs, [] => pure qs
  | qs, (paginate, e) :: steps => listingStep dictOrder items replace paginate qs e >>= (listingRun · steps)

variable {dictOrder items}
variable (hdict : ∀ l, (dictOrder l).Perm l) (hitems : ∀ l, (items l).Perm l)
include hdict hitems

omit hdict in
/-- A page the paginator serves and whose preserved parameters are ASCII renders,
and the request to its `preserved_query` holds the preserved parameters and
nothing else. -/
theorem renderListing_ok {paginate : Paginator} {get : Params} (hpg : paginate (get.get "page"))
    (h : PreservedAscii get) :
    ∃ p, renderListing items paginate get = .ok p ∧ requestGet replace p = preservedRequest get := by
  obtain ⟨p, hp, hget⟩ := requestGet_getPreservedQuery items replace hitems h
  exact ⟨p, by rw [renderListing, if_pos hpg, hp]; rfl, hget⟩

omit hdict in
/-- Any other page raises: `Http404` when the paginator refuses its page,
`UnicodeEncodeError` when it serves it. -/
theorem renderListing_error {paginate : Paginator} {get : Params}
    (h : ¬ (paginate (get.get "page") ∧ PreservedAscii get)) :
    ∃ e, renderListing items paginate get = .error e ∧ (PreservedAscii get → e = .http404) := by
  by_cases hpg : paginate (get.get "page")
  · obtain ⟨e, he⟩ := getPreservedQuery_error items hitems fun ha => h ⟨hpg, ha⟩
    exact ⟨.unicodeEncodeError e, by rw [renderListing, if_pos hpg, he]; rfl, fun ha => absurd ⟨hpg, ha⟩ h⟩
  · exact ⟨.http404, by rw [renderListing, if_neg hpg], fun _ => rfl⟩

omit hdict in
/-- From a page that renders, a column's header leads to the request of its link. -/
theorem listingStep_sortBy {qs : List Char} (h : PreservedAscii (requestGet replace qs))
    {paginate : Paginator} (hpg : paginate ((requestGet replace qs).get "page"))
    {field : String} (hcol : field ∈ sortFields ++ lateSortFields) :
    listingStep dictOrder items replace paginate qs (.sortBy field hcol) =
      .ok (linkQuery (sortLinks dictOrder replace qs field)) := by
  obtain ⟨p, hp, -⟩ := renderListing_ok replace hitems hpg h
  rw [listingStep, hp]
  rfl

omit hdict in
/-- A page that does not render fails whatever the user does on it, with
`Http404` when its preserved parameters are ASCII. -/
theorem listingStep_error {paginate : Paginator} {qs : List Char}
    (h : ¬ (paginate ((requestGet replace qs).get "page") ∧ PreservedAscii (requestGet replace qs)))
    (e : ListingEvent) :
    ∃ err, listingStep dictOrder items replace paginate qs e = .error err ∧
      (PreservedAscii (requestGet replace qs) → err = .http404) := by
  obtain ⟨err, herr, h404⟩ := renderListing_error hitems h
  exact ⟨err, by cases e <;> rw [listingStep, herr] <;> rfl, h404⟩

/-- **One step refines the abstract navigation**: from a page that renders, the
step succeeds, the next request asks for what the abstract step says, and its
preserved parameters are ASCII again. -/
theorem listingStep_refines {qs : List Char} (h : PreservedAscii (requestGet replace qs))
    {paginate : Paginator} (hpg : paginate ((requestGet replace qs).get "page")) (e : ListingEvent) :
    ∃ qs', listingStep dictOrder items replace paginate qs e = .ok qs' ∧
      ListingState.ofParams (requestGet replace qs') =
        (ListingState.ofParams (requestGet replace qs)).step e ∧
      PreservedAscii (requestGet replace qs') := by
  cases e with
  | sortBy field hcol =>
    refine ⟨_, listingStep_sortBy replace hitems h hpg hcol, ?_⟩
    rw [requestGet_linkQuery dictOrder replace hdict qs hcol]
    exact ⟨ofParams_linkParams _ hcol, preservedAscii_linkParams h hcol⟩
  | bulkAction valid =>
    obtain ⟨p, hp, hget⟩ := renderListing_ok replace hitems hpg h
    have hpost : PreservedAscii (requestGet replace p) := hget ▸ preservedAscii_preservedRequest h
    cases valid with
    | false =>
      refine ⟨p, by rw [listingStep, hp]; rfl, ?_⟩
      rw [hget]
      exact ⟨ofParams_preservedRequest _, preservedAscii_preservedRequest h⟩
    | true =>
      obtain ⟨p', hp', hget'⟩ := requestGet_getPreservedQuery items replace hitems hpost
      refine ⟨p', by rw [listingStep, hp]; exact congrArg (Except.mapError _) hp', ?_⟩
      rw [hget', hget, preservedRequest_preservedRequest]
      exact ⟨ofParams_preservedRequest _, preservedAscii_preservedRequest h⟩

/-- Every run from a page that renders, over paginators that all serve its page,
succeeds, and its last request asks for what the abstract navigation says. -/
theorem listingRun_ok (steps : List (Paginator × ListingEvent)) {qs : List Char}
    (h : PreservedAscii (requestGet replace qs))
    (hpg : ∀ s ∈ steps, s.1 ((requestGet replace qs).get "page")) :
    ∃ qs', listingRun dictOrder items replace qs steps = .ok qs' ∧
      ListingState.ofParams (requestGet replace qs') =
        (steps.map (·.2)).foldl ListingState.step (ListingState.ofParams (requestGet replace qs)) := by
  induction steps generalizing qs with
  | nil => exact ⟨qs, rfl, rfl⟩
  | cons s steps ih =>
    obtain ⟨paginate, e⟩ := s
    obtain ⟨hpg₁, hpgs⟩ := List.forall_mem_cons.mp hpg
    obtain ⟨q₁, h₁, habs, hascii⟩ := listingStep_refines replace hdict hitems h hpg₁ e
    have hpage := get_page_of_ofParams_eq habs
    obtain ⟨q₂, h₂, habs₂⟩ := ih hascii fun s hs => by rw [hpage]; exact hpgs s hs
    refine ⟨q₂, by rw [listingRun, h₁]; exact h₂, ?_⟩
    rw [habs₂, habs]
    rfl

/-- A run of at least one action fails when its first page does not render or one
of its paginators refuses the page, and with `Http404` when the preserved
parameters are ASCII: the page never changes along the run. -/
theorem listingRun_error (steps : List (Paginator × ListingEvent)) {qs : List Char} (hne : steps ≠ [])
    (h : ¬ (PreservedAscii (requestGet replace qs) ∧ ∀ s ∈ steps, s.1 ((requestGet replace qs).get "page"))) :
    ∃ err, listingRun dictOrder items replace qs steps = .error err ∧
      (PreservedAscii (requestGet replace qs) → err = .http404) := by
  induction steps generalizing qs with
  | nil => exact absurd rfl hne
  | cons s steps ih =>
    obtain ⟨paginate, e⟩ := s
    by_cases hfirst : paginate ((requestGet replace qs).get "page") ∧ PreservedAscii (requestGet replace qs)
    · obtain ⟨q₁, h₁, habs, hascii⟩ := listingStep_refines replace hdict hitems hfirst.2 hfirst.1 e
      have hpage := get_page_of_ofParams_eq habs
      have hrest : ¬ ∀ s ∈ steps, s.1 ((requestGet replace qs).get "page") := fun hall =>
        h ⟨hfirst.2, List.forall_mem_cons.mpr ⟨hfirst.1, hall⟩⟩
      have hne' : steps ≠ [] := by rintro rfl; exact hrest (List.forall_mem_nil _)
      obtain ⟨err, herr, h404⟩ := ih hne' fun hq => hrest (by rw [← hpage]; exact hq.2)
      exact ⟨err, by rw [listingRun, h₁]; exact herr, fun _ => h404 hascii⟩
    · obtain ⟨err, herr, h404⟩ := listingStep_error replace hitems hfirst e
      exact ⟨err, by rw [listingRun, herr]; rfl, h404⟩

end Run

/-! ## Runs of the listing, as a whole -/

section Spec

variable (dictOrder : List String → List String)
  (items : List (String × String) → List (String × String)) (replace : List Nat → List Char)

/-- The listing sorted by `hostname`, ascending. -/
def hostnameAscQuery : List Char := "sort=hostname&dir=asc".data

theorem preservedAscii_hostnameAscQuery : PreservedAscii (requestGet (fun _ => []) hostnameAscQuery) :=
  (by decide : ∀ param ∈ preservedParams, ∀ v ∈ (requestGet (fun _ => []) hostnameAscQuery).get param,
    ∀ c ∈ v.data, c.toNat < 128)

/-- **A column's header toggles the column.**  From a page that renders, the
header link of a sortable column is followed, and the request it leads to asks
`_compose_sort_order` for the order by that column, descending exactly when it
is the current column and the listing is not already descending, with the
creation date as the tie-breaker. -/
theorem composeSortOrder_sortLink (hdict : ∀ l, (dictOrder l).Perm l) (hitems : ∀ l, (items l).Perm l)
    {qs : List Char} (h : PreservedAscii (requestGet replace qs)) {paginate : Paginator}
    (hpg : paginate ((requestGet replace qs).get "page")) {field : String} (hf : field ∈ sortFields) :
    listingStep dictOrder items replace paginate qs (.sortBy field (List.mem_append_left _ hf)) =
        .ok (linkQuery (sortLinks dictOrder replace qs field)) ∧
      composeSortOrder ((requestGet replace (linkQuery (sortLinks dictOrder replace qs field))).get "sort")
          ((requestGet replace (linkQuery (sortLinks dictOrder replace qs field))).get "dir") =
        [if some field = (requestGet replace qs).get "sort" ∧ (requestGet replace qs).get "dir" ≠ some "desc"
          then "-" ++ field else field, "-created"] := by
  have hcol : field ∈ sortFields ++ lateSortFields := List.mem_append_left _ hf
  refine ⟨listingStep_sortBy replace hitems h hpg hcol, ?_⟩
  rw [requestGet_linkQuery dictOrder replace hdict qs hcol]
  exact composeSortOrder_linkParams _ field hf

theorem composeSortOrder_sortLink_hostname :
    (∀ l : List String, (id l).Perm l) ∧ (∀ l : List (String × String), (id l).Perm l) ∧
      PreservedAscii (requestGet (fun _ => []) hostnameAscQuery) ∧
      (fun _ => true : Paginator) ((requestGet (fun _ => []) hostnameAscQuery).get "page") ∧
      "hostname" ∈ sortFields ∧
      listingStep id id (fun _ => []) (fun _ => true) hostnameAscQuery (.sortBy "hostname" (by decide)) =
          .ok (linkQuery (sortLinks id (fun _ => []) hostnameAscQuery "hostname")) ∧
        composeSortOrder
            ((requestGet (fun _ => []) (linkQuery (sortLinks id (fun _ => []) hostnameAscQuery "hostname"))).get
              "sort")
            ((requestGet (fun _ => []) (linkQuery (sortLinks id (fun _ => []) hostnameAscQuery "hostname"))).get
              "dir") =
          [if some "hostname" = (requestGet (fun _ => []) hostnameAscQuery).get "sort" ∧
              (requestGet (fun _ => []) hostnameAscQuery).get "dir" ≠ some "desc"
            then "-" ++ "hostname" else "hostname", "-created"] := by
  have hf : "hostname" ∈ sortFields := by decide
  exact ⟨fun l => .refl l, fun l => .refl l, preservedAscii_hostnameAscQuery, rfl, hf,
    composeSortOrder_sortLink id id (fun _ => []) (fun l => .refl l) (fun l => .refl l)
      preservedAscii_hostnameAscQuery rfl hf⟩

/-- **Following the current column's header twice gives back the listing**, when
the listing is sorted by the column in the direction `asc` or `desc` and both
pages are served. -/
theorem listingRun_sortBy_twice (hdict : ∀ l, (dictOrder l).Perm l)
    (hitems : ∀ l, (items l).Perm l) {qs : List Char} (h : PreservedAscii (requestGet replace qs))
    {paginate₁ paginate₂ : Paginator} (hpg₁ : paginate₁ ((requestGet replace qs).get "page"))
    (hpg₂ : paginate₂ ((requestGet replace qs).get "page"))
    {field : String} (hcol : field ∈ sortFields ++ lateSortFields)
    (hsorted : (requestGet replace qs).get "sort" = some field)
    (hdir : (requestGet replace qs).get "dir" = some "asc" ∨
      (requestGet replace qs).get "dir" = some "desc") :
    ∃ qs', listingRun dictOrder items replace qs
        [(paginate₁, .sortBy field hcol), (paginate₂, .sortBy field hcol)] = .ok qs' ∧
      ListingState.ofParams (requestGet replace qs') = ListingState.ofParams (requestGet replace qs) := by
  obtain ⟨qs', hrun, habs⟩ := listingRun_ok replace hdict hitems
    [(paginate₁, .sortBy field hcol), (paginate₂, .sortBy field hcol)] h
    (List.forall_mem_cons.mpr ⟨hpg₁, List.forall_mem_singleton.mpr hpg₂⟩)
  exact ⟨qs', hrun, habs.trans (step_sortBy_twice hcol hsorted hdir)⟩

theorem listingRun_sortBy_twice_hostname :
    PreservedAscii (requestGet (fun _ => []) hostnameAscQuery) ∧
      (fun _ => true : Paginator) ((requestGet (fun _ => []) hostnameAscQuery).get "page") ∧
      (requestGet (fun _ => []) hostnameAscQuery).get "sort" = some "hostname" ∧
      (requestGet (fun _ => []) hostnameAscQuery).get "dir" = some "asc" ∧
      ∃ qs', listingRun id id (fun _ => []) hostnameAscQuery
          [(fun _ => true, .sortBy "hostname" (by decide)), (fun _ => true, .sortBy "hostname" (by decide))] =
            .ok qs' ∧
        ListingState.ofParams (requestGet (fun _ => []) qs') =
          ListingState.ofParams (requestGet (fun _ => []) hostnameAscQuery) := by
  have h := preservedAscii_hostnameAscQuery
  have hs : (requestGet (fun _ => []) hostnameAscQuery).get "sort" = some "hostname" := by decide
  have hd : (requestGet (fun _ => []) hostnameAscQuery).get "dir" = some "asc" := by decide
  exact ⟨h, rfl, hs, hd, listingRun_sortBy_twice id id (fun _ => []) (fun l => .refl l) (fun l => .refl l) h
    rfl rfl (by decide) hs (.inl hd)⟩

/-- **Following header links keeps every other parameter of the request.**  In
every dictionary order, from a page whose preserved parameters are ASCII, every
run of clicks on column headers over paginators that serve its page succeeds
and ends on a request that holds each parameter other than `sort` and `dir`
with the values it had, whatever characters they are. -/
theorem listingRun_sortBy_keeps (hdict : ∀ l, (dictOrder l).Perm l) (hitems : ∀ l, (items l).Perm l)
    (steps : List (Paginator × {f : String // f ∈ sortFields ++ lateSortFields}))
    {qs : List Char} (h : PreservedAscii (requestGet replace qs))
    (hpg : ∀ s ∈ steps, s.1 ((requestGet replace qs).get "page")) :
    ∃ qs', listingRun dictOrder items replace qs (steps.map fun s => (s.1, .sortBy s.2.1 s.2.2)) = .ok qs' ∧
      ∀ k, k ≠ "sort" → k ≠ "dir" → requestGet replace qs' k = requestGet replace qs k := by
  induction steps generalizing qs with
  | nil => exact ⟨qs, rfl, fun _ _ _ => rfl⟩
  | cons s steps ih =>
    obtain ⟨hpg₁, hpgs⟩ := List.forall_mem_cons.mp hpg
    have hget := requestGet_linkQuery dictOrder replace hdict qs s.2.2
    have hascii : PreservedAscii (requestGet replace (linkQuery (sortLinks dictOrder replace qs s.2.1))) := by
      rw [hget]
      exact preservedAscii_linkParams h s.2.2
    have hpage : (requestGet replace (linkQuery (sortLinks dictOrder replace qs s.2.1))).get "page" =
        (requestGet replace qs).get "page" := by
      rw [hget]
      exact get_linkParams_of_ne _ _ (by decide) (by decide)
    obtain ⟨q₂, h₂, hkeep⟩ := ih hascii fun s' hs' => by rw [hpage]; exact hpgs s' hs'
    refine ⟨q₂, ?_, fun k hs hd => ?_⟩
    · rw [List.map_cons, listingRun, listingStep_sortBy replace hitems h hpg₁ s.2.2]
      exact h₂
    · rw [hkeep k hs hd, hget]
      exact agreesOff_set_set _ _ _ k hs hd

theorem listingRun_sortBy_keeps_hostname :
    (∀ l : List String, (id l).Perm l) ∧ (∀ l : List (String × String), (id l).Perm l) ∧
      PreservedAscii (requestGet (fun _ => []) hostnameAscQuery) ∧
      (∀ s ∈ ([(fun _ => true, ⟨"status", by decide⟩), (fun _ => true, ⟨"hostname", by decide⟩)] :
          List (Paginator × {f : String // f ∈ sortFields ++ lateSortFields})),
        s.1 ((requestGet (fun _ => []) hostnameAscQuery).get "page")) ∧
      ∃ qs', listingRun id id (fun _ => []) hostnameAscQuery
          (([(fun _ => true, ⟨"status", by decide⟩), (fun _ => true, ⟨"hostname", by decide⟩)] :
            List (Paginator × {f : String // f ∈ sortFields ++ lateSortFields})).map
              fun s => (s.1, .sortBy s.2.1 s.2.2)) = .ok qs' ∧
        ∀ k, k ≠ "sort" → k ≠ "dir" →
          requestGet (fun _ => []) qs' k = requestGet (fun _ => []) hostnameAscQuery k := by
  have hpg : ∀ s ∈ ([(fun _ => true, ⟨"status", by decide⟩), (fun _ => true, ⟨"hostname", by decide⟩)] :
      List (Paginator × {f : String // f ∈ sortFields ++ lateSortFields})),
        s.1 ((requestGet (fun _ => []) hostnameAscQuery).get "page") :=
    List.forall_mem_cons.mpr ⟨rfl, List.forall_mem_singleton.mpr rfl⟩
  exact ⟨fun l => .refl l, fun l => .refl l, preservedAscii_hostnameAscQuery, hpg,
    listingRun_sortBy_keeps id id (fun _ => []) (fun l => .refl l) (fun l => .refl l) _
      preservedAscii_hostnameAscQuery hpg⟩

end Spec

end Views
end MaasServer
