import MaasServer.Views.QueryDict

/-!
# `_parse_constraints`: from the search box to `AcquireNodeForm`

    constraints = []
    for word in query_string.strip().split():
        parts = word.split("=", 1)
        if len(parts) != 2:
            constraints.append("%s=" % parts[0])
        elif parts[1] != "any":
            constraints.append("%s=%s" % tuple(parts))
    return QueryDict('&'.join(constraints))

The words are split at Python 2's Unicode whitespace (`isPySpace`).  The loop
drops the words whose value is exactly `any`, and the rest are joined with `&`
unescaped and read back by `QueryDict` (`MaasServer.Views.QueryDict`).

## What the form receives

`claimedConstraints` is the reading of the docstring: each word yields one pair,
`(word, "")` or the split at its first `=`, and the pairs whose value is `any`
are dropped.  The code meets it exactly on queries with none of `&`, `;`, `+`,
`%` (`parseConstraints_plain`).  Outside that domain the unescaped join breaks it:
on `zone=rack1&memory=any` the form receives `memory=any`
(`parseConstraints_forwards_any`).
-/

namespace MaasServer
namespace Views

/-- `unicode.isspace()` in Python 2.7: the characters `split()` and `strip()`
treat as whitespace. -/
def isPySpace (c : Char) : Bool :=
  let n := c.toNat
  (0x09 ≤ n && n ≤ 0x0D) || (0x1C ≤ n && n ≤ 0x20) || n == 0x85 || n == 0xA0 ||
    n == 0x1680 || n == 0x180E || (0x2000 ≤ n && n ≤ 0x200A) || n == 0x2028 ||
    n == 0x2029 || n == 0x202F || n == 0x205F || n == 0x3000

/-- `s.strip()`. -/
def pyStrip (s : List Char) : List Char :=
  ((s.dropWhile isPySpace).reverse.dropWhile isPySpace).reverse

/-- `s.split()`: the maximal runs of non-whitespace characters. -/
def pySplit (s : List Char) : List (List Char) :=
  (s.splitOnP isPySpace).filter (· ≠ [])

/-- What one word appends to `constraints`. -/
def wordConstraint (word : List Char) : Option (List Char) :=
  match splitOnce '=' word with
  | [key, value] => if value = "any".data then none else some (key ++ '=' :: value)
  | parts => some (parts.headD [] ++ ['='])

/-- `_parse_constraints(query_string)`. -/
def parseConstraints (queryString : String) : QueryDict :=
  QueryDict.ofQueryString
    (['&'].intercalate ((pySplit (pyStrip queryString.data)).filterMap wordConstraint))

/-! ## The claimed reading -/

/-- The pair a word yields when read as the docstring describes it: `(word, "")`
without `=`, else the split at the first `=`. -/
def claimedPair (word : List Char) : List Char × List Char :=
  match splitOnce '=' word with
  | [key, value] => (key, value)
  | _ => (word, [])

/-- The docstring's reading of a query: one pair per word, without the pairs
whose value is `any`. -/
def claimedConstraints (queryString : String) : List (String × String) :=
  (((pySplit (pyStrip queryString.data)).map claimedPair).filter (·.2 ≠ "any".data)).map
    fun p => (⟨p.1⟩, ⟨p.2⟩)

/-- **`memory=any` reaches the form.**  The word `zone=rack1&memory=any` has the
value `rack1&memory=any`, so the loop keeps it; the unescaped join hands
`zone=rack1&memory=any` to `QueryDict`, which reads two pairs. -/
theorem parseConstraints_forwards_any :
    (parseConstraints "zone=rack1&memory=any").getlist "memory" = ["any"] ∧
      claimedConstraints "zone=rack1&memory=any" = [("zone", "rack1&memory=any")] := by
  decide

/-! ## Plain queries -/

theorem mem_of_mem_splitOnP {p : Char → Bool} :
    ∀ {s w : List Char}, w ∈ s.splitOnP p → ∀ c ∈ w, c ∈ s
  | [], w, hw, c, hc => by
    rw [List.splitOnP_nil, List.mem_singleton] at hw
    exact absurd (hw ▸ hc) (List.not_mem_nil c)
  | x :: xs, w, hw, c, hc => by
    rw [List.splitOnP_cons] at hw
    split at hw
    · rcases List.mem_cons.mp hw with rfl | hw
      · exact absurd hc (List.not_mem_nil c)
      · exact List.mem_cons_of_mem x (mem_of_mem_splitOnP hw c hc)
    · obtain ⟨v, vs, hv⟩ := List.exists_cons_of_ne_nil (List.splitOnP_ne_nil p xs)
      rw [hv, List.modifyHead_cons] at hw
      rcases List.mem_cons.mp hw with rfl | hw
      · rcases List.mem_cons.mp hc with rfl | hc
        · exact List.mem_cons_self _ _
        · exact List.mem_cons_of_mem x (mem_of_mem_splitOnP (hv ▸ List.mem_cons_self v vs) c hc)
      · exact List.mem_cons_of_mem x (mem_of_mem_splitOnP (hv ▸ List.mem_cons_of_mem v hw) c hc)

/-- Every character of a word is a character of the query. -/
theorem mem_of_mem_word {s w : List Char} (hw : w ∈ pySplit (pyStrip s)) {c : Char} (hc : c ∈ w) :
    c ∈ s := by
  have h := mem_of_mem_splitOnP (List.mem_filter.mp hw).1 c hc
  simp only [pyStrip, List.mem_reverse] at h
  exact (List.dropWhile_suffix _).subset (List.mem_reverse.mp ((List.dropWhile_suffix _).subset h))

/-- A plain word contributes, through `QueryDict`, the one pair the docstring
reads from it, or nothing when its value is `any`. -/
theorem parseQsl_wordConstraint {w : List Char} (hw : ∀ c ∈ w, c ∉ qslSpecial) :
    (wordConstraint w).toList.flatMap parseQsl = [claimedPair w].filter (·.2 ≠ "any".data) := by
  rcases splitOnce_cases '=' w with ⟨hk, hs⟩ | ⟨k, v, hk, rfl, hs⟩
  · have hplain : ∀ c ∈ w ++ ['='], c ∉ qslSpecial := fun c hc => by
      rcases List.mem_append.mp hc with hc | hc
      · exact hw c hc
      · rw [List.mem_singleton.mp hc]; decide
    simp [wordConstraint, claimedPair, hs, parseQsl_plain hk hplain]
  · by_cases hv : v = "any".data
    · subst hv
      simp [wordConstraint, claimedPair, hs]
    · simp [wordConstraint, claimedPair, hs, hv, parseQsl_plain hk hw]

theorem flatMap_parseQsl_filterMap :
    ∀ {ws : List (List Char)}, (∀ w ∈ ws, ∀ c ∈ w, c ∉ qslSpecial) →
      (ws.filterMap wordConstraint).flatMap parseQsl =
        (ws.map claimedPair).filter (·.2 ≠ "any".data)
  | [], _ => rfl
  | w :: ws, h => by
    have hw := parseQsl_wordConstraint (h w (List.mem_cons_self w ws))
    have ih := flatMap_parseQsl_filterMap fun x hx => h x (List.mem_cons_of_mem w hx)
    rw [List.map_cons, List.filter_cons]
    cases hc : wordConstraint w with
    | none =>
      rw [hc] at hw
      rw [List.filterMap_cons_none hc, ih]
      split <;> simp_all
    | some c =>
      rw [hc] at hw
      rw [List.filterMap_cons_some hc, List.flatMap_cons, ih]
      simp only [Option.toList_some, List.flatMap_singleton] at hw
      rw [hw]
      split <;> simp_all

/-- **On plain queries the form receives exactly the docstring's pairs.**  For a
query with none of `&`, `;`, `+`, `%`, the `QueryDict` holds, in order, the pair
of each word (`(word, "")`, or the split at its first `=`) except those whose
value is `any`. -/
theorem parseConstraints_plain (q : String) (hq : ∀ c ∈ q.data, c ∉ qslSpecial) :
    (parseConstraints q).pairs = claimedConstraints q := by
  rw [parseConstraints, QueryDict.ofQueryString, parseQsl_intercalate,
    flatMap_parseQsl_filterMap fun w hw c hc => hq c (mem_of_mem_word hw hc)]
  rfl

/-- The spec's example: `memory=any` is dropped, `arch=` stays as an empty value. -/
theorem parseConstraints_plain_spec_example :
    (∀ c ∈ "zone=rack1 memory=any arch=".data, c ∉ qslSpecial) ∧
      (parseConstraints "zone=rack1 memory=any arch=").pairs =
        claimedConstraints "zone=rack1 memory=any arch=" := by
  have h : ∀ c ∈ "zone=rack1 memory=any arch=".data, c ∉ qslSpecial := by decide
  exact ⟨h, parseConstraints_plain _ h⟩

example : (parseConstraints "zone=rack1 memory=any arch=").pairs = [("zone", "rack1"), ("arch", "")] := by
  decide

end Views
end MaasServer
