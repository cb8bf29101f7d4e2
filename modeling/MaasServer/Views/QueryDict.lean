import MaasServer.Views.Utf8

/-!
# URL query strings: Django's `QueryDict` and `urllib.urlencode`

`_parse_constraints` ends with `QueryDict('&'.join(constraints))`: it encodes its
constraints as a URL query string and lets Django read them back.  This view runs
on Python 2 (it imports `urllib.urlencode`), where Django fills the dictionary
from `urlparse.parse_qsl(query_string, keep_blank_values=True)`:

* the string is cut at every `&` and, inside the pieces, at every `;`;
* empty pieces are skipped;
* each piece is split at its first `=`, and a piece without `=` gets the value `''`;
* in name and value, `+` becomes a space, then `%XX` escapes are decoded.  On a
  `unicode` string Python 2's `unquote` turns each escape into the Latin-1
  character of its byte.

A Python string is its list of characters throughout.

## Reading back

`parseQsl_intercalate`: parsing pieces joined by `&` is parsing each piece and
concatenating.  `parseQsl_plain`: a piece `k=v` without `&`, `;`, `+` or `%`,
and with no `=` in `k`, reads back as the one pair `(k, v)`.  Outside that domain
a piece can read back as several pairs, or as altered text.

## Writing

`get_preserved_query` writes a query string with Python 2's `urllib.urlencode`,
which applies `quote_plus(str(...))` to every key and value.  `str` of a
`unicode` value uses the ASCII codec and raises `UnicodeEncodeError` on any other
character.  `parseQsl_urlencode`: on ASCII pairs `parse_qsl` reads back exactly
the pairs `urlencode` wrote, in order.  `quote_plus` escapes every byte, so
`parseQsl_quotePlus_pair` holds for any byte string.

## The request after a link

The sort links are written by Django's own `QueryDict.urlencode`, which first
encodes each key and value to UTF-8 bytes (`force_bytes`); the request that
follows the link reads the bytes back with `parse_qsl` and decodes them with
`force_text` (`QueryDict.ofRequest`).  `ofRequest_queryDictUrlencode`: the
request holds every key and value the dictionary had, in its order, whatever
characters they hold.
-/

namespace MaasServer
namespace Views

/-- `s.split(sep, 1)`: the text before the first `sep` and the text after it, or
`[s]` when `sep` does not occur. -/
def splitOnce (sep : Char) (s : List Char) : List (List Char) :=
  match s.span (· != sep) with
  | (before, []) => [before]
  | (before, _ :: after) => [before, after]

/-- `s.replace('+', ' ')`. -/
def plusToSpace (s : List Char) : List Char := s.map fun c => if c = '+' then ' ' else c

/-- The value of a digit of `_hexdig = '0123456789ABCDEFabcdef'`. -/
def hexValue (c : Char) : Option Nat :=
  if '0' ≤ c ∧ c ≤ '9' then some (c.toNat - '0'.toNat)
  else if 'A' ≤ c ∧ c ≤ 'F' then some (c.toNat - 'A'.toNat + 10)
  else if 'a' ≤ c ∧ c ≤ 'f' then some (c.toNat - 'a'.toNat + 10)
  else none

/-- `urllib.unquote` on a `unicode` string: `%XX` becomes the character of code
`0xXX`, and a `%` without two hexadecimal digits after it stays. -/
def unquote : List Char → List Char
  | '%' :: h :: l :: rest =>
    match hexValue h, hexValue l with
    | some a, some b => Char.ofNat (16 * a + b) :: unquote rest
    | _, _ => '%' :: unquote (h :: l :: rest)
  | c :: rest => c :: unquote rest
  | [] => []

/-- `urlparse.parse_qsl(qs, keep_blank_values=True)`. -/
def parseQsl (qs : List Char) : List (List Char × List Char) :=
  ((qs.splitOn '&').flatMap (·.splitOn ';')).filterMap fun nameValue =>
    if nameValue.isEmpty then none
    else match splitOnce '=' nameValue with
      | [name, value] => some (unquote (plusToSpace name), unquote (plusToSpace value))
      | nv => some (unquote (plusToSpace (nv.headD [])), [])

/-- A `QueryDict`: its (key, value) pairs in the order of the query string. -/
structure QueryDict where
  pairs : List (String × String)
  deriving DecidableEq, Repr

/-- `QueryDict(query_string)`. -/
def QueryDict.ofQueryString (qs : List Char) : QueryDict :=
  ⟨(parseQsl qs).map fun p => (⟨p.1⟩, ⟨p.2⟩)⟩

/-- `QueryDict.getlist(key)`: the key's values, in order. -/
def QueryDict.getlist (q : QueryDict) (key : String) : List String :=
  (q.pairs.filter (·.1 = key)).map (·.2)

/-! ## Splitting -/

theorem splitOnce_of_not_mem {sep : Char} {s : List Char} (h : sep ∉ s) : splitOnce sep s = [s] := by
  have hall : ∀ c ∈ s, (c != sep) = true := fun c hc => bne_iff_ne.mpr fun hcs => h (hcs ▸ hc)
  simp [splitOnce, List.span_eq_take_drop, List.takeWhile_eq_self_iff.mpr hall,
    List.dropWhile_eq_nil_iff.mpr hall]

theorem splitOnce_append {sep : Char} {k : List Char} (h : sep ∉ k) (v : List Char) :
    splitOnce sep (k ++ sep :: v) = [k, v] := by
  have hall : ∀ c ∈ k, (c != sep) = true := fun c hc => bne_iff_ne.mpr fun hcs => h (hcs ▸ hc)
  simp [splitOnce, List.span_eq_take_drop, List.takeWhile_append_of_pos hall,
    List.dropWhile_append, List.dropWhile_eq_nil_iff.mpr hall]

/-- `s.split(sep, 1)` either finds no `sep`, or cuts at the first one. -/
theorem splitOnce_cases (sep : Char) (s : List Char) :
    (sep ∉ s ∧ splitOnce sep s = [s]) ∨
      ∃ k v, sep ∉ k ∧ s = k ++ sep :: v ∧ splitOnce sep s = [k, v] := by
  by_cases h : sep ∈ s
  · right
    have hne : s.dropWhile (· != sep) ≠ [] := fun hnil =>
      by simpa using List.dropWhile_eq_nil_iff.mp hnil sep h
    obtain ⟨x, v, hxv⟩ := List.exists_cons_of_ne_nil hne
    have hx : x = sep := by simpa [hxv] using List.head_dropWhile_not (· != sep) s hne
    rw [hx] at hxv
    obtain ⟨k, hkdef⟩ : ∃ k, s.takeWhile (· != sep) = k := ⟨_, rfl⟩
    have hk : sep ∉ k := fun hm => by
      rw [← hkdef] at hm
      simpa using List.mem_takeWhile_imp hm
    have hs : s = k ++ sep :: v := by rw [← hkdef, ← hxv, List.takeWhile_append_dropWhile]
    refine ⟨k, v, hk, hs, ?_⟩
    calc splitOnce sep s = splitOnce sep (k ++ sep :: v) := by rw [← hs]
      _ = [k, v] := splitOnce_append hk v
  · exact .inl ⟨h, splitOnce_of_not_mem h⟩

theorem splitOn_append_cons (a : Char) (l₁ l₂ : List Char) :
    (l₁ ++ a :: l₂).splitOn a = l₁.splitOn a ++ l₂.splitOn a := by
  induction l₁ with
  | nil => simp [List.splitOn, List.splitOnP_cons]
  | cons _ l₁ ih =>
    simp only [List.cons_append, List.splitOn, List.splitOnP_cons] at ih ⊢
    split
    · rw [ih]; rfl
    · obtain ⟨w, ws, hw⟩ := List.exists_cons_of_ne_nil (List.splitOnP_ne_nil (· == a) l₁)
      rw [ih, hw]
      rfl

theorem splitOn_of_not_mem {a : Char} {l : List Char} (h : a ∉ l) : l.splitOn a = [l] :=
  List.splitOnP_eq_single _ _ fun _ hx hxa => h (beq_iff_eq.mp hxa ▸ hx)

/-! ## Decoding -/

theorem plusToSpace_of_not_mem {s : List Char} (h : '+' ∉ s) : plusToSpace s = s := by
  conv_rhs => rw [← List.map_id s]
  exact List.map_congr_left fun c hc => if_neg fun hc' : c = '+' => h (hc' ▸ hc)

theorem unquote_of_not_mem : ∀ {s : List Char}, '%' ∉ s → unquote s = s
  | [], _ => rfl
  | c :: rest, h => by
    rw [unquote.eq_2 c rest fun _ _ _ hc _ => h (hc ▸ List.mem_cons_self c rest),
      unquote_of_not_mem fun hm => h (List.mem_cons_of_mem c hm)]

/-! ## Reading back -/

/-- The characters `parse_qsl` treats specially. -/
def qslSpecial : List Char := ['&', ';', '+', '%']

theorem intercalate_cons_cons (a : Char) (c d : List Char) (ds : List (List Char)) :
    [a].intercalate (c :: d :: ds) = c ++ a :: [a].intercalate (d :: ds) := by
  simp [List.intercalate, List.intersperse_cons_cons]

theorem splitOn_intercalate_cons (a : Char) (c : List Char) (cs : List (List Char)) :
    ([a].intercalate (c :: cs)).splitOn a = (c :: cs).flatMap (·.splitOn a) := by
  induction cs generalizing c with
  | nil => simp [List.intercalate]
  | cons d ds ih => rw [intercalate_cons_cons, splitOn_append_cons, ih, List.flatMap_cons _ (d :: ds)]

/-- **`parse_qsl` reads pieces joined by `&` one piece at a time.** -/
theorem parseQsl_intercalate (cs : List (List Char)) :
    parseQsl (['&'].intercalate cs) = cs.flatMap parseQsl := by
  cases cs with
  | nil => rfl
  | cons c cs =>
    rw [parseQsl, splitOn_intercalate_cons, List.flatMap_assoc, List.filterMap_flatMap]
    rfl

/-- A piece `k=v` with no `=` in `k` and no `&` or `;` is one pair, decoded. -/
theorem parseQsl_piece {k v : List Char} (hk : '=' ∉ k) (hamp : '&' ∉ k ++ '=' :: v)
    (hsemi : ';' ∉ k ++ '=' :: v) :
    parseQsl (k ++ '=' :: v) = [(unquote (plusToSpace k), unquote (plusToSpace v))] := by
  simp [parseQsl, splitOn_of_not_mem hamp, splitOn_of_not_mem hsemi, splitOnce_append hk]

/-- **A plain piece reads back as itself.**  `k=v` with no `=` in `k` and none of
`&`, `;`, `+`, `%` anywhere is the one pair `(k, v)`. -/
theorem parseQsl_plain {k v : List Char} (hk : '=' ∉ k)
    (hplain : ∀ c ∈ k ++ '=' :: v, c ∉ qslSpecial) : parseQsl (k ++ '=' :: v) = [(k, v)] := by
  have hnot : ∀ x ∈ qslSpecial, x ∉ k ∧ x ∉ v := fun x hx =>
    ⟨fun h => hplain x (by simp [h]) hx, fun h => hplain x (by simp [h]) hx⟩
  obtain ⟨hpk, hpv⟩ := hnot '+' (by decide)
  obtain ⟨hqk, hqv⟩ := hnot '%' (by decide)
  rw [parseQsl_piece hk (fun h => hplain '&' h (by decide)) (fun h => hplain ';' h (by decide)),
    plusToSpace_of_not_mem hpk, plusToSpace_of_not_mem hpv, unquote_of_not_mem hqk,
    unquote_of_not_mem hqv]

/-! ## Writing: `urllib.urlencode` -/

/-- The `UnicodeEncodeError` Python 2's `str` raises on a `unicode` value, with the
first character the ASCII codec cannot encode. -/
structure UnicodeEncodeError where
  char : Char
  deriving DecidableEq, Repr

/-- `str(s)` of a `unicode` string: its encoding by the default ASCII codec. -/
def strOfUnicode (s : List Char) : Except UnicodeEncodeError (List Char) :=
  match s.find? fun c => 128 ≤ c.toNat with
  | some c => .error ⟨c⟩
  | none => .ok s

/-- `urllib.always_safe`: ASCII letters and digits, and `_.-`. -/
def alwaysSafe (c : Char) : Bool := c.isAlphanum || c == '_' || c == '.' || c == '-'

/-- A digit of `'%02X'`: upper-case hexadecimal. -/
def hexDigit (n : Nat) : Char := if n < 10 then Char.ofNat (48 + n) else Char.ofNat (55 + n)

/-- `quote_plus` on one byte: a safe byte stays, a space becomes `+`, any other
byte becomes `%XX`. -/
def quotePlusChar (c : Char) : List Char :=
  if alwaysSafe c then [c]
  else if c = ' ' then ['+']
  else ['%', hexDigit (c.toNat / 16), hexDigit (c.toNat % 16)]

/-- `urllib.quote_plus(s)` on a byte string. -/
def quotePlus (s : List Char) : List Char := s.flatMap quotePlusChar

/-- One item of `urlencode`: `quote_plus(str(k)) + '=' + quote_plus(str(v))`. -/
def encodePair (kv : String × String) : Except UnicodeEncodeError (List Char) := do
  let k ← strOfUnicode kv.1.data
  let v ← strOfUnicode kv.2.data
  pure (quotePlus k ++ '=' :: quotePlus v)

/-- `urllib.urlencode(query)` with `doseq=0`, over the pairs in the order
`query.items()` gives them. -/
def urlencode (query : List (String × String)) : Except UnicodeEncodeError (List Char) := do
  let l ← query.mapM encodePair
  pure (['&'].intercalate l)

/-- A pair `str` can encode: both texts are ASCII. -/
def AsciiPair (kv : String × String) : Prop := ∀ c ∈ kv.1.data ++ kv.2.data, c.toNat < 128

theorem strOfUnicode_of_ascii {s : List Char} (h : ∀ c ∈ s, c.toNat < 128) :
    strOfUnicode s = .ok s := by
  have : s.find? (fun c => 128 ≤ c.toNat) = none :=
    List.find?_eq_none.mpr fun c hc => by simpa using h c hc
  simp [strOfUnicode, this]

theorem strOfUnicode_of_not_ascii {s : List Char} {c : Char} (hc : c ∈ s) (h : 128 ≤ c.toNat) :
    ∃ e, strOfUnicode s = .error e := by
  cases hf : s.find? fun c => 128 ≤ c.toNat with
  | none => exact absurd h (by simpa using List.find?_eq_none.mp hf c hc)
  | some c' => exact ⟨⟨c'⟩, by simp [strOfUnicode, hf]⟩

theorem encodePair_of_ascii {kv : String × String} (h : AsciiPair kv) :
    encodePair kv = .ok (quotePlus kv.1.data ++ '=' :: quotePlus kv.2.data) := by
  rw [encodePair, strOfUnicode_of_ascii fun c hc => h c (List.mem_append_left _ hc),
    strOfUnicode_of_ascii fun c hc => h c (List.mem_append_right _ hc)]
  rfl

theorem encodePair_of_not_ascii {kv : String × String} {c : Char} (hc : c ∈ kv.1.data ++ kv.2.data)
    (h : 128 ≤ c.toNat) : ∃ e, encodePair kv = .error e := by
  rcases List.mem_append.mp hc with hc | hc
  · obtain ⟨e, he⟩ := strOfUnicode_of_not_ascii hc h
    exact ⟨e, by rw [encodePair, he]; rfl⟩
  · obtain ⟨e, he⟩ := strOfUnicode_of_not_ascii hc h
    cases hk : strOfUnicode kv.1.data with
    | error e' => exact ⟨e', by rw [encodePair, hk]; rfl⟩
    | ok k => exact ⟨e, by rw [encodePair, hk, he]; rfl⟩

/-- A digit `'%02X'` writes is safe and decodes to its value. -/
theorem hexDigit_spec : ∀ n < 16, alwaysSafe (hexDigit n) ∧ hexValue (hexDigit n) = some n := by
  decide

/-- What `quote_plus` writes for a byte is safe, `+` or `%`. -/
theorem safe_of_mem_quotePlusChar {c x : Char} (hc : c.toNat < 256) (hx : x ∈ quotePlusChar c) :
    alwaysSafe x ∨ x = '+' ∨ x = '%' := by
  unfold quotePlusChar at hx
  split_ifs at hx with hs
  · exact .inl (List.mem_singleton.mp hx ▸ hs)
  · exact .inr (.inl (List.mem_singleton.mp hx))
  · simp only [List.mem_cons, List.not_mem_nil, or_false] at hx
    rcases hx with rfl | rfl | rfl
    · exact .inr (.inr rfl)
    · exact .inl (hexDigit_spec _ (by omega)).1
    · exact .inl (hexDigit_spec _ (Nat.mod_lt _ (by decide))).1

/-- The separators `parse_qsl` cuts at never occur in `quote_plus` of a byte string. -/
theorem sep_not_mem_quotePlus {s : List Char} (h : ∀ c ∈ s, c.toNat < 256) {x : Char}
    (hx : x ∈ ['&', ';', '=']) : x ∉ quotePlus s := fun hm => by
  obtain ⟨c, hc, hxc⟩ := List.mem_flatMap.mp hm
  rcases safe_of_mem_quotePlusChar (h c hc) hxc with hs | rfl | rfl
  · simp only [List.mem_cons, List.not_mem_nil, or_false] at hx
    rcases hx with rfl | rfl | rfl <;> exact absurd hs (by decide)
  all_goals exact absurd hx (by decide)

theorem unquote_plusToSpace_quotePlusChar {c : Char} (hc : c.toNat < 256) (rest : List Char) :
    unquote (plusToSpace (quotePlusChar c) ++ rest) = c :: unquote rest := by
  unfold quotePlusChar
  split_ifs with hs hsp
  · have hp : c ≠ '+' := fun h => absurd (h ▸ hs) (by decide)
    have hq : c ≠ '%' := fun h => absurd (h ▸ hs) (by decide)
    simp only [plusToSpace, List.map_cons, List.map_nil, if_neg hp, List.singleton_append]
    exact unquote.eq_2 c rest fun _ _ _ h _ => hq h
  · subst hsp
    exact unquote.eq_2 ' ' rest fun _ _ _ h _ => absurd h (by decide)
  · obtain ⟨hs₁, hv₁⟩ := hexDigit_spec (c.toNat / 16) (by omega)
    obtain ⟨hs₂, hv₂⟩ := hexDigit_spec (c.toNat % 16) (Nat.mod_lt _ (by decide))
    have hp : ∀ x, alwaysSafe x → x ≠ '+' := fun x hx h => absurd (h ▸ hx) (by decide)
    simp only [plusToSpace, List.map_cons, List.map_nil, if_neg (hp _ hs₁), if_neg (hp _ hs₂),
      if_neg (by decide : ('%' : Char) ≠ '+'), List.cons_append, List.nil_append, unquote.eq_1,
      hv₁, hv₂, Nat.div_add_mod, Char.ofNat_toNat]

/-- `unquote_plus` undoes `quote_plus` on every byte string. -/
theorem unquote_plusToSpace_quotePlus :
    ∀ {s : List Char}, (∀ c ∈ s, c.toNat < 256) → unquote (plusToSpace (quotePlus s)) = s
  | [], _ => rfl
  | c :: s, h => by
    rw [quotePlus, List.flatMap_cons, plusToSpace, List.map_append, ← plusToSpace,
      unquote_plusToSpace_quotePlusChar (h c (List.mem_cons_self c s)), ← plusToSpace, ← quotePlus,
      unquote_plusToSpace_quotePlus fun x hx => h x (List.mem_cons_of_mem c hx)]

/-- A written pair of byte strings reads back as itself. -/
theorem parseQsl_quotePlus_pair {a b : List Char} (ha : ∀ c ∈ a, c.toNat < 256)
    (hb : ∀ c ∈ b, c.toNat < 256) : parseQsl (quotePlus a ++ '=' :: quotePlus b) = [(a, b)] := by
  have hsep : ∀ x, x = '&' ∨ x = ';' → x ∉ quotePlus a ++ '=' :: quotePlus b := by
    intro x hx hm
    have hx' : x ∈ ['&', ';', '='] := by rcases hx with rfl | rfl <;> decide
    rcases List.mem_append.mp hm with hm | hm
    · exact sep_not_mem_quotePlus ha hx' hm
    · rcases List.mem_cons.mp hm with rfl | hm
      · rcases hx with h | h <;> exact absurd h (by decide)
      · exact sep_not_mem_quotePlus hb hx' hm
  rw [parseQsl_piece (sep_not_mem_quotePlus ha (by decide)) (hsep '&' (.inl rfl)) (hsep ';' (.inr rfl)),
    unquote_plusToSpace_quotePlus ha, unquote_plusToSpace_quotePlus hb]

/-- One written pair reads back as itself. -/
theorem parseQsl_encodePair {kv : String × String} (h : AsciiPair kv) :
    parseQsl (quotePlus kv.1.data ++ '=' :: quotePlus kv.2.data) = [(kv.1.data, kv.2.data)] :=
  parseQsl_quotePlus_pair (fun c hc => by have := h c (List.mem_append_left _ hc); omega)
    fun c hc => by have := h c (List.mem_append_right _ hc); omega

theorem mapM_encodePair_of_ascii :
    ∀ {query : List (String × String)}, (∀ kv ∈ query, AsciiPair kv) →
      query.mapM encodePair = .ok (query.map fun kv => quotePlus kv.1.data ++ '=' :: quotePlus kv.2.data)
  | [], _ => rfl
  | kv :: query, h => by
    rw [List.mapM_cons, encodePair_of_ascii (h kv (List.mem_cons_self kv query)),
      mapM_encodePair_of_ascii fun x hx => h x (List.mem_cons_of_mem kv hx)]
    rfl

theorem mapM_encodePair_of_not_ascii :
    ∀ {query : List (String × String)} {kv : String × String}, kv ∈ query →
      ∀ {c : Char}, c ∈ kv.1.data ++ kv.2.data → 128 ≤ c.toNat → ∃ e, query.mapM encodePair = .error e
  | x :: query, kv, hkv, c, hc, h => by
    rw [List.mapM_cons]
    cases hx : encodePair x with
    | error e => exact ⟨e, rfl⟩
    | ok k =>
      rcases List.mem_cons.mp hkv with rfl | hkv
      · obtain ⟨e, he⟩ := encodePair_of_not_ascii hc h
        exact absurd (hx.symm.trans he) (by simp)
      · obtain ⟨e, he⟩ := mapM_encodePair_of_not_ascii hkv hc h
        exact ⟨e, by rw [he]; rfl⟩

/-- **`parse_qsl` reads back what `urlencode` writes.**  On ASCII pairs `urlencode`
succeeds and `parse_qsl` returns the pairs, in order; a pair with a character
outside ASCII makes `urlencode` raise `UnicodeEncodeError`. -/
theorem parseQsl_urlencode (query : List (String × String)) :
    ((∀ kv ∈ query, AsciiPair kv) →
      ∃ qs, urlencode query = .ok qs ∧ parseQsl qs = query.map fun kv => (kv.1.data, kv.2.data)) ∧
      (∀ kv ∈ query, ∀ c ∈ kv.1.data ++ kv.2.data, 128 ≤ c.toNat → ∃ e, urlencode query = .error e) := by
  refine ⟨fun h => ⟨_, by rw [urlencode, mapM_encodePair_of_ascii h]; rfl, ?_⟩, fun kv hkv c hc h => ?_⟩
  · rw [parseQsl_intercalate, List.flatMap_map]
    calc query.flatMap (fun kv => parseQsl (quotePlus kv.1.data ++ '=' :: quotePlus kv.2.data))
        = query.flatMap (fun kv => [(kv.1.data, kv.2.data)]) :=
          List.flatMap_congr fun kv hkv => parseQsl_encodePair (h kv hkv)
      _ = query.map fun kv => (kv.1.data, kv.2.data) := (List.map_eq_flatMap _ _).symm
  · obtain ⟨e, he⟩ := mapM_encodePair_of_not_ascii hkv hc h
    exact ⟨e, by rw [urlencode, he]; rfl⟩

/-! ## The request after a link: Django's `QueryDict.urlencode` and `request.GET` -/

/-- A Python 2 byte string, as the characters of its bytes: what `unquote` writes
for `%XX`. -/
def latin1 (bytes : List Nat) : List Char := bytes.map Char.ofNat

/-- Django's `QueryDict.urlencode()`: for each key of the dictionary, in its order
`keys`, and each of its values `lists k`, `urllib.urlencode({k: v})` on the UTF-8
bytes `force_bytes` gives, joined by `&`. -/
def queryDictUrlencode (keys : List String) (lists : String → List String) : List Char :=
  ['&'].intercalate (keys.flatMap fun k => (lists k).map fun v =>
    quotePlus (latin1 (utf8Encode k.data)) ++ '=' :: quotePlus (latin1 (utf8Encode v.data)))

/-- `force_text(s, 'utf-8', errors='replace')` on a byte string: its UTF-8
decoding; `replace` is what the codec gives for ill-formed bytes. -/
def forceText (replace : List Nat → List Char) (s : List Char) : List Char :=
  (utf8Decode (s.map Char.toNat)).getD (replace (s.map Char.toNat))

/-- `request.GET`: Django's `QueryDict` over the raw query string of a request,
on Python 2: `parse_qsl` on the bytes, then `force_text` on every key and value. -/
def QueryDict.ofRequest (replace : List Nat → List Char) (qs : List Char) : QueryDict :=
  ⟨(parseQsl qs).map fun p => (⟨forceText replace p.1⟩, ⟨forceText replace p.2⟩)⟩

theorem toNat_ofNat_of_lt {b : Nat} (h : b < 256) : (Char.ofNat b).toNat = b := by
  rw [Char.ofNat, dif_pos (Or.inl (by omega))]
  rfl

theorem lt_256_of_mem_latin1 {s : List Char} {c : Char} (hc : c ∈ latin1 (utf8Encode s)) :
    c.toNat < 256 := by
  obtain ⟨b, hb, rfl⟩ := List.mem_map.mp hc
  have := lt_256_of_mem_utf8Encode hb
  rwa [toNat_ofNat_of_lt this]

/-- `force_text` undoes `force_bytes`. -/
theorem forceText_latin1_utf8Encode (replace : List Nat → List Char) (s : List Char) :
    forceText replace (latin1 (utf8Encode s)) = s := by
  have hbytes : (latin1 (utf8Encode s)).map Char.toNat = utf8Encode s := by
    rw [latin1, List.map_map]
    conv_rhs => rw [← List.map_id (utf8Encode s)]
    exact List.map_congr_left fun b hb => toNat_ofNat_of_lt (lt_256_of_mem_utf8Encode hb)
  rw [forceText, hbytes, utf8Decode_utf8Encode]
  rfl

/-- **`request.GET` reads back what `QueryDict.urlencode` writes**, key after key
in the dictionary's order and value after value, whatever characters they hold. -/
theorem ofRequest_queryDictUrlencode (replace : List Nat → List Char) (keys : List String)
    (lists : String → List String) :
    QueryDict.ofRequest replace (queryDictUrlencode keys lists) =
      ⟨keys.flatMap fun k => (lists k).map (k, ·)⟩ := by
  rw [QueryDict.ofRequest, queryDictUrlencode, parseQsl_intercalate, List.flatMap_assoc,
    List.map_flatMap]
  congr 1
  refine List.flatMap_congr fun k _ => ?_
  rw [List.flatMap_map, List.map_flatMap]
  conv_rhs => rw [List.map_eq_flatMap]
  refine List.flatMap_congr fun v _ => ?_
  rw [parseQsl_quotePlus_pair (fun c hc => lt_256_of_mem_latin1 hc)
    (fun c hc => lt_256_of_mem_latin1 hc)]
  simp only [List.map_cons, List.map_nil, forceText_latin1_utf8Encode]

/-- `force_text` leaves ASCII text as it is. -/
theorem forceText_of_ascii (replace : List Nat → List Char) {s : List Char}
    (h : ∀ c ∈ s, c.toNat < 128) : forceText replace s = s := by
  rw [forceText, ← utf8Encode_of_ascii h, utf8Decode_utf8Encode]
  rfl

/-- What `urllib.urlencode` writes of ASCII pairs, `request.GET` reads back as
those pairs. -/
theorem ofRequest_urlencode (replace : List Nat → List Char) {query : List (String × String)}
    (h : ∀ kv ∈ query, AsciiPair kv) :
    ∃ qs, urlencode query = .ok qs ∧ QueryDict.ofRequest replace qs = ⟨query⟩ := by
  obtain ⟨qs, henc, hread⟩ := (parseQsl_urlencode query).1 h
  refine ⟨qs, henc, ?_⟩
  rw [QueryDict.ofRequest, hread, List.map_map]
  congr 1
  conv_rhs => rw [← List.map_id query]
  refine List.map_congr_left fun kv hkv => ?_
  have hk : ∀ c ∈ kv.1.data, c.toNat < 128 := fun c hc => h kv hkv c (List.mem_append_left _ hc)
  have hv : ∀ c ∈ kv.2.data, c.toNat < 128 := fun c hc => h kv hkv c (List.mem_append_right _ hc)
  simp only [Function.comp_apply, forceText_of_ascii replace hk, forceText_of_ascii replace hv]
  rfl

/-- The values of a key in a `QueryDict` written key after key, over distinct keys. -/
theorem getlist_flatMap {keys : List String} (hnd : keys.Nodup) (lists : String → List String)
    (k : String) :
    QueryDict.getlist ⟨keys.flatMap fun k => (lists k).map (k, ·)⟩ k =
      if k ∈ keys then lists k else [] := by
  induction keys with
  | nil => rfl
  | cons k' keys ih =>
    obtain ⟨hk', hnd⟩ := List.nodup_cons.mp hnd
    have hhead : (((lists k').map (k', ·)).filter (·.1 = k)).map (·.2) =
        if k' = k then lists k' else [] := by
      split_ifs with h <;> simp [List.filter_map, h, Function.comp_def]
    simp only [QueryDict.getlist] at ih ⊢
    rw [List.flatMap_cons, List.filter_append, List.map_append, hhead, ih hnd]
    by_cases h : k' = k
    · subst h
      simp [hk']
    · simp [h, Ne.symm h]

end Views
end MaasServer
