import MaasServer.Views.NodePages

/-!
# The third-party drivers notice

When third-party drivers are enabled, `NodeListView.get` shows every user the
notice that `construct_third_party_drivers_notice` builds.  An administrator's
notice also links to the settings page: the URL `reverse("settings")` goes into
an `href="..."` attribute of a `mark_safe` text, through
`cgi.escape(..., quote=True)`, which turns `&`, `<`, `>` and `"` into character
references.

A browser reads a double-quoted attribute value up to the next `"` and decodes
the character references in it (`attrValues`).

* `cgiEscape_true`: the four `replace` calls of `cgi.escape` act on each
  character alone;
* `quote_not_mem_cgiEscape`: with `quote=True` no `"` is left;
* `htmlUnescape_cgiEscape_append`: decoding undoes the escaping;
* `nodeListViewGet_notice`: **the listing shows the notice exactly when the
  drivers are enabled, and whatever the settings URL holds, the notice has
  exactly one attribute value, the settings page's drivers section, for an
  administrator, and none for anyone else.**  The escaped URL cannot close the
  attribute, and decoding gives it back.
-/

namespace MaasServer
namespace Views

/-- `s.replace(old, new)` for a one-character `old`. -/
def replaceChar (s : List Char) (old : Char) (new : List Char) : List Char :=
  s.flatMap fun c => if c = old then new else [c]

/-- `cgi.escape(s, quote)`: `&` first, then `<` and `>`, and `"` when `quote`. -/
def cgiEscape (s : List Char) (quote : Bool) : List Char :=
  let s := replaceChar (replaceChar (replaceChar s '&' "&amp;".data) '<' "&lt;".data) '>' "&gt;".data
  if quote then replaceChar s '"' "&quot;".data else s

/-- `template % arg` for a template with one `%s` directive and no other `%`. -/
def percentS : List Char → List Char → List Char
  | '%' :: 's' :: rest, arg => arg ++ rest
  | c :: rest, arg => c :: percentS rest arg
  | [], _ => []

/-- `THIRD_PARTY_DRIVERS_NOTICE`, after `dedent`. -/
def thirdPartyDriversNotice : String :=
  "\nThird party drivers may be used when booting or installing nodes.\n" ++
    "These may be proprietary and closed-source.\n"

/-- `THIRD_PARTY_DRIVERS_ADMIN_NOTICE`, after `dedent`. -/
def thirdPartyDriversAdminNotice : String :=
  "\nThe installation of third party drivers can be disabled on the <a\n" ++
    "href=\"%s#third_party_drivers\">settings</a> page.\n"

/-- `construct_third_party_drivers_notice(user_is_admin)`; `settingsUrl` is
`reverse("settings")`. -/
def constructThirdPartyDriversNotice (settingsUrl : String) (userIsAdmin : Bool) : String :=
  if userIsAdmin then
    ⟨thirdPartyDriversNotice.data ++
      percentS thirdPartyDriversAdminNotice.data (cgiEscape settingsUrl.data true)⟩
  else thirdPartyDriversNotice

/-- The messages `NodeListView.get` adds: the notice, when the configuration
item `enable_third_party_drivers` is set. -/
def nodeListViewGetMessages (enableThirdPartyDrivers : Bool) (settingsUrl : String)
    (isSuperuser : Bool) : List (Level × String) :=
  if enableThirdPartyDrivers then [(.info, constructThirdPartyDriversNotice settingsUrl isSuperuser)]
  else []

/-! ## How a browser reads the notice -/

/-- The character references an HTML parser decodes, for those `cgi.escape`
writes; any other text stays as it is. -/
def htmlUnescape : List Char → List Char
  | [] => []
  | c :: rest =>
    if c = '&' then
      if "amp;".data.isPrefixOf rest then '&' :: htmlUnescape (rest.drop 4)
      else if "lt;".data.isPrefixOf rest then '<' :: htmlUnescape (rest.drop 3)
      else if "gt;".data.isPrefixOf rest then '>' :: htmlUnescape (rest.drop 3)
      else if "quot;".data.isPrefixOf rest then '"' :: htmlUnescape (rest.drop 5)
      else c :: htmlUnescape rest
    else c :: htmlUnescape rest
termination_by s => s.length

/-- A browser reading the double-quoted attribute values of an HTML text:
outside a value `="` opens one, and inside one (its characters so far, last
first) `"` closes it. -/
def attrValuesGo : Option (List Char) → List Char → List (List Char)
  | none, '=' :: '"' :: rest => attrValuesGo (some []) rest
  | none, _ :: rest => attrValuesGo none rest
  | none, [] => []
  | some v, c :: rest =>
    if c = '"' then htmlUnescape v.reverse :: attrValuesGo none rest
    else attrValuesGo (some (c :: v)) rest
  | some _, [] => []

/-- The double-quoted attribute values of an HTML text, decoded. -/
def attrValues (html : List Char) : List (List Char) := attrValuesGo none html

/-- What `cgi.escape(s, True)` writes for one character. -/
def escapeChar (c : Char) : List Char :=
  if c = '&' then "&amp;".data
  else if c = '<' then "&lt;".data
  else if c = '>' then "&gt;".data
  else if c = '"' then "&quot;".data
  else [c]

theorem replaceChar_singleton (c old : Char) (new : List Char) :
    replaceChar [c] old new = if c = old then new else [c] := by
  simp [replaceChar]

theorem replaceChar_flatMap (s : List Char) (f : Char → List Char) (old : Char) (new : List Char) :
    replaceChar (s.flatMap f) old new = s.flatMap fun c => replaceChar (f c) old new := by
  simp only [replaceChar, List.flatMap_assoc]

/-- The `replace` calls of `cgi.escape` act on each character alone. -/
theorem cgiEscape_true (s : List Char) : cgiEscape s true = s.flatMap escapeChar := by
  have hs : s = s.flatMap fun c => [c] := by simp
  rw [cgiEscape, if_pos rfl, hs]
  simp only [replaceChar_flatMap, List.flatMap_assoc]
  refine List.flatMap_congr fun c _ => ?_
  simp only [List.flatMap_singleton, replaceChar_singleton, escapeChar]
  by_cases h₁ : c = '&'
  · subst h₁; decide
  by_cases h₂ : c = '<'
  · subst h₂; decide
  by_cases h₃ : c = '>'
  · subst h₃; decide
  by_cases h₄ : c = '"'
  · subst h₄; decide
  simp [h₁, h₂, h₃, h₄, replaceChar]

theorem quote_not_mem_escapeChar (c : Char) : '"' ∉ escapeChar c := by
  unfold escapeChar
  split_ifs with h₁ h₂ h₃ h₄ <;> try decide
  simpa [eq_comm] using h₄

/-- With `quote=True` no `"` is left. -/
theorem quote_not_mem_cgiEscape (s : List Char) : '"' ∉ cgiEscape s true := by
  rw [cgiEscape_true, List.mem_flatMap]
  exact fun ⟨c, _, hc⟩ => quote_not_mem_escapeChar c hc

theorem htmlUnescape_cons_of_ne {c : Char} (hc : c ≠ '&') (rest : List Char) :
    htmlUnescape (c :: rest) = c :: htmlUnescape rest := by
  rw [htmlUnescape, if_neg hc]

/-- Text without `&` has no character reference. -/
theorem htmlUnescape_of_not_mem : ∀ {s : List Char}, '&' ∉ s → htmlUnescape s = s
  | [], _ => by rw [htmlUnescape]
  | c :: s, h => by
    simp only [List.mem_cons, not_or] at h
    rw [htmlUnescape_cons_of_ne (Ne.symm h.1), htmlUnescape_of_not_mem h.2]

theorem htmlUnescape_escapeChar_append (c : Char) (rest : List Char) :
    htmlUnescape (escapeChar c ++ rest) = c :: htmlUnescape rest := by
  unfold escapeChar
  split_ifs with h₁ h₂ h₃ h₄
  · subst h₁
    rw [List.cons_append, htmlUnescape, if_pos rfl, if_pos (by simp)]
    rfl
  · subst h₂
    rw [List.cons_append, htmlUnescape, if_pos rfl, if_neg (by simp), if_pos (by simp)]
    rfl
  · subst h₃
    rw [List.cons_append, htmlUnescape, if_pos rfl, if_neg (by simp), if_neg (by simp), if_pos (by simp)]
    rfl
  · subst h₄
    rw [List.cons_append, htmlUnescape, if_pos rfl, if_neg (by simp), if_neg (by simp),
      if_neg (by simp), if_pos (by simp)]
    rfl
  · exact htmlUnescape_cons_of_ne h₁ rest

/-- Decoding undoes the escaping, whatever follows. -/
theorem htmlUnescape_cgiEscape_append (s rest : List Char) :
    htmlUnescape (cgiEscape s true ++ rest) = s ++ htmlUnescape rest := by
  rw [cgiEscape_true]
  induction s with
  | nil => rfl
  | cons c s ih => rw [List.flatMap_cons, List.append_assoc, htmlUnescape_escapeChar_append, ih]; rfl

/-- Inside a value, text without `"` is read as part of it. -/
theorem attrValuesGo_some_append {p : List Char} (hp : '"' ∉ p) (acc rest : List Char) :
    attrValuesGo (some acc) (p ++ rest) = attrValuesGo (some (p.reverse ++ acc)) rest := by
  induction p generalizing acc with
  | nil => rfl
  | cons c p ih =>
    simp only [List.mem_cons, not_or] at hp
    obtain ⟨hc, hp⟩ := hp
    rw [List.cons_append, List.reverse_cons, List.append_assoc, List.singleton_append, ← ih hp]
    rw [attrValuesGo, if_neg (Ne.symm hc)]

/-- The administrator's notice: the drivers notice, the text up to the link's
`href="`, the escaped URL, and the rest. -/
theorem constructThirdPartyDriversNotice_true (settingsUrl : String) :
    (constructThirdPartyDriversNotice settingsUrl true).data =
      (thirdPartyDriversNotice ++
        "\nThe installation of third party drivers can be disabled on the <a\nhref=\"").data ++
      (cgiEscape settingsUrl.data true ++ ("#third_party_drivers".data ++
        '"' :: ">settings</a> page.\n".data)) := by
  simp only [constructThirdPartyDriversNotice, if_pos]
  rfl

theorem attrValues_constructThirdPartyDriversNotice (settingsUrl : String) (userIsAdmin : Bool) :
    attrValues (constructThirdPartyDriversNotice settingsUrl userIsAdmin).data =
      if userIsAdmin then [settingsUrl.data ++ "#third_party_drivers".data] else [] := by
  cases userIsAdmin with
  | false => rfl
  | true =>
    have hfrag : '"' ∉ "#third_party_drivers".data := by decide
    have hopen : ∀ x, attrValuesGo none ((thirdPartyDriversNotice ++
        "\nThe installation of third party drivers can be disabled on the <a\nhref=\"").data ++ x) =
        attrValuesGo (some []) x := fun _ => rfl
    rw [attrValues, constructThirdPartyDriversNotice_true, hopen,
      attrValuesGo_some_append (quote_not_mem_cgiEscape _), attrValuesGo_some_append hfrag]
    simp only [attrValuesGo, List.append_nil, List.reverse_append, List.reverse_reverse,
      htmlUnescape_cgiEscape_append, htmlUnescape_of_not_mem (show '&' ∉ "#third_party_drivers".data by decide),
      if_true]

theorem prefix_constructThirdPartyDriversNotice (settingsUrl : String) (userIsAdmin : Bool) :
    thirdPartyDriversNotice.data <+: (constructThirdPartyDriversNotice settingsUrl userIsAdmin).data := by
  cases userIsAdmin with
  | false => exact List.prefix_refl _
  | true => exact List.prefix_append _ _

/-- **The listing shows every user the drivers notice when the drivers are
enabled, and only then; whatever the settings URL holds, an administrator's
notice has exactly one attribute value, the settings page's drivers section,
and anyone else's has none.** -/
theorem nodeListViewGet_notice (enableThirdPartyDrivers : Bool) (settingsUrl : String)
    (isSuperuser : Bool) :
    (nodeListViewGetMessages enableThirdPartyDrivers settingsUrl isSuperuser).map (·.1) =
        (if enableThirdPartyDrivers then [.info] else []) ∧
      ∀ m ∈ nodeListViewGetMessages enableThirdPartyDrivers settingsUrl isSuperuser,
        thirdPartyDriversNotice.data <+: m.2.data ∧
          attrValues m.2.data =
            if isSuperuser then [settingsUrl.data ++ "#third_party_drivers".data] else [] := by
  unfold nodeListViewGetMessages
  split
  · refine ⟨rfl, fun m hm => ?_⟩
    obtain rfl := List.mem_singleton.mp hm
    exact ⟨prefix_constructThirdPartyDriversNotice _ _,
      attrValues_constructThirdPartyDriversNotice _ _⟩
  · exact ⟨rfl, fun m hm => absurd hm (List.not_mem_nil m)⟩

end Views
end MaasServer
