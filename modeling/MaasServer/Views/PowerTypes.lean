import Mathlib.Data.List.Sort
import Mathlib.Data.String.Basic

/-!
# The power types a page's JavaScript gets

`generate_js_power_types` writes the names of the power types the clusters
support as a JavaScript array literal, for the listing and the node-edit pages.
The literal is `[`, then each name in double quotes, sorted, one per line with a
comma after all but the last, then `]`.  The names are not escaped.

`readJsStrings` is a JavaScript reader for the part of the grammar the literal
uses: an array literal of string literals without escapes, with white space
between the tokens.  It follows ECMAScript 2019 and later, where a string
literal may hold U+2028 and U+2029 (ECMAScript 5 read them as line
terminators and rejected them there).

* `readJsGo_str_append`: a string literal is read up to its closing `"`;
* `readJsGo_items`: the items are read one after another;
* `readJsStrings_generateJsPowerTypes`: **when no name holds a `"`, a backslash
  or a line break, the page's JavaScript reads an array of exactly the power
  types, sorted.**
-/

namespace MaasServer
namespace Views

/-- `generate_js_power_types`, over the names of the power types that
`get_power_types` returns (the keys of a dictionary). -/
def generateJsPowerTypes (powerTypes : List String) : String :=
  let names := (powerTypes.mergeSort fun a b => decide (a ≤ b)).map fun t => '"' :: t.data ++ ['"']
  ⟨"[\n".data ++ ",\n".data.intercalate names ++ "\n]".data⟩

/-! ## How JavaScript reads the literal -/

/-- JavaScript white space and line terminators, as far as the literal uses them. -/
def isJsSpace (c : Char) : Bool := c = ' ' || c = '\t' || c = '\n' || c = '\r'

/-- A character an ECMAScript 2019 string literal holds as it is: not `"`, which
ends it, not a backslash, which starts an escape, and not a line feed or carriage
return, which it cannot hold.  U+2028 and U+2029 are plain characters here, as
they are since ECMAScript 2019. -/
def jsPlainChar (c : Char) : Bool := c ≠ '"' && c ≠ '\\' && c ≠ '\n' && c ≠ '\r'

/-- Where a JavaScript reader is in an array literal of string literals. -/
inductive JsArrayState
  /-- before `[` -/
  | start
  /-- after `[` or `,`: a string literal or `]` -/
  | item
  /-- inside a string literal, with its characters so far, last first -/
  | str (acc : List Char)
  /-- after a string literal: `,` or `]` -/
  | sep
  /-- after `]` -/
  | done

/-- The reader: from a state and the items read so far (last first), the items
of the literal, or `none` outside the grammar. -/
def readJsGo : JsArrayState → List (List Char) → List Char → Option (List (List Char))
  | .done, items, [] => some items.reverse
  | _, _, [] => none
  | .start, items, c :: rest =>
    if isJsSpace c then readJsGo .start items rest
    else if c = '[' then readJsGo .item items rest else none
  | .item, items, c :: rest =>
    if isJsSpace c then readJsGo .item items rest
    else if c = '"' then readJsGo (.str []) items rest
    else if c = ']' then readJsGo .done items rest else none
  | .str acc, items, c :: rest =>
    if c = '"' then readJsGo .sep (acc.reverse :: items) rest
    else if jsPlainChar c then readJsGo (.str (c :: acc)) items rest else none
  | .sep, items, c :: rest =>
    if isJsSpace c then readJsGo .sep items rest
    else if c = ',' then readJsGo .item items rest
    else if c = ']' then readJsGo .done items rest else none
  | .done, items, c :: rest => if isJsSpace c then readJsGo .done items rest else none

/-- The strings of a JavaScript array literal of string literals. -/
def readJsStrings (js : List Char) : Option (List (List Char)) := readJsGo .start [] js

/-- A string literal is read up to its closing `"`. -/
theorem readJsGo_str_append {t : List Char} (ht : ∀ c ∈ t, jsPlainChar c)
    (acc : List Char) (items : List (List Char)) (rest : List Char) :
    readJsGo (.str acc) items (t ++ '"' :: rest) =
      readJsGo .sep ((t.reverse ++ acc).reverse :: items) rest := by
  induction t generalizing acc with
  | nil => rw [List.nil_append, readJsGo, if_pos rfl, List.reverse_nil, List.nil_append]
  | cons c t ih =>
    have hc := ht c (List.mem_cons_self c t)
    have hq : c ≠ '"' := by simp only [jsPlainChar, Bool.and_eq_true, decide_eq_true_eq] at hc; exact hc.1.1.1
    rw [List.cons_append, readJsGo, if_neg hq, if_pos hc,
      ih (fun x hx => ht x (List.mem_cons_of_mem c hx)), List.reverse_cons, List.append_assoc,
      List.singleton_append]

theorem readJsGo_sep_close (items : List (List Char)) :
    readJsGo .sep items "\n]".data = some items.reverse := rfl

theorem readJsGo_sep_comma (items : List (List Char)) (rest : List Char) :
    readJsGo .sep items (",\n".data ++ rest) = readJsGo .item items rest := rfl

/-- The items of the literal, `"name"` joined by `,` and a line break and
followed by a line break and `]`, are read one after another. -/
theorem readJsGo_items (items : List (List Char)) :
    ∀ names : List (List Char), (∀ n ∈ names, ∀ c ∈ n, jsPlainChar c) →
      readJsGo .item items
          (",\n".data.intercalate (names.map fun t => '"' :: t ++ ['"']) ++ "\n]".data) =
        some (items.reverse ++ names)
  | [], _ => by
    rw [List.append_nil]
    rfl
  | [n], h => by
    have hone : ",\n".data.intercalate ['"' :: n ++ ['"']] = '"' :: (n ++ ['"']) := by
      simp [List.intercalate]
    rw [List.map_singleton, hone, List.cons_append, List.append_assoc, List.singleton_append, readJsGo, if_neg (by decide), if_pos rfl, readJsGo_str_append (h n (List.mem_singleton_self n)),
      List.append_nil, List.reverse_reverse, readJsGo_sep_close, List.reverse_cons]
  | n :: m :: names, h => by
    have ih := readJsGo_items (n :: items) (m :: names) fun x hx => h x (List.mem_cons_of_mem n hx)
    have hsplit : ",\n".data.intercalate ((n :: m :: names).map fun t => '"' :: t ++ ['"']) =
        '"' :: (n ++ '"' :: (",\n".data ++
          ",\n".data.intercalate ((m :: names).map fun t => '"' :: t ++ ['"']))) := by
      simp [List.intercalate, List.intersperse_cons_cons]
    rw [hsplit, List.cons_append, List.append_assoc, List.cons_append, List.append_assoc, readJsGo, if_neg (by decide), if_pos rfl, readJsGo_str_append (h n (List.mem_cons_self n _)),
      List.append_nil, List.reverse_reverse, readJsGo_sep_comma, ih, List.reverse_cons, List.append_assoc,
      List.singleton_append]

/-- **The page's JavaScript gets exactly the power types, sorted**, when no
name holds a `"`, a backslash or a line break. -/
theorem readJsStrings_generateJsPowerTypes {powerTypes : List String}
    (h : ∀ t ∈ powerTypes, ∀ c ∈ t.data, jsPlainChar c) :
    ∃ names : List String, readJsStrings (generateJsPowerTypes powerTypes).data =
        some (names.map String.data) ∧ names.Perm powerTypes ∧ names.Sorted (· ≤ ·) := by
  let le : String → String → Bool := fun a b => decide (a ≤ b)
  have hperm := List.mergeSort_perm powerTypes le
  have hsorted : (powerTypes.mergeSort le).Pairwise fun a b => le a b :=
    List.sorted_mergeSort (fun a b c hab hbc => by simp only [le, decide_eq_true_eq] at *; exact le_trans hab hbc)
      (fun a b => by simpa only [le, Bool.or_eq_true, decide_eq_true_eq] using le_total a b) powerTypes
  refine ⟨powerTypes.mergeSort le, ?_, hperm, hsorted.imp fun hab => by simpa [le] using hab⟩
  have hnames : ∀ n ∈ (powerTypes.mergeSort le).map String.data, ∀ c ∈ n, jsPlainChar c := by
    intro n hn c hc
    obtain ⟨t, ht, rfl⟩ := List.mem_map.mp hn
    exact h t (hperm.subset ht) c hc
  have hread := readJsGo_items [] _ hnames
  rw [List.map_map] at hread
  rw [readJsStrings, generateJsPowerTypes, List.append_assoc]
  exact hread

/-- Two power types of the clusters. -/
theorem readJsStrings_generateJsPowerTypes_virsh :
    (∀ t ∈ ["virsh", "ipmi"], ∀ c ∈ t.data, jsPlainChar c) ∧
      ∃ names : List String, readJsStrings (generateJsPowerTypes ["virsh", "ipmi"]).data =
        some (names.map String.data) ∧ names.Perm ["virsh", "ipmi"] ∧ names.Sorted (· ≤ ·) := by
  have h : ∀ t ∈ ["virsh", "ipmi"], ∀ c ∈ t.data, jsPlainChar c := by decide
  exact ⟨h, readJsStrings_generateJsPowerTypes h⟩

end Views
end MaasServer
