import Mathlib.Data.List.Basic

/-!
# Owner-data keys: the pattern and `REPLACE_RE`

Migration `0240_ownerdata_key_fix` reads a key through two regular expressions.
The database selects the rows to fix with `key__regex=r"^[\w.-]+$"`, and Python
rewrites each selected key with `REPLACE_RE = re.compile(r"[^\w.-]")`, replacing
every character outside the class by `_`.

## Two engines, one shape

The selection runs in PostgreSQL and the substitution in Python, and the two
engines need not agree on `\w` beyond ASCII.  So `\w` is a parameter, a
`WordClass`, and every statement of the migration names the class it reads with:
`db` for the selection, `py` for `REPLACE_RE`.  The one thing both classes share
is `_`, which every `\w` contains; it is a field, so a class without it cannot be
built.

## What is here

* `keyChar`, `matchesKeyRegex`, `replaceReSub`: the class `[\w.-]`, the anchored
  pattern, and the substitution.
* `underscores`: Python's `"_" * j`, the suffix the deduplicating loop appends.
* `replaceReSub_append_underscores`: the substitution leaves a rewritten key with
  any underscore suffix as it is, which is what makes the candidates of the loop
  fixed points of `REPLACE_RE`.
-/

namespace MaasServer
namespace Migrations

/-- A regex engine's `\w`.  Both engines count `_` as a word character. -/
structure WordClass where
  isWord : Char → Bool
  isWord_underscore : isWord '_' = true

/-- `\w` on ASCII: letters, digits and `_`.  Both engines agree on it. -/
def asciiWord : WordClass := ⟨fun c => c.isAlphanum || c == '_', rfl⟩

variable (w : WordClass)

/-- The character class `[\w.-]`. -/
def keyChar (c : Char) : Bool := w.isWord c || c == '.' || c == '-'

/-- `^[\w.-]+$`: at least one character, and every character in the class.  The
database matches without multiline mode, so `$` is the end of the key. -/
def matchesKeyRegex (s : String) : Bool := !s.data.isEmpty && s.data.all (keyChar w)

/-- `REPLACE_RE.sub("_", s)`: each character outside `[\w.-]` becomes `_`. -/
def replaceReSub (s : String) : String :=
  ⟨s.data.map fun c => if keyChar w c then c else '_'⟩

/-- Python's `"_" * j`. -/
def underscores (j : Nat) : String := ⟨List.replicate j '_'⟩

@[simp] theorem keyChar_underscore : keyChar w '_' = true := by
  simp [keyChar, w.isWord_underscore]

@[simp] theorem length_underscores (j : Nat) : (underscores j).length = j := by
  simp [underscores]

@[simp] theorem underscores_zero : underscores 0 = "" := rfl

theorem matchesKeyRegex_iff {s : String} :
    matchesKeyRegex w s = true ↔ s.data ≠ [] ∧ ∀ c ∈ s.data, keyChar w c = true := by
  simp [matchesKeyRegex, List.isEmpty_iff]

/-- The empty key fails the pattern: `+` asks for one character. -/
@[simp] theorem matchesKeyRegex_empty : matchesKeyRegex w "" = false := rfl

/-! ## The substitution -/

@[simp] theorem data_replaceReSub (s : String) :
    (replaceReSub w s).data = s.data.map fun c => if keyChar w c then c else '_' := rfl

/-- `REPLACE_RE.sub` replaces each matched character by exactly one `_`. -/
@[simp] theorem length_replaceReSub (s : String) : (replaceReSub w s).length = s.length := by
  cases s; simp [replaceReSub]

theorem replaceReSub_append (s t : String) :
    replaceReSub w (s ++ t) = replaceReSub w s ++ replaceReSub w t := by
  simp [String.ext_iff]

@[simp] theorem replaceReSub_underscores (j : Nat) : replaceReSub w (underscores j) = underscores j := by
  simp [String.ext_iff, underscores, List.map_replicate]

/-- Every character of a rewritten key is in the class. -/
theorem keyChar_of_mem_replaceReSub {s : String} {c : Char} (h : c ∈ (replaceReSub w s).data) :
    keyChar w c = true := by
  simp only [data_replaceReSub, List.mem_map] at h
  obtain ⟨d, -, rfl⟩ := h
  split <;> simp_all

/-- When every character Python keeps is one the database accepts, a non-empty
rewritten key with an underscore suffix matches the database's pattern. -/
theorem matchesKeyRegex_replaceReSub_append {db py : WordClass}
    (hagree : ∀ c, keyChar py c = true → keyChar db c = true) {s : String} {j : Nat}
    (hne : (replaceReSub py s ++ underscores j).data ≠ []) :
    matchesKeyRegex db (replaceReSub py s ++ underscores j) = true := by
  refine (matchesKeyRegex_iff db).mpr ⟨hne, fun c hc => ?_⟩
  rcases List.mem_append.mp ((String.data_append _ _) ▸ hc) with hc | hc
  · exact hagree c (keyChar_of_mem_replaceReSub py hc)
  · rw [List.eq_of_mem_replicate hc]
    exact keyChar_underscore db

/-- **A rewritten key with an underscore suffix is a fixed point of `REPLACE_RE`.** -/
theorem replaceReSub_append_underscores (s : String) (j : Nat) :
    replaceReSub w (replaceReSub w s ++ underscores j) = replaceReSub w s ++ underscores j := by
  rw [replaceReSub_append, replaceReSub_underscores]
  congr 1
  simp only [String.ext_iff, data_replaceReSub, List.map_map]
  exact List.map_congr_left fun c _ => by split <;> simp_all

end Migrations
end MaasServer
