import Mathlib.Data.List.Basic

/-!
# UTF-8, as Django's `force_bytes` and `force_text` use it

Django's `QueryDict.urlencode` writes each key and value with `force_bytes`, the
UTF-8 encoding, and the request that follows a link reads them back with
`force_text(..., errors='replace')`.  Python's codec follows RFC 3629:

* `utf8EncodeChar`: one, two, three or four bytes by the code point's range;
* `utf8Decode`: the strict decoder of RFC 3629 §4, which accepts exactly the
  well-formed byte sequences (no overlong forms, no surrogates, nothing above
  `U+10FFFF`).  With `errors='replace'` the codec returns what the strict one
  does whenever that succeeds; what it writes for ill-formed input is left to a
  parameter where it is used (Python 2 also decodes encoded surrogates, which a
  Lean `Char` cannot hold).

A byte string of Python 2 is kept as its list of byte values.

* `utf8Decode_utf8EncodeChar`: decoding the bytes of a character, followed by
  anything, gives the character followed by the decoding of the rest;
* `utf8Decode_utf8Encode`: **decoding undoes encoding**, for every string;
* `lt_256_of_mem_utf8Encode`: every byte written is a byte;
* `utf8Encode_of_ascii`: ASCII text is its own encoding.
-/

namespace MaasServer
namespace Views

/-- `unicode.encode('utf-8')` of one character. -/
def utf8EncodeChar (c : Char) : List Nat :=
  if c.toNat < 0x80 then [c.toNat]
  else if c.toNat < 0x800 then [0xC0 + c.toNat / 0x40, 0x80 + c.toNat % 0x40]
  else if c.toNat < 0x10000 then
    [0xE0 + c.toNat / 0x1000, 0x80 + c.toNat / 0x40 % 0x40, 0x80 + c.toNat % 0x40]
  else
    [0xF0 + c.toNat / 0x40000, 0x80 + c.toNat / 0x1000 % 0x40, 0x80 + c.toNat / 0x40 % 0x40,
      0x80 + c.toNat % 0x40]

/-- `unicode.encode('utf-8')`. -/
def utf8Encode (s : List Char) : List Nat := s.flatMap utf8EncodeChar

/-- `UTF8-tail = %x80-BF`. -/
def isTail (b : Nat) : Bool := 0x80 ≤ b && b ≤ 0xBF

/-- The range RFC 3629 §4 allows for the second byte of a three- or four-byte
sequence opened by `b₀`: `%xE0 %xA0-BF`, `%xED %x80-9F`, `%xF0 %x90-BF`,
`%xF4 %x80-8F`, and a tail byte otherwise. -/
def secondByteOk (b₀ b₁ : Nat) : Bool :=
  if b₀ = 0xE0 then 0xA0 ≤ b₁ && b₁ ≤ 0xBF
  else if b₀ = 0xED then 0x80 ≤ b₁ && b₁ ≤ 0x9F
  else if b₀ = 0xF0 then 0x90 ≤ b₁ && b₁ ≤ 0xBF
  else if b₀ = 0xF4 then 0x80 ≤ b₁ && b₁ ≤ 0x8F
  else isTail b₁

/-- The strict UTF-8 decoder of RFC 3629 §4: the characters, or `none` on an
ill-formed sequence. -/
def utf8Decode : List Nat → Option (List Char)
  | [] => some []
  | b₀ :: rest =>
    if b₀ < 0x80 then (Char.ofNat b₀ :: ·) <$> utf8Decode rest
    else match rest with
      | [] => none
      | b₁ :: rest₁ =>
        if 0xC2 ≤ b₀ ∧ b₀ ≤ 0xDF then
          if isTail b₁ then (Char.ofNat ((b₀ - 0xC0) * 0x40 + (b₁ - 0x80)) :: ·) <$> utf8Decode rest₁
          else none
        else match rest₁ with
          | [] => none
          | b₂ :: rest₂ =>
            if 0xE0 ≤ b₀ ∧ b₀ ≤ 0xEF then
              if secondByteOk b₀ b₁ ∧ isTail b₂ then
                (Char.ofNat ((b₀ - 0xE0) * 0x1000 + (b₁ - 0x80) * 0x40 + (b₂ - 0x80)) :: ·) <$>
                  utf8Decode rest₂
              else none
            else match rest₂ with
              | [] => none
              | b₃ :: rest₃ =>
                if 0xF0 ≤ b₀ ∧ b₀ ≤ 0xF4 ∧ secondByteOk b₀ b₁ ∧ isTail b₂ ∧ isTail b₃ then
                  (Char.ofNat ((b₀ - 0xF0) * 0x40000 + (b₁ - 0x80) * 0x1000 + (b₂ - 0x80) * 0x40 +
                    (b₃ - 0x80)) :: ·) <$> utf8Decode rest₃
                else none

/-- A character's code point is a Unicode scalar value. -/
theorem toNat_isValidChar (c : Char) : c.toNat < 0xD800 ∨ (0xDFFF < c.toNat ∧ c.toNat < 0x110000) :=
  c.valid

/-- Every byte of a character's encoding is a byte. -/
theorem lt_256_of_mem_utf8EncodeChar {c : Char} {b : Nat} (hb : b ∈ utf8EncodeChar c) : b < 256 := by
  have := toNat_isValidChar c
  unfold utf8EncodeChar at hb
  split_ifs at hb <;> simp only [List.mem_cons, List.not_mem_nil, or_false] at hb <;> omega

theorem lt_256_of_mem_utf8Encode {s : List Char} {b : Nat} (hb : b ∈ utf8Encode s) : b < 256 := by
  obtain ⟨c, -, hc⟩ := List.mem_flatMap.mp hb
  exact lt_256_of_mem_utf8EncodeChar hc

/-- **A character's bytes decode back to it**, whatever follows them. -/
theorem utf8Decode_utf8EncodeChar (c : Char) (rest : List Nat) :
    utf8Decode (utf8EncodeChar c ++ rest) = (c :: ·) <$> utf8Decode rest := by
  have hv := toNat_isValidChar c
  unfold utf8EncodeChar
  split_ifs with h₁ h₂ h₃
  · conv_lhs => rw [List.singleton_append, utf8Decode.eq_def]
    dsimp only
    rw [if_pos h₁, Char.ofNat_toNat]
  · have hc : (0xC0 + c.toNat / 0x40 - 0xC0) * 0x40 + (0x80 + c.toNat % 0x40 - 0x80) = c.toNat := by
      omega
    conv_lhs => rw [List.cons_append, List.singleton_append, utf8Decode.eq_def]
    dsimp only
    rw [if_neg (by omega), if_pos (by omega), if_pos (by simp only [isTail]; simp; omega), hc,
      Char.ofNat_toNat]
  · have hc : (0xE0 + c.toNat / 0x1000 - 0xE0) * 0x1000 + (0x80 + c.toNat / 0x40 % 0x40 - 0x80) * 0x40 +
        (0x80 + c.toNat % 0x40 - 0x80) = c.toNat := by omega
    have hs : secondByteOk (0xE0 + c.toNat / 0x1000) (0x80 + c.toNat / 0x40 % 0x40) = true := by
      unfold secondByteOk isTail
      split_ifs <;> simp <;> omega
    conv_lhs => rw [List.cons_append, List.cons_append, List.singleton_append, utf8Decode.eq_def]
    dsimp only
    rw [if_neg (by omega), if_neg (by omega), if_pos (by omega),
      if_pos ⟨hs, by simp only [isTail]; simp; omega⟩, hc, Char.ofNat_toNat]
  · have hc : (0xF0 + c.toNat / 0x40000 - 0xF0) * 0x40000 + (0x80 + c.toNat / 0x1000 % 0x40 - 0x80) * 0x1000 +
        (0x80 + c.toNat / 0x40 % 0x40 - 0x80) * 0x40 + (0x80 + c.toNat % 0x40 - 0x80) = c.toNat := by
      omega
    have hs : secondByteOk (0xF0 + c.toNat / 0x40000) (0x80 + c.toNat / 0x1000 % 0x40) = true := by
      unfold secondByteOk isTail
      split_ifs <;> simp <;> omega
    conv_lhs => rw [List.cons_append, List.cons_append, List.cons_append, List.singleton_append,
      utf8Decode.eq_def]
    dsimp only
    rw [if_neg (by omega), if_neg (by omega), if_neg (by omega),
      if_pos ⟨by omega, by omega, hs, by simp only [isTail]; simp; omega,
        by simp only [isTail]; simp; omega⟩, hc, Char.ofNat_toNat]

/-- ASCII text is its own encoding. -/
theorem utf8Encode_of_ascii {s : List Char} (h : ∀ c ∈ s, c.toNat < 128) :
    utf8Encode s = s.map Char.toNat := by
  rw [utf8Encode, List.map_eq_flatMap]
  exact List.flatMap_congr fun c hc => if_pos (h c hc)

/-- **Decoding undoes encoding**, for every string. -/
theorem utf8Decode_utf8Encode : ∀ s : List Char, utf8Decode (utf8Encode s) = some s
  | [] => rfl
  | c :: s => by
    rw [utf8Encode, List.flatMap_cons, utf8Decode_utf8EncodeChar, ← utf8Encode,
      utf8Decode_utf8Encode s]
    rfl

end Views
end MaasServer
