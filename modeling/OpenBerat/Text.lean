/-
**Text as the backend handles it.**

A Rust `str` is a list of Unicode scalar values (`Str`), its bytes are the UTF-8 encoding, and a
header value is a byte list. The functions below are the standard library calls of the backend,
under their Rust names.
-/

import Mathlib.Data.List.DropRight
import OpenBerat.Lib.Split
import OpenBerat.Lib.Utf8

namespace OpenBerat

/-- A Rust string. -/
abbrev Str := List Char

/-- A byte string. -/
abbrev Bytes := List UInt8

/-- `str::as_bytes`. -/
def asBytes (text : Str) : Bytes :=
  Lib.utf8 text

/-- `String::from_utf8`, with the error dropped as every caller drops it. -/
def fromUtf8 (bytes : Bytes) : Option Str :=
  Lib.fromUtf8 bytes

/-- `str::make_ascii_lowercase`. -/
def makeAsciiLowercase (text : Str) : Str :=
  text.map Char.toLower

/-- **Lower case of a character**: an upper-case letter moves by 32, anything else stays. -/
theorem toLower_cases (char : Char) :
    (char.isUpper = false ∧ char.toLower = char) ∨
      (char.isUpper = true ∧ char.toLower.toNat = char.toNat + 32) := by
  unfold Char.isUpper Char.toLower
  by_cases upper : 'A'.val ≤ char.val ∧ char.val ≤ 'Z'.val
  · refine Or.inr ⟨by simpa using upper, ?_⟩
    rw [dif_pos upper]
    have small : char.val.toNat ≤ 90 := UInt32.le_iff_toNat_le.mp upper.2
    show (char.val + ('a'.val - 'A'.val)).toNat = char.val.toNat + 32
    rw [UInt32.toNat_add]
    show (char.val.toNat + 32) % 2 ^ 32 = _
    omega
  · exact Or.inl ⟨by simpa using upper, dif_neg upper⟩

theorem toLower_of_not_upper {char : Char} (lower : char.isUpper = false) :
    char.toLower = char := by
  rcases toLower_cases char with ⟨_, same⟩ | ⟨upper, _⟩
  · exact same
  · rw [lower] at upper
    cases upper

theorem isUpper_iff {char : Char} : char.isUpper = true ↔ 65 ≤ char.toNat ∧ char.toNat ≤ 90 := by
  unfold Char.isUpper
  rw [decide_eq_true_iff]
  exact and_congr UInt32.le_iff_toNat_le UInt32.le_iff_toNat_le

theorem isUpper_toLower (char : Char) : char.toLower.isUpper = false := by
  rcases toLower_cases char with ⟨other, same⟩ | ⟨upper, moved⟩
  · rwa [same]
  · refine Bool.eq_false_iff.mpr fun again => ?_
    have bounds := isUpper_iff.mp upper
    have moved_bounds := isUpper_iff.mp again
    omega

/-- `char::is_control`: the Unicode category Cc. -/
def isControl (char : Char) : Bool :=
  char.toNat < 0x20 || (0x7f ≤ char.toNat && char.toNat ≤ 0x9f)

/-- `str::trim_end_matches` with a character. -/
def trimEndMatches (char : Char) (text : Str) : Str :=
  text.rdropWhile (· == char)

/-- `str::replace` of one character by another. -/
def replaceChar (old new : Char) (text : Str) : Str :=
  text.map fun char => if char = old then new else char

/-- `text.split(sep).next().unwrap_or_default()`: the part before the first separator. -/
def firstPiece (sep : Char) (text : Str) : Str :=
  (text.splitOn sep).headD []

/-- `pieces.join(sep)`. -/
def join (sep : Char) (pieces : List Str) : Str :=
  [sep].intercalate pieces

/-- `str::ends_with`. -/
def endsWith (suffix text : Str) : Bool :=
  suffix.isSuffixOf text

/-- `str::strip_prefix`. -/
def stripPrefix (start text : Str) : Option Str :=
  if start <+: text then some (text.drop start.length) else none

theorem stripPrefix_eq_some {start text rest : Str} :
    stripPrefix start text = some rest ↔ text = start ++ rest := by
  unfold stripPrefix
  rw [Option.ite_none_right_eq_some]
  constructor
  · rintro ⟨⟨tail, rfl⟩, same⟩
    rw [List.drop_left] at same
    rw [Option.some.inj same]
  · rintro rfl
    exact ⟨⟨rest, rfl⟩, by rw [List.drop_left]⟩

/-- `char::is_whitespace`: the Unicode property White_Space. -/
def isWhitespace (char : Char) : Bool :=
  (9 ≤ char.toNat && char.toNat ≤ 13) || char.toNat == 0x20 || char.toNat == 0x85 ||
    char.toNat == 0xa0 || char.toNat == 0x1680 || (0x2000 ≤ char.toNat && char.toNat ≤ 0x200a) ||
    char.toNat == 0x2028 || char.toNat == 0x2029 || char.toNat == 0x202f ||
    char.toNat == 0x205f || char.toNat == 0x3000

/-- `str::trim`. -/
def trim (text : Str) : Str :=
  (text.rdropWhile isWhitespace).dropWhile isWhitespace

theorem replaceChar_eq_self {old new : Char} {text : Str} (free : old ∉ text) :
    replaceChar old new text = text := by
  refine (List.map_congr_left fun char member => if_neg ?_).trans (List.map_id' _)
  rintro rfl
  exact free member

theorem mem_join {sep char : Char} {names : List Str} (member : char ∈ join sep names) :
    char = sep ∨ ∃ name ∈ names, char ∈ name := by
  by_cases none : names = []
  · subst none
    cases member
  · have rooted : char ∈ Lib.rooted sep names := by
      rw [Lib.rooted_eq_intercalate sep none]
      exact List.mem_cons_of_mem _ member
    obtain ⟨name, inside, found⟩ := List.mem_flatMap.mp rooted
    rcases List.mem_cons.mp found with same | found
    · exact Or.inl same
    · exact Or.inr ⟨name, inside, found⟩

theorem mem_join_of_mem {sep char : Char} {names : List Str} {name : Str} (inside : name ∈ names)
    (member : char ∈ name) (other : char ≠ sep) : char ∈ join sep names := by
  have rooted : char ∈ Lib.rooted sep names :=
    List.mem_flatMap.mpr ⟨name, inside, List.mem_cons_of_mem _ member⟩
  rw [Lib.rooted_eq_intercalate sep (List.ne_nil_of_mem inside)] at rooted
  exact (List.mem_cons.mp rooted).resolve_left other

/-- Bytes below 0x80 are characters of their own. -/
theorem ascii_of_all {test : UInt8 → Bool} (low : ∀ byte, test byte = true → byte.toNat < 0x80)
    {text : Str} (all : (asBytes text).all test = true) :
    ∀ char ∈ text, ∃ byte, test byte = true ∧ byte.toNat = char.toNat := by
  intro char member
  obtain ⟨byte, rest, shape⟩ := List.exists_cons_of_ne_nil (Lib.encodeChar_ne_nil char)
  have inside : byte ∈ String.utf8EncodeChar char := by
    rw [shape]
    exact List.mem_cons_self
  have passes := List.all_eq_true.mp all byte (List.mem_flatMap.mpr ⟨char, member, inside⟩)
  have bound := low byte passes
  by_cases small : char.toNat < 0x80
  · rw [Lib.encodeChar_ascii small, List.mem_singleton] at inside
    have code : byte.toNat = char.toNat := by
      rw [inside, UInt8.toNat_ofNat']
      omega
    exact ⟨byte, passes, code⟩
  · have wide := Lib.encodeChar_wide (Nat.not_lt.mp small) byte inside
    omega

end OpenBerat
