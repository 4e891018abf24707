/-
**UTF-8 over lists.**

`utf8` encodes a list of Unicode scalar values with the standard library's `String.utf8EncodeChar`;
`fromUtf8` is the strict decoder: it reads the length from the first byte, assembles one candidate
and accepts it only if it encodes back to the bytes read. Both compute by structural recursion.

* `fromUtf8_eq_some`: the decoder is the exact inverse of the encoder, on every byte list.
* `utf8_split`: an ASCII byte in an encoding is an ASCII character, so an encoding may be cut there.
* `fromUtf8_append_ascii`: decoding commutes with cutting at an ASCII byte, also when it fails.
-/

import Mathlib.Data.List.Basic
import Mathlib.Tactic.Common

namespace OpenBerat.Lib

/-- The UTF-8 encoding of a list of scalar values. -/
def utf8 (text : List Char) : List UInt8 :=
  text.flatMap String.utf8EncodeChar

/-- Puts `char` in front of a decoded rest, if `char` really encodes to the bytes it was read
from. -/
def pushChecked (char : Char) (read : List UInt8) (rest : Option (List Char)) :
    Option (List Char) :=
  if String.utf8EncodeChar char = read then rest.map (char :: ·) else none

/-- Strict UTF-8 decoding. -/
def fromUtf8 : List UInt8 → Option (List Char)
  | [] => some []
  | a :: rest =>
    if a.toNat < 0x80 then pushChecked (Char.ofNat a.toNat) [a] (fromUtf8 rest)
    else match rest with
      | [] => none
      | b :: rest =>
        if a.toNat < 0xe0 then
          pushChecked (Char.ofNat ((a.toNat - 0xc0) * 64 + (b.toNat - 0x80))) [a, b] (fromUtf8 rest)
        else match rest with
          | [] => none
          | c :: rest =>
            if a.toNat < 0xf0 then
              pushChecked (Char.ofNat ((a.toNat - 0xe0) * 4096 + (b.toNat - 0x80) * 64
                + (c.toNat - 0x80))) [a, b, c] (fromUtf8 rest)
            else match rest with
              | [] => none
              | d :: rest =>
                pushChecked (Char.ofNat ((a.toNat - 0xf0) * 262144 + (b.toNat - 0x80) * 4096
                  + (c.toNat - 0x80) * 64 + (d.toNat - 0x80))) [a, b, c, d] (fromUtf8 rest)

@[simp] theorem utf8_nil : utf8 [] = [] := rfl

@[simp] theorem utf8_cons (char : Char) (text : List Char) :
    utf8 (char :: text) = String.utf8EncodeChar char ++ utf8 text := rfl

@[simp] theorem utf8_append (first second : List Char) :
    utf8 (first ++ second) = utf8 first ++ utf8 second := by
  simp [utf8]

/-! ### One character -/

theorem char_val_lt (char : Char) : char.toNat < 0x110000 := by
  have valid := char.valid
  unfold UInt32.isValidChar Nat.isValidChar at valid
  show char.val.toNat < 0x110000
  omega

/-- The four shapes of an encoded character, by the size of its code point. -/
theorem encodeChar_cases (char : Char) :
    (char.toNat < 0x80 ∧ String.utf8EncodeChar char = [UInt8.ofNat char.toNat]) ∨
    (0x80 ≤ char.toNat ∧ char.toNat < 0x800 ∧ String.utf8EncodeChar char =
      [UInt8.ofNat (char.toNat / 64 % 0x20 + 0xc0), UInt8.ofNat (char.toNat % 0x40 + 0x80)]) ∨
    (0x800 ≤ char.toNat ∧ char.toNat < 0x10000 ∧ String.utf8EncodeChar char =
      [UInt8.ofNat (char.toNat / 4096 % 0x10 + 0xe0),
        UInt8.ofNat (char.toNat / 64 % 0x40 + 0x80), UInt8.ofNat (char.toNat % 0x40 + 0x80)]) ∨
    (0x10000 ≤ char.toNat ∧ String.utf8EncodeChar char =
      [UInt8.ofNat (char.toNat / 262144 % 0x08 + 0xf0),
        UInt8.ofNat (char.toNat / 4096 % 0x40 + 0x80),
        UInt8.ofNat (char.toNat / 64 % 0x40 + 0x80), UInt8.ofNat (char.toNat % 0x40 + 0x80)]) := by
  unfold String.utf8EncodeChar
  show (char.val.toNat < _ ∧ _) ∨ _
  simp only [Char.toNat]
  by_cases one : char.val.toNat ≤ 0x7f
  · exact Or.inl ⟨by omega, by rw [if_pos one]⟩
  · by_cases two : char.val.toNat ≤ 0x7ff
    · exact Or.inr (Or.inl ⟨by omega, by omega, by rw [if_neg one, if_pos two]⟩)
    · by_cases three : char.val.toNat ≤ 0xffff
      · exact Or.inr (Or.inr (Or.inl ⟨by omega, by omega,
          by rw [if_neg one, if_neg two, if_pos three]⟩))
      · exact Or.inr (Or.inr (Or.inr ⟨by omega, by rw [if_neg one, if_neg two, if_neg three]⟩))

/-- An ASCII character is its own single byte. -/
theorem encodeChar_ascii {char : Char} (ascii : char.toNat < 0x80) :
    String.utf8EncodeChar char = [UInt8.ofNat char.toNat] := by
  rcases encodeChar_cases char with ⟨_, same⟩ | ⟨wide, _⟩ | ⟨wide, _⟩ | ⟨wide, _⟩
  · exact same
  all_goals omega

/-- Every byte of a character beyond ASCII is beyond ASCII. -/
theorem encodeChar_wide {char : Char} (wide : 0x80 ≤ char.toNat) :
    ∀ byte ∈ String.utf8EncodeChar char, 0x80 ≤ byte.toNat := by
  rcases encodeChar_cases char with ⟨small, _⟩ | ⟨_, _, same⟩ | ⟨_, _, same⟩ | ⟨_, same⟩
  · omega
  all_goals
    intro byte member
    rw [same] at member
    simp only [List.mem_cons, List.not_mem_nil, or_false, ← UInt8.toNat_inj,
      UInt8.toNat_ofNat'] at member
    omega

theorem encodeChar_ne_nil (char : Char) : String.utf8EncodeChar char ≠ [] := by
  rcases encodeChar_cases char with ⟨_, same⟩ | ⟨_, _, same⟩ | ⟨_, _, same⟩ | ⟨_, same⟩ <;>
    simp [same]

theorem length_le_utf8 (text : List Char) : text.length ≤ (utf8 text).length := by
  induction text with
  | nil => exact Nat.le_refl _
  | cons char text ih =>
    have one : 0 < (String.utf8EncodeChar char).length :=
      List.length_pos_of_ne_nil (encodeChar_ne_nil char)
    rw [utf8_cons, List.length_append, List.length_cons]
    omega

/-! ### The decoder inverts the encoder -/

theorem pushChecked_eq_some {char : Char} {read : List UInt8} {rest : Option (List Char)}
    {text : List Char} :
    pushChecked char read rest = some text ↔
      String.utf8EncodeChar char = read ∧ ∃ tail, rest = some tail ∧ char :: tail = text := by
  unfold pushChecked
  by_cases same : String.utf8EncodeChar char = read
  · rw [if_pos same, Option.map_eq_some_iff]
    exact ⟨fun found => ⟨same, found⟩, fun found => found.2⟩
  · rw [if_neg same]
    exact ⟨fun found => (Option.some_ne_none _ found.symm).elim, fun found => (same found.1).elim⟩

theorem pushChecked_self (char : Char) (rest : Option (List Char)) :
    pushChecked char (String.utf8EncodeChar char) rest = rest.map (char :: ·) := by
  unfold pushChecked
  rw [if_pos rfl]

theorem fromUtf8_one {a : UInt8} (one : a.toNat < 0x80) (rest : List UInt8) :
    fromUtf8 (a :: rest) = pushChecked (Char.ofNat a.toNat) [a] (fromUtf8 rest) := by
  rw [fromUtf8.eq_def]
  exact if_pos one

theorem fromUtf8_two {a : UInt8} (low : 0x80 ≤ a.toNat) (two : a.toNat < 0xe0) (b : UInt8)
    (rest : List UInt8) :
    fromUtf8 (a :: b :: rest) =
      pushChecked (Char.ofNat ((a.toNat - 0xc0) * 64 + (b.toNat - 0x80))) [a, b]
        (fromUtf8 rest) := by
  rw [fromUtf8.eq_def]
  simp only [if_neg (Nat.not_lt.mpr low), if_pos two]

theorem fromUtf8_three {a : UInt8} (low : 0xe0 ≤ a.toNat) (three : a.toNat < 0xf0) (b c : UInt8)
    (rest : List UInt8) :
    fromUtf8 (a :: b :: c :: rest) =
      pushChecked (Char.ofNat ((a.toNat - 0xe0) * 4096 + (b.toNat - 0x80) * 64
        + (c.toNat - 0x80))) [a, b, c] (fromUtf8 rest) := by
  have notOne : ¬ a.toNat < 0x80 := by omega
  rw [fromUtf8.eq_def]
  simp only [if_neg notOne, if_neg (Nat.not_lt.mpr low), if_pos three]

theorem fromUtf8_four {a : UInt8} (low : 0xf0 ≤ a.toNat) (b c d : UInt8) (rest : List UInt8) :
    fromUtf8 (a :: b :: c :: d :: rest) =
      pushChecked (Char.ofNat ((a.toNat - 0xf0) * 262144 + (b.toNat - 0x80) * 4096
        + (c.toNat - 0x80) * 64 + (d.toNat - 0x80))) [a, b, c, d] (fromUtf8 rest) := by
  have notOne : ¬ a.toNat < 0x80 := by omega
  have notTwo : ¬ a.toNat < 0xe0 := by omega
  rw [fromUtf8.eq_def]
  simp only [if_neg notOne, if_neg notTwo, if_neg (Nat.not_lt.mpr low)]

/-- The decoder reads one encoded character back and goes on behind it. -/
theorem fromUtf8_encodeChar (char : Char) (rest : List UInt8) :
    fromUtf8 (String.utf8EncodeChar char ++ rest) = (fromUtf8 rest).map (char :: ·) := by
  have bound := char_val_lt char
  have candidate : ∀ code, code = char.toNat → Char.ofNat code = char := by
    rintro code rfl
    exact Char.ofNat_toNat char
  rw [← pushChecked_self]
  rcases encodeChar_cases char with ⟨small, same⟩ | ⟨low, high, same⟩ | ⟨low, high, same⟩ |
    ⟨low, same⟩
  · rw [same, List.singleton_append, fromUtf8_one (by rw [UInt8.toNat_ofNat']; omega),
      candidate _ (by rw [UInt8.toNat_ofNat']; omega)]
  · rw [same, List.cons_append, List.singleton_append,
      fromUtf8_two (by rw [UInt8.toNat_ofNat']; omega) (by rw [UInt8.toNat_ofNat']; omega),
      candidate _ (by simp only [UInt8.toNat_ofNat']; omega)]
  · rw [same, List.cons_append, List.cons_append, List.singleton_append,
      fromUtf8_three (by rw [UInt8.toNat_ofNat']; omega) (by rw [UInt8.toNat_ofNat']; omega),
      candidate _ (by simp only [UInt8.toNat_ofNat']; omega)]
  · rw [same, List.cons_append, List.cons_append, List.cons_append, List.singleton_append,
      fromUtf8_four (by rw [UInt8.toNat_ofNat']; omega),
      candidate _ (by simp only [UInt8.toNat_ofNat']; omega)]

theorem fromUtf8_utf8_append (text : List Char) (rest : List UInt8) :
    fromUtf8 (utf8 text ++ rest) = (fromUtf8 rest).map (text ++ ·) := by
  induction text with
  | nil => simp
  | cons char text ih =>
    rw [utf8_cons, List.append_assoc, fromUtf8_encodeChar, ih, Option.map_map]
    rfl

@[simp] theorem fromUtf8_utf8 (text : List Char) : fromUtf8 (utf8 text) = some text := by
  have whole := fromUtf8_utf8_append text []
  rw [List.append_nil] at whole
  rw [whole]
  simp [fromUtf8]

/-- **The decoder is the exact inverse of the encoder.** -/
theorem fromUtf8_eq_some {bytes : List UInt8} {text : List Char} :
    fromUtf8 bytes = some text ↔ utf8 text = bytes := by
  constructor
  · fun_induction fromUtf8 bytes generalizing text with
    | case1 =>
      intro found
      cases found
      rfl
    | case2 a rest _ ih =>
      intro found
      obtain ⟨read, tail, inner, rfl⟩ := pushChecked_eq_some.mp found
      rw [utf8_cons, read, ih inner]
      rfl
    | case3 => intro found; cases found
    | case4 a _ b rest _ ih =>
      intro found
      obtain ⟨read, tail, inner, rfl⟩ := pushChecked_eq_some.mp found
      rw [utf8_cons, read, ih inner]
      rfl
    | case5 => intro found; cases found
    | case6 a _ b _ c rest _ ih =>
      intro found
      obtain ⟨read, tail, inner, rfl⟩ := pushChecked_eq_some.mp found
      rw [utf8_cons, read, ih inner]
      rfl
    | case7 => intro found; cases found
    | case8 a _ b _ c _ d rest ih =>
      intro found
      obtain ⟨read, tail, inner, rfl⟩ := pushChecked_eq_some.mp found
      rw [utf8_cons, read, ih inner]
      rfl
  · rintro rfl
    exact fromUtf8_utf8 text

theorem utf8_injective : Function.Injective utf8 := by
  intro first second same
  have decoded := fromUtf8_utf8 first
  rw [same, fromUtf8_utf8] at decoded
  exact (Option.some.inj decoded).symm

/-! ### Cutting at an ASCII byte -/

/-- **An ASCII byte in an encoding is an ASCII character.** -/
theorem utf8_split {text : List Char} {first second : List UInt8} {sep : Char}
    (ascii : sep.toNat < 0x80) (same : utf8 text = first ++ UInt8.ofNat sep.toNat :: second) :
    ∃ left right, text = left ++ sep :: right ∧ utf8 left = first ∧ utf8 right = second := by
  induction text generalizing first with
  | nil => simp at same
  | cons char text ih =>
    rw [utf8_cons] at same
    by_cases here : first = []
    · subst here
      rw [List.nil_append] at same
      by_cases small : char.toNat < 0x80
      · rw [encodeChar_ascii small, List.singleton_append, List.cons.injEq] at same
        refine ⟨[], text, ?_, rfl, same.2⟩
        have codes := congrArg UInt8.toNat same.1
        rw [UInt8.toNat_ofNat', UInt8.toNat_ofNat', Nat.mod_eq_of_lt (by omega),
          Nat.mod_eq_of_lt (by omega)] at codes
        rw [List.nil_append, ← Char.ofNat_toNat char, ← Char.ofNat_toNat sep, codes]
      · have wide := @encodeChar_wide char (by omega) (UInt8.ofNat sep.toNat) (by
          obtain ⟨byte, tail, shape⟩ := List.exists_cons_of_ne_nil (encodeChar_ne_nil char)
          rw [shape, List.cons_append, List.cons.injEq] at same
          rw [shape, same.1]
          exact List.mem_cons_self)
        rw [UInt8.toNat_ofNat', Nat.mod_eq_of_lt (by omega)] at wide
        omega
    · have inside : String.utf8EncodeChar char <+: first := by
        rcases List.append_eq_append_iff.mp same with ⟨middle, shape, _⟩ | ⟨middle, shape, tail⟩
        · exact ⟨middle, shape.symm⟩
        · cases middle with
          | nil => exact ⟨[], by rw [shape, List.append_nil, List.append_nil]⟩
          | cons byte middle =>
            rw [List.cons_append, List.cons.injEq] at tail
            by_cases small : char.toNat < 0x80
            · rw [encodeChar_ascii small] at shape
              obtain ⟨byte', tail', rfl⟩ := List.exists_cons_of_ne_nil here
              rw [List.cons_append, List.cons.injEq] at shape
              exact absurd shape.2 (by simp)
            · have wide := @encodeChar_wide char (by omega) (UInt8.ofNat sep.toNat) (by
                rw [shape, ← tail.1]
                simp)
              rw [UInt8.toNat_ofNat', Nat.mod_eq_of_lt (by omega)] at wide
              omega
      obtain ⟨rest, rfl⟩ := inside
      rw [List.append_assoc, List.append_cancel_left_eq] at same
      obtain ⟨left, right, rfl, leftBytes, rightBytes⟩ := ih same
      exact ⟨char :: left, right, rfl, by rw [utf8_cons, leftBytes], rightBytes⟩

/-- The ASCII bytes of an encoding are the ASCII characters of the text. -/
theorem ofNat_mem_utf8 {text : List Char} {char : Char} (ascii : char.toNat < 0x80) :
    UInt8.ofNat char.toNat ∈ utf8 text ↔ char ∈ text := by
  constructor
  · intro member
    obtain ⟨first, second, same⟩ := List.append_of_mem member
    obtain ⟨left, right, rfl, _⟩ := utf8_split ascii same
    exact List.mem_append_right _ List.mem_cons_self
  · intro member
    refine List.mem_flatMap.mpr ⟨char, member, ?_⟩
    rw [encodeChar_ascii ascii]
    exact List.mem_singleton_self _

/-- **Decoding commutes with cutting at an ASCII byte**, whether it succeeds or not. -/
theorem fromUtf8_append_ascii (first second : List UInt8) {sep : Char} (ascii : sep.toNat < 0x80) :
    fromUtf8 (first ++ UInt8.ofNat sep.toNat :: second) =
      (fromUtf8 first).bind fun left =>
        (fromUtf8 second).map fun right => left ++ sep :: right := by
  have single : utf8 [sep] = [UInt8.ofNat sep.toNat] := by
    simp [encodeChar_ascii ascii]
  cases whole : fromUtf8 (first ++ UInt8.ofNat sep.toNat :: second) with
  | some text =>
    obtain ⟨left, right, rfl, rfl, rfl⟩ := utf8_split ascii (fromUtf8_eq_some.mp whole)
    simp
  | none =>
    cases leftText : fromUtf8 first with
    | none => rfl
    | some left =>
      cases rightText : fromUtf8 second with
      | none => rfl
      | some right =>
        have joined : utf8 (left ++ sep :: right) = first ++ UInt8.ofNat sep.toNat :: second := by
          rw [utf8_append, fromUtf8_eq_some.mp leftText,
            show sep :: right = [sep] ++ right from rfl,
            utf8_append, single, fromUtf8_eq_some.mp rightText]
          rfl
        rw [fromUtf8_eq_some.mpr joined] at whole
        cases whole

end OpenBerat.Lib
