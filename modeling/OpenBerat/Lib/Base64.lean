/-
**Base64.**

Three bytes are four sextets, a sextet is a letter of the alphabet, and a padded text is filled up
to a multiple of four letters. The decoder reads a candidate and accepts it only if it encodes back
to the text.

* `decode_eq_some`: the decoder is the exact inverse of the encoder, on every text.
* `encode_agree`: bytes whose sextets stay below the letters that differ have one encoding in both
  alphabets.
* `sextets_low`: bytes of plain ASCII text do.
-/

import Mathlib.Data.List.GetD
import Mathlib.Data.List.Nodup
import Mathlib.Tactic.Common

namespace OpenBerat.Lib.Base64

/-- Sixty-four letters, none twice and none the padding. -/
structure Alphabet where
  letters : List Char
  length : letters.length = 64
  nodup : letters.Nodup
  unpadded : '=' ∉ letters

/-- The six-bit groups of the bytes, the last one filled with zeros. -/
def sextets : List UInt8 → List Nat
  | [] => []
  | [a] => [a.toNat / 4, a.toNat % 4 * 16]
  | [a, b] => [a.toNat / 4, a.toNat % 4 * 16 + b.toNat / 16, b.toNat % 16 * 4]
  | a :: b :: c :: rest =>
    a.toNat / 4 :: (a.toNat % 4 * 16 + b.toNat / 16) :: (b.toNat % 16 * 4 + c.toNat / 64) ::
      c.toNat % 64 :: sextets rest

/-- The bytes of six-bit groups, what fills no byte dropped. -/
def octets : List Nat → List UInt8
  | a :: b :: c :: d :: rest =>
    UInt8.ofNat (a * 4 + b / 16) :: UInt8.ofNat (b % 16 * 16 + c / 4) ::
      UInt8.ofNat (c % 4 * 64 + d) :: octets rest
  | [a, b, c] => [UInt8.ofNat (a * 4 + b / 16), UInt8.ofNat (b % 16 * 16 + c / 4)]
  | [a, b] => [UInt8.ofNat (a * 4 + b / 16)]
  | _ => []

/-- How many letters are missing to a multiple of four. -/
def missing (bytes : List UInt8) : Nat :=
  (3 - bytes.length % 3) % 3

/-- The letter of a sextet. -/
def Alphabet.letter (alphabet : Alphabet) (sextet : Nat) : Char :=
  alphabet.letters.getD sextet '='

/-- The text of some bytes. -/
def encode (alphabet : Alphabet) (padded : Bool) (bytes : List UInt8) : List Char :=
  (sextets bytes).map alphabet.letter ++ if padded then List.replicate (missing bytes) '=' else []

/-- The bytes of a text that is what they encode to. -/
def decode (alphabet : Alphabet) (padded : Bool) (text : List Char) : Option (List UInt8) :=
  let bytes := octets ((text.filter (· != '=')).map fun char => alphabet.letters.idxOf char)
  if encode alphabet padded bytes = text then some bytes else none

/-! ### The two alphabets -/

/-- The letters of the first 62 sextets. -/
def commonLetters : List Char :=
  "ABCDEFGHIJKLMNOPQRSTUVWXYZabcdefghijklmnopqrstuvwxyz0123456789".toList

theorem common_nodup : commonLetters.Nodup := by decide

/-- The common letters and two more. -/
def Alphabet.ofLast (first second : Char) (differ : first ≠ second)
    (fresh : first ∉ commonLetters ∧ second ∉ commonLetters)
    (unpadded : '=' ≠ first ∧ '=' ≠ second) : Alphabet where
  letters := commonLetters ++ [first, second]
  length := rfl
  nodup := by
    refine List.nodup_append.mpr ⟨common_nodup, ?_, ?_⟩
    · exact List.nodup_cons.mpr ⟨mt List.mem_singleton.mp differ, List.nodup_singleton _⟩
    · intro letter common other listed same
      subst same
      rcases List.mem_pair.mp listed with rfl | rfl
      · exact fresh.1 common
      · exact fresh.2 common
  unpadded := by
    rw [List.mem_append, List.mem_pair]
    rintro (common | same | same)
    · exact absurd common (by decide)
    · exact unpadded.1 same
    · exact unpadded.2 same

/-- The standard alphabet. -/
def standard : Alphabet :=
  .ofLast '+' '/' (by decide) (by decide) (by decide)

/-- The alphabet that is safe in URLs and file names. -/
def urlSafe : Alphabet :=
  .ofLast '-' '_' (by decide) (by decide) (by decide)

/-! ### Sextets -/

theorem octets_sextets (bytes : List UInt8) : octets (sextets bytes) = bytes := by
  have back : ∀ (byte : UInt8) (value : Nat), value = byte.toNat → UInt8.ofNat value = byte := by
    rintro byte _ rfl
    exact UInt8.ofNat_toNat
  induction bytes using sextets.induct with
  | case1 => rfl
  | case2 a =>
    show [UInt8.ofNat _] = [a]
    rw [back a _ (by omega)]
  | case3 a b =>
    have limit := b.toNat_lt
    show [UInt8.ofNat _, UInt8.ofNat _] = [a, b]
    rw [back a _ (by omega), back b _ (by omega)]
  | case4 a b c rest ih =>
    have limit := b.toNat_lt
    have limit' := c.toNat_lt
    show UInt8.ofNat _ :: UInt8.ofNat _ :: UInt8.ofNat _ :: octets (sextets rest) = _
    rw [back a _ (by omega), back b _ (by omega), back c _ (by omega), ih]

/-- A bound on the four sextets that a byte takes part in bounds them all. -/
theorem sextets_bound {bound : Nat} {bytes : List UInt8}
    (low : ∀ byte ∈ bytes, byte.toNat / 4 < bound ∧ 48 + byte.toNat / 16 < bound ∧
      60 + byte.toNat / 64 < bound ∧ byte.toNat % 64 < bound) :
    ∀ sextet ∈ sextets bytes, sextet < bound := by
  induction bytes using sextets.induct with
  | case1 => exact fun _ member => (nomatch member)
  | case2 a =>
    have here := low a List.mem_cons_self
    intro sextet member
    simp only [sextets, List.mem_cons, List.not_mem_nil, or_false] at member
    omega
  | case3 a b =>
    have here := low a List.mem_cons_self
    have next := low b (List.mem_cons_of_mem _ List.mem_cons_self)
    intro sextet member
    simp only [sextets, List.mem_cons, List.not_mem_nil, or_false] at member
    omega
  | case4 a b c rest ih =>
    simp only [List.forall_mem_cons] at low
    obtain ⟨here, next, after, later⟩ := low
    intro sextet member
    simp only [sextets, List.mem_cons] at member
    rcases member with same | same | same | same | member
    · omega
    · omega
    · omega
    · omega
    · exact ih later sextet member

theorem sextets_lt (bytes : List UInt8) : ∀ sextet ∈ sextets bytes, sextet < 64 := by
  refine sextets_bound fun byte _ => ?_
  have limit := byte.toNat_lt
  omega

/-- **ASCII without `>`, `~`, `?` and DEL** never takes the last two letters. -/
theorem sextets_low {bytes : List UInt8}
    (plain : ∀ byte ∈ bytes, byte.toNat < 128 ∧ byte.toNat % 64 < 62) :
    ∀ sextet ∈ sextets bytes, sextet < 62 := by
  refine sextets_bound fun byte member => ?_
  have limits := plain byte member
  omega

/-! ### Texts -/

theorem letter_mem (alphabet : Alphabet) {sextet : Nat} (small : sextet < 64) :
    alphabet.letter sextet ∈ alphabet.letters := by
  have bound : sextet < alphabet.letters.length := alphabet.length ▸ small
  unfold Alphabet.letter
  rw [List.getD_eq_getElem _ _ bound]
  exact List.getElem_mem bound

theorem idxOf_letter (alphabet : Alphabet) {sextet : Nat} (small : sextet < 64) :
    alphabet.letters.idxOf (alphabet.letter sextet) = sextet := by
  have bound : sextet < alphabet.letters.length := alphabet.length ▸ small
  unfold Alphabet.letter
  rw [List.getD_eq_getElem _ _ bound]
  exact alphabet.nodup.idxOf_getElem sextet bound

/-- The characters of an encoding. -/
theorem mem_encode {alphabet : Alphabet} {padded : Bool} {bytes : List UInt8} {char : Char}
    (member : char ∈ encode alphabet padded bytes) :
    char ∈ alphabet.letters ∨ (padded = true ∧ missing bytes ≠ 0 ∧ char = '=') := by
  rcases List.mem_append.mp member with letter | padding
  · obtain ⟨sextet, inside, rfl⟩ := List.mem_map.mp letter
    exact Or.inl (letter_mem alphabet (sextets_lt bytes sextet inside))
  · cases padded with
    | false => cases padding
    | true =>
      obtain ⟨some, same⟩ := List.mem_replicate.mp padding
      exact Or.inr ⟨rfl, some, same⟩

/-- **The decoder is the exact inverse.** -/
theorem decode_eq_some {alphabet : Alphabet} {padded : Bool} {text : List Char}
    {bytes : List UInt8} :
    decode alphabet padded text = some bytes ↔ text = encode alphabet padded bytes := by
  unfold decode
  dsimp only
  constructor
  · intro found
    split at found
    · rename_i same
      cases found
      exact same.symm
    · cases found
  · rintro rfl
    have kept : (encode alphabet padded bytes).filter (· != '=') =
        (sextets bytes).map alphabet.letter := by
      unfold encode
      rw [List.filter_append, List.filter_eq_self.mpr, List.filter_eq_nil_iff.mpr, List.append_nil]
      · intro char padding
        cases padded with
        | false => cases padding
        | true =>
          obtain ⟨_, rfl⟩ := List.mem_replicate.mp padding
          exact fun differs => absurd rfl (bne_iff_ne.mp differs)
      · intro char letter
        obtain ⟨sextet, inside, rfl⟩ := List.mem_map.mp letter
        have listed := letter_mem alphabet (sextets_lt bytes sextet inside)
        exact bne_iff_ne.mpr fun same => alphabet.unpadded (same ▸ listed)
    have read : ((sextets bytes).map alphabet.letter).map
      (fun char => alphabet.letters.idxOf char) =
        sextets bytes := by
      rw [List.map_map]
      exact (List.map_congr_left fun sextet inside =>
        idxOf_letter alphabet (sextets_lt bytes sextet inside)).trans (List.map_id' _)
    rw [kept, read, octets_sextets, if_pos rfl]

theorem letter_common {first second : Char} {differ : first ≠ second}
    {fresh : first ∉ commonLetters ∧ second ∉ commonLetters} {unpadded : '=' ≠ first ∧ '=' ≠ second}
    {sextet : Nat} (low : sextet < 62) :
    (Alphabet.ofLast first second differ fresh unpadded).letter sextet =
      commonLetters.getD sextet '=' :=
  List.getD_append _ _ _ _ low

/-- **The two alphabets encode alike** what never takes their last two letters. -/
theorem encode_agree {padded : Bool} {bytes : List UInt8}
    (low : ∀ sextet ∈ sextets bytes, sextet < 62) :
    encode standard padded bytes = encode urlSafe padded bytes := by
  have letters : (sextets bytes).map standard.letter = (sextets bytes).map urlSafe.letter :=
    List.map_congr_left fun sextet inside => (letter_common (low sextet inside)).trans
      (letter_common (low sextet inside)).symm
  unfold encode
  rw [letters]

/-- Nothing is missing where the padded form is the other one. -/
theorem encode_padded {alphabet : Alphabet} {bytes : List UInt8} (whole : missing bytes = 0) :
    encode alphabet true bytes = encode alphabet false bytes := by
  unfold encode
  rw [whole]
  rfl

/-- Otherwise it is no unpadded form of anything. -/
theorem encode_ne_unpadded {alphabet other : Alphabet} {bytes others : List UInt8}
    (part : missing bytes ≠ 0) : encode alphabet true bytes ≠ encode other false others := by
  intro same
  have inside : '=' ∈ encode alphabet true bytes :=
    List.mem_append_right _ (List.mem_replicate.mpr ⟨part, rfl⟩)
  rw [same] at inside
  rcases mem_encode inside with letter | ⟨impossible, _⟩
  · exact other.unpadded letter
  · cases impossible

end OpenBerat.Lib.Base64
