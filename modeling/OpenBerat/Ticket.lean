/-
**The session key of a cookie.**

A cookie of oauth2-proxy is base64 over a ticket, and the ticket's handle is base64 over the Redis
key. `decode` tries three of the four forms of base64; the fourth, the padded URL-safe one, is read
by the padded standard engine, since nothing in a ticket or a key takes the two letters that differ.

* `decode_encode`: `decode` undoes each of the four forms on plain text.
* `sessionKey_cookie`: the key comes out of every cookie, and nothing that is no key of ours does.
-/

import OpenBerat.Cookie
import OpenBerat.Lib.Base64

namespace OpenBerat.Ticket

open Lib.Base64 (Alphabet encode standard urlSafe sextets missing)

/-! ### The cookie -/

/-- One of the four forms of base64. -/
structure Form where
  safe : Bool
  padded : Bool

/-- The alphabet of a form. -/
def Form.alphabet (form : Form) : Alphabet :=
  if form.safe then urlSafe else standard

/-- Some bytes in a form. -/
def Form.encode (form : Form) (bytes : Bytes) : Str :=
  Lib.Base64.encode form.alphabet form.padded bytes

/-- `u8::is_ascii_hexdigit`, of a character. -/
def isHexDigit (char : Char) : Bool :=
  char.isDigit || 'a' ≤ char && char ≤ 'f' || 'A' ≤ char && char ≤ 'F'

/-- The Redis key of a session. -/
def redisKey (id : Str) : Str :=
  "_oauth2_proxy-".toList ++ id

/-- What is signed: the version, the handle and the secret. -/
def ticket (handle sealed : Form) (id : Str) (secret : Bytes) : Str :=
  "v2.".toList ++ (handle.encode (asBytes (redisKey id)) ++ '.' :: sealed.encode secret)

/-- The value of a session cookie: a ticket in some form, and its signature. -/
def cookieValue (outer handle sealed : Form) (id : Str) (secret : Bytes) (signature : Str) : Str :=
  outer.encode (asBytes (ticket handle sealed id secret)) ++ signature

/-- A cookie of the session `id`: in any forms, with any secret and signature. -/
def Genuine (id value : Str) : Prop :=
  ∃ outer handle sealed secret signature, (signature = [] ∨ ['|'] <+: signature) ∧
    value = cookieValue outer handle sealed id secret signature

/-- Each engine decodes its own alphabet and padding form, and nothing else. -/
structure Exact (base64 : Base64) : Prop where
  urlSafeNoPad : ∀ text bytes, base64.urlSafeNoPad text = some bytes ↔
    text = encode urlSafe false bytes
  standardNoPad : ∀ text bytes,
    base64.standardNoPad text = some bytes ↔ text = encode standard false bytes
  standard : ∀ text bytes, base64.standard text = some bytes ↔ text = encode standard true bytes

/-! ### Plain text -/

/-- A character whose byte never ends in one of the last two sextets. -/
def Plain (char : Char) : Prop :=
  char.toNat < 128 ∧ char.toNat % 64 < 62

instance (char : Char) : Decidable (Plain char) :=
  inferInstanceAs (Decidable (_ ∧ _))

theorem sextets_plain {text : Str} (plain : ∀ char ∈ text, Plain char) :
    ∀ sextet ∈ sextets (asBytes text), sextet < 62 := by
  refine Lib.Base64.sextets_low fun byte member => ?_
  obtain ⟨char, inside, found⟩ := List.mem_flatMap.mp member
  have limits := plain char inside
  rw [Lib.encodeChar_ascii limits.1, List.mem_singleton] at found
  rw [found, UInt8.toNat_ofNat', Nat.mod_eq_of_lt (by have := limits.1; omega)]
  exact limits

/-- What stands in an encoding: plain characters that separate nothing. -/
def Inert (char : Char) : Prop :=
  Plain char ∧ char ≠ '.' ∧ char ≠ '|'

instance (char : Char) : Decidable (Inert char) :=
  inferInstanceAs (Decidable (_ ∧ _))

theorem letters_inert (form : Form) :
    (form.alphabet.letters.all fun char => Inert char) = true := by
  rcases form with ⟨_ | _, padded⟩
  · exact (by decide : (standard.letters.all fun char => Inert char) = true)
  · exact (by decide : (urlSafe.letters.all fun char => Inert char) = true)

theorem inert_encode {form : Form} {bytes : Bytes} : ∀ char ∈ form.encode bytes, Inert char := by
  intro char member
  rcases Lib.Base64.mem_encode member with letter | ⟨_, _, rfl⟩
  · exact of_decide_eq_true (List.all_eq_true.mp (letters_inert form) char letter)
  · decide

theorem plain_redisKey {id : Str} (hex : id.all isHexDigit = true) :
    ∀ char ∈ redisKey id, Plain char := by
  intro char member
  rcases List.mem_append.mp member with own | digit
  · have plain : ("_oauth2_proxy-".toList.all fun char => Plain char) = true := by decide
    exact of_decide_eq_true (List.all_eq_true.mp plain char own)
  · have range := List.all_eq_true.mp hex char digit
    unfold isHexDigit Char.isDigit at range
    simp only [Bool.or_eq_true, Bool.and_eq_true, decide_eq_true_eq, Char.le_def,
      UInt32.le_iff_toNat_le, ge_iff_le] at range
    unfold Plain
    show char.val.toNat < 128 ∧ char.val.toNat % 64 < 62
    have values : '0'.val.toNat = 48 ∧ '9'.val.toNat = 57 ∧ 'a'.val.toNat = 97 ∧
      'f'.val.toNat = 102 ∧ 'A'.val.toNat = 65 ∧ 'F'.val.toNat = 70 :=
        ⟨rfl, rfl, rfl, rfl, rfl, rfl⟩
    omega

theorem plain_ticket {handle sealed : Form} {id : Str} {secret : Bytes} :
    ∀ char ∈ ticket handle sealed id secret, Plain char := by
  intro char member
  unfold ticket at member
  rw [List.mem_append, List.mem_append, List.mem_cons] at member
  rcases member with version | inside | rfl | inside
  · have plain : ("v2.".toList.all fun char => Plain char) = true := by decide
    exact of_decide_eq_true (List.all_eq_true.mp plain char version)
  · exact (inert_encode char inside).1
  · decide
  · exact (inert_encode char inside).1

section Decode

variable {base64 : Base64}

/-- **`decode` undoes each of the four forms**, for plain text. -/
theorem decode_encode (exact : Exact base64) (form : Form) {text : Str}
    (plain : ∀ char ∈ text, Plain char) :
    base64.decode (form.encode (asBytes text)) = some (asBytes text) := by
  have agree : form.encode (asBytes text) = encode standard form.padded (asBytes text) := by
    rcases form with ⟨_ | _, padded⟩
    · rfl
    · exact (Lib.Base64.encode_agree (sextets_plain plain)).symm
  have unpadded : base64.decode (encode standard false (asBytes text)) = some (asBytes text) := by
    unfold Base64.decode
    rw [(exact.urlSafeNoPad _ _).mpr (Lib.Base64.encode_agree (sextets_plain plain))]
    rfl
  rw [agree]
  cases form.padded with
  | false => exact unpadded
  | true =>
    by_cases whole : missing (asBytes text) = 0
    · rw [Lib.Base64.encode_padded whole]
      exact unpadded
    · have first : base64.urlSafeNoPad (encode standard true (asBytes text)) = none :=
        Option.eq_none_iff_forall_ne_some.mpr fun other found =>
          Lib.Base64.encode_ne_unpadded whole ((exact.urlSafeNoPad _ _).mp found)
      have second : base64.standardNoPad (encode standard true (asBytes text)) = none :=
        Option.eq_none_iff_forall_ne_some.mpr fun other found =>
          Lib.Base64.encode_ne_unpadded whole ((exact.standardNoPad _ _).mp found)
      unfold Base64.decode
      rw [first, second, (exact.standard _ _).mpr rfl]
      rfl

/-- The part before the first separator, where there is none in it. -/
theorem firstPiece_append {sep : Char} {text rest : Str} (free : sep ∉ text)
    (cut : rest = [] ∨ [sep] <+: rest) : firstPiece sep (text ++ rest) = text := by
  unfold firstPiece
  rcases cut with rfl | ⟨later, rfl⟩
  · rw [List.append_nil, List.splitOn_eq_singleton free]
    rfl
  · rw [List.singleton_append, List.splitOn_append_cons_self, List.splitOn_eq_singleton free]
    rfl

theorem sessionKey_genuine (exact : Exact base64) {id value : Str} (hex : id.all isHexDigit = true)
    (genuine : Genuine id value) : base64.sessionKey value cookieName = some (redisKey id) := by
  obtain ⟨outer, handle, sealed, secret, signature, cut, rfl⟩ := genuine
  have signed : firstPiece '|' (cookieValue outer handle sealed id secret signature) =
      outer.encode (asBytes (ticket handle sealed id secret)) :=
    firstPiece_append (fun member => (inert_encode _ member).2.2 rfl) cut
  have version : stripPrefix "v2.".toList (ticket handle sealed id secret) =
      some (handle.encode (asBytes (redisKey id)) ++ '.' :: sealed.encode secret) := by
    unfold stripPrefix ticket
    rw [if_pos (List.prefix_append _ _), List.drop_left]
  have first : firstPiece '.' (handle.encode (asBytes (redisKey id)) ++ '.' ::
    sealed.encode secret) =
      handle.encode (asBytes (redisKey id)) :=
    firstPiece_append (fun member => (inert_encode _ member).2.1 rfl) (Or.inr ⟨_, rfl⟩)
  have own : cookieName ++ ['-'] <+: redisKey id := List.prefix_append _ _
  have read : ∀ text : Str, fromUtf8 (asBytes text) = some text :=
    fun text => Lib.fromUtf8_eq_some.mpr rfl
  unfold Base64.sessionKey
  dsimp only
  rw [signed, decode_encode exact outer plain_ticket]
  simp only [Option.bind_eq_bind, Option.bind_some, read, version, first,
    decode_encode exact handle (plain_redisKey hex), if_pos own]

/-- **The key comes out of every genuine cookie**, the same one after a refresh, and whatever comes
out of any text is a key of ours. -/
theorem sessionKey_cookie (base64 : Base64) (exact : Exact base64) :
    (∀ id value, id.all isHexDigit = true → Genuine id value →
      base64.sessionKey value cookieName = some (redisKey id)) ∧
    (∀ id value refreshed, id.all isHexDigit = true → Genuine id value → Genuine id refreshed →
      base64.sessionKey refreshed cookieName = base64.sessionKey value cookieName) ∧
    ∀ value key, base64.sessionKey value cookieName = some key → "_oauth2_proxy-".toList <+: key :=
  ⟨fun _ _ hex genuine => sessionKey_genuine exact hex genuine,
    fun _ _ _ hex genuine refreshed =>
      (sessionKey_genuine exact hex refreshed).trans (sessionKey_genuine exact hex genuine).symm,
    fun _ _ found => base64.prefix_of_sessionKey found⟩

end Decode

/-! ### The library's engines -/

/-- The three engines, as RFC 4648 has them. -/
def engines : Base64 where
  urlSafeNoPad := Lib.Base64.decode urlSafe false
  standardNoPad := Lib.Base64.decode standard false
  standard := Lib.Base64.decode standard true

theorem engines_exact : Exact engines :=
  ⟨fun _ _ => Lib.Base64.decode_eq_some, fun _ _ => Lib.Base64.decode_eq_some,
    fun _ _ => Lib.Base64.decode_eq_some⟩

/-- A cookie in the form that none of the engines is for. -/
theorem sessionKey_padded : Exact engines ∧
    engines.sessionKey
    (cookieValue ⟨true, true⟩ ⟨true, true⟩ ⟨true, true⟩ "d8f9514a".toList [255, 254]
      "|1757000000|abcdef".toList) cookieName = some "_oauth2_proxy-d8f9514a".toList :=
  ⟨engines_exact, (sessionKey_cookie engines engines_exact).1 "d8f9514a".toList _ (by rfl)
    ⟨⟨true, true⟩, ⟨true, true⟩, ⟨true, true⟩, [255, 254], "|1757000000|abcdef".toList,
      Or.inr ⟨_, rfl⟩, rfl⟩⟩

end OpenBerat.Ticket
