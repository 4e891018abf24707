/-
**What percent decoding undoes.**

A percent-encoded text is a row of tokens: a byte that stands for itself, which `%` does not, or an
escape with two hex digits in either case. Every text is such a row, or begins with one that a `%`
follows with no two digits behind it.

* `percentDecodeBytes_texts`, `percentDecodeBytes_stuck`: what the loop makes of the two.
* `percentDecode_undoes`: decoding is the inverse of every encoding.
* `decodeText_of_spelled`: the encodings of one path.
-/

import OpenBerat.Policy.Decoding

namespace OpenBerat.Policy

/-! ### Digits -/

/-- One hexadecimal digit, in either case. -/
def hexDigit (upper : Bool) (nibble : UInt8) : UInt8 :=
  if nibble < 10 then 48 + nibble else if upper then 55 + nibble else 87 + nibble

/-- The digits, with their values. -/
theorem toDigit16_eq_some {byte value : UInt8} :
    toDigit16 byte = some value ↔ value < 16 ∧ ∃ upper, byte = hexDigit upper value := by
  rw [Bool.exists_bool]
  unfold toDigit16 hexDigit
  grind

theorem toDigit16_hexDigit (upper : Bool) {nibble : UInt8} (small : nibble < 16) :
    toDigit16 (hexDigit upper nibble) = some nibble :=
  toDigit16_eq_some.mpr ⟨small, upper, rfl⟩

/-- A hexadecimal digit of either case. -/
def HexDigit (byte : UInt8) : Prop :=
  ∃ value < 16, ∃ upper, byte = hexDigit upper value

theorem toDigit16_eq_none {byte : UInt8} : toDigit16 byte = none ↔ ¬ HexDigit byte := by
  unfold HexDigit
  rw [Option.eq_none_iff_forall_ne_some]
  simp only [ne_eq, toDigit16_eq_some, not_exists, not_and]

theorem nibbles (byte : UInt8) :
    byte / 16 < 16 ∧ byte % 16 < 16 ∧ byte / 16 * 16 + byte % 16 = byte := by
  have bound := byte.toNat_lt
  refine ⟨?_, ?_, ?_⟩
  · rw [UInt8.lt_iff_toNat_lt, UInt8.toNat_div]
    show byte.toNat / 16 < 16
    omega
  · rw [UInt8.lt_iff_toNat_lt, UInt8.toNat_mod]
    show byte.toNat % 16 < 16
    omega
  · apply UInt8.toNat.inj
    rw [UInt8.toNat_add, UInt8.toNat_mul, UInt8.toNat_div, UInt8.toNat_mod]
    show (byte.toNat / 16 * 16 % 256 + byte.toNat % 16) % 256 = byte.toNat
    omega

/-! ### Tokens -/

/-- One byte as it is written. -/
inductive Token
  | plain (byte : UInt8) (other : byte ≠ 37)
  | escape (byte : UInt8) (upperHigh upperLow : Bool)

namespace Token

/-- The byte that is meant. -/
def byte : Token → UInt8
  | .plain byte _ => byte
  | .escape byte _ _ => byte

/-- The bytes that are written. -/
def text : Token → Bytes
  | .plain byte _ => [byte]
  | .escape byte upperHigh upperLow =>
    [37, hexDigit upperHigh (byte / 16), hexDigit upperLow (byte % 16)]

/-- A token that is written as an escape. -/
def isEscape : Token → Bool
  | .plain .. => false
  | .escape .. => true

end Token

theorem percentDecodeBytes_text (token : Token) (rest : Bytes) :
    percentDecodeBytes (token.text ++ rest) = (percentDecodeBytes rest).map (token.byte :: ·) := by
  cases token with
  | plain byte other => exact percentDecodeBytes_plain other rest
  | escape byte upperHigh upperLow =>
    obtain ⟨high, low, whole⟩ := nibbles byte
    have decoded := percentDecodeBytes_escape (toDigit16_hexDigit upperHigh high)
      (toDigit16_hexDigit upperLow low) rest
    rwa [whole] at decoded

/-- A row of tokens is decoded token by token. -/
theorem percentDecodeBytes_texts (tokens : List Token) (rest : Bytes) :
    percentDecodeBytes (tokens.flatMap Token.text ++ rest) =
      (percentDecodeBytes rest).map (tokens.map Token.byte ++ ·) := by
  induction tokens with
  | nil =>
    show percentDecodeBytes rest = (percentDecodeBytes rest).map id
    cases percentDecodeBytes rest with
    | error reason => rfl
    | ok out => rfl
  | cons token tokens ih =>
    rw [List.flatMap_cons, List.append_assoc, percentDecodeBytes_text, ih]
    cases percentDecodeBytes rest with
    | error reason => rfl
    | ok out => rfl

/-- Behind a `%`: not two digits. -/
def Incomplete (rest : Bytes) : Prop :=
  ¬ ∃ high low behind, rest = high :: low :: behind ∧ HexDigit high ∧ HexDigit low

theorem percentDecodeBytes_incomplete {rest : Bytes} (incomplete : Incomplete rest) :
    percentDecodeBytes (37 :: rest) = .error .malformedUri := by
  match rest with
  | [] => rfl
  | [_] => rfl
  | high :: low :: behind =>
    refine percentDecodeBytes_refused ?_ behind
    rw [toDigit16_eq_none, toDigit16_eq_none, ← not_and_or]
    exact fun digits => incomplete ⟨high, low, behind, rfl, digits⟩

theorem percentDecodeBytes_stuck (tokens : List Token) {rest : Bytes}
    (incomplete : Incomplete rest) :
    percentDecodeBytes (tokens.flatMap Token.text ++ 37 :: rest) = .error .malformedUri := by
  rw [percentDecodeBytes_texts, percentDecodeBytes_incomplete incomplete]
  rfl

/-- **The scan from the left**: tokens to the end, or to a `%` that is not complete. -/
theorem exists_tokens (bytes : Bytes) : ∃ tokens : List Token,
    bytes = tokens.flatMap Token.text ∨
      ∃ rest, bytes = tokens.flatMap Token.text ++ 37 :: rest ∧ Incomplete rest := by
  induction bytes using percentDecodeBytes_induction with
  | nil => exact ⟨[], Or.inl rfl⟩
  | plain byte rest other ih =>
    obtain ⟨tokens, whole | ⟨behind, shape, incomplete⟩⟩ := ih
    · exact ⟨.plain byte other :: tokens, Or.inl (congrArg (byte :: ·) whole)⟩
    · exact ⟨.plain byte other :: tokens, Or.inr ⟨behind, congrArg (byte :: ·) shape, incomplete⟩⟩
  | escape high low highDigit lowDigit rest highOk lowOk ih =>
    obtain ⟨highSmall, upperHigh, rfl⟩ := toDigit16_eq_some.mp highOk
    obtain ⟨lowSmall, upperLow, rfl⟩ := toDigit16_eq_some.mp lowOk
    have first : (highDigit * 16 + lowDigit) / 16 = highDigit := by grind
    have second : (highDigit * 16 + lowDigit) % 16 = lowDigit := by grind
    have token : [37, hexDigit upperHigh highDigit, hexDigit upperLow lowDigit] =
        (Token.escape (highDigit * 16 + lowDigit) upperHigh upperLow).text := by
      show _ = [37, hexDigit upperHigh ((highDigit * 16 + lowDigit) / 16),
        hexDigit upperLow ((highDigit * 16 + lowDigit) % 16)]
      rw [first, second]
    obtain ⟨tokens, whole | ⟨behind, shape, incomplete⟩⟩ := ih
    · refine ⟨.escape (highDigit * 16 + lowDigit) upperHigh upperLow :: tokens, Or.inl ?_⟩
      rw [List.flatMap_cons, ← token, ← whole]
      rfl
    · refine ⟨.escape (highDigit * 16 + lowDigit) upperHigh upperLow :: tokens,
        Or.inr ⟨behind, ?_, incomplete⟩⟩
      rw [List.flatMap_cons, ← token, shape]
      rfl
  | refused high low rest none =>
    refine ⟨[], Or.inr ⟨high :: low :: rest, rfl, ?_⟩⟩
    rintro ⟨_, _, _, ⟨⟩, highDigit, lowDigit⟩
    rcases none with none | none
    · exact toDigit16_eq_none.mp none highDigit
    · exact toDigit16_eq_none.mp none lowDigit
  | bare =>
    refine ⟨[], Or.inr ⟨[], rfl, ?_⟩⟩
    rintro ⟨_, _, _, ⟨⟩, _⟩
  | half high =>
    refine ⟨[], Or.inr ⟨[high], rfl, ?_⟩⟩
    rintro ⟨_, _, _, ⟨⟩, _⟩

/-! ### Both directions -/

theorem length_texts (tokens : List Token) :
    (tokens.flatMap Token.text).length =
      (tokens.map Token.byte).length + 2 * tokens.countP Token.isEscape := by
  induction tokens with
  | nil => rfl
  | cons token tokens ih =>
    rw [List.flatMap_cons, List.length_append, ih, List.map_cons, List.length_cons]
    cases token with
    | plain byte other =>
      rw [List.countP_cons_of_neg Bool.false_ne_true]
      show 1 + _ = _
      omega
    | escape byte upperHigh upperLow =>
      rw [List.countP_cons_of_pos rfl]
      show 3 + _ = _
      omega

theorem percentDecode_eq_ok {path : Str} {out : Bytes} :
    percentDecode path = .ok out ↔
      ∃ tokens : List Token,
      asBytes path = tokens.flatMap Token.text ∧ out = tokens.map Token.byte := by
  unfold percentDecode
  have decoded : ∀ tokens : List Token,
      percentDecodeBytes (tokens.flatMap Token.text) = .ok (tokens.map Token.byte) := by
    intro tokens
    have whole := percentDecodeBytes_texts tokens []
    rw [List.append_nil] at whole
    rw [whole]
    exact congrArg Except.ok (List.append_nil _)
  constructor
  · intro found
    obtain ⟨tokens, whole | ⟨rest, shape, incomplete⟩⟩ := exists_tokens (asBytes path)
    · refine ⟨tokens, whole, ?_⟩
      rw [whole, decoded] at found
      exact (Except.ok.inj found).symm
    · rw [shape, percentDecodeBytes_stuck tokens incomplete] at found
      cases found
  · rintro ⟨tokens, whole, rfl⟩
    rw [whole, decoded]

theorem percentDecode_eq_error {path : Str} {reason : Deny} :
    percentDecode path = .error reason ↔
      reason = .malformedUri ∧ ∃ (tokens : List Token) (rest : Bytes),
      asBytes path = tokens.flatMap Token.text ++ 37 :: rest ∧ Incomplete rest := by
  constructor
  · intro refused
    obtain ⟨tokens, whole | ⟨rest, shape, incomplete⟩⟩ := exists_tokens (asBytes path)
    · rw [percentDecode_eq_ok.mpr ⟨tokens, whole, rfl⟩] at refused
      cases refused
    · unfold percentDecode at refused
      rw [shape, percentDecodeBytes_stuck tokens incomplete] at refused
      exact ⟨(Except.error.inj refused).symm, tokens, rest, shape, incomplete⟩
  · rintro ⟨rfl, tokens, rest, shape, incomplete⟩
    unfold percentDecode
    rw [shape]
    exact percentDecodeBytes_stuck tokens incomplete

/-- **Percent decoding undoes every encoding and refuses everything else.** -/
theorem percentDecode_undoes :
    (∀ (text path : Str) (tokens : List Token), tokens.map Token.byte = asBytes text →
      asBytes path = tokens.flatMap Token.text → percentDecode path = .ok (asBytes text)) ∧
    (∀ path : Str, (∃ reason, percentDecode path = .error reason) ↔
      ∃ (tokens : List Token) (rest : Bytes),
        asBytes path = tokens.flatMap Token.text ++ 37 :: rest ∧ Incomplete rest) ∧
    ∀ (path : Str) (out : Bytes), percentDecode path = .ok out →
      ∃ tokens : List Token, asBytes path = tokens.flatMap Token.text ∧
        out = tokens.map Token.byte ∧
          out.length + 2 * tokens.countP Token.isEscape = (asBytes path).length := by
  refine ⟨fun text path tokens means written => ?_, fun path => ?_, fun path out found => ?_⟩
  · exact percentDecode_eq_ok.mpr ⟨tokens, written, means.symm⟩
  · constructor
    · rintro ⟨reason, refused⟩
      exact (percentDecode_eq_error.mp refused).2
    · exact fun stuck => ⟨_, percentDecode_eq_error.mpr ⟨rfl, stuck⟩⟩
  · obtain ⟨tokens, written, rfl⟩ := percentDecode_eq_ok.mp found
    refine ⟨tokens, written, rfl, ?_⟩
    rw [written, length_texts]

/-! ### The spellings of a path -/

/-- Any of the bytes written as escapes. -/
inductive Spells : Bytes → Bytes → Prop
  | nil : Spells [] []
  | plain (byte : UInt8) {bytes out : Bytes} : Spells bytes out →
    Spells (byte :: bytes) (byte :: out)
  | escape (byte : UInt8) (upperHigh upperLow : Bool) {bytes out : Bytes} : Spells bytes out →
      Spells (byte :: bytes)
        (37 :: hexDigit upperHigh (byte / 16) :: hexDigit upperLow (byte % 16) :: out)

/-- The URI spells the path, its leading separator as it is. -/
def SpelledAs (path uri : Str) : Prop :=
  ∃ tail out, path = '/' :: tail ∧ asBytes uri = 47 :: out ∧ Spells (asBytes tail) out

theorem spells_self (bytes : Bytes) : Spells bytes bytes := by
  induction bytes with
  | nil => exact .nil
  | cons byte bytes ih => exact .plain byte ih

theorem Spells.append {first second firstOut secondOut : Bytes} (before : Spells first firstOut)
    (after : Spells second secondOut) : Spells (first ++ second) (firstOut ++ secondOut) := by
  induction before with
  | nil => exact after
  | plain byte _ ih => exact .plain byte ih
  | escape byte upperHigh upperLow _ ih => exact .escape byte upperHigh upperLow ih

theorem spelledAs_self {path : Str} (slash : ['/'] <+: path) : SpelledAs path path := by
  obtain ⟨tail, rfl⟩ := slash
  exact ⟨tail, asBytes tail, rfl, rfl, spells_self _⟩

/-- Where no `%` is meant, a spelling is a row of tokens. -/
theorem exists_tokens_of_spells {bytes out : Bytes} (spells : Spells bytes out)
    (noPercent : 37 ∉ bytes) :
    ∃ tokens : List Token, bytes = tokens.map Token.byte ∧ out = tokens.flatMap Token.text := by
  induction spells with
  | nil => exact ⟨[], rfl, rfl⟩
  | plain byte _ ih =>
    rw [List.mem_cons, not_or] at noPercent
    obtain ⟨tokens, rfl, rfl⟩ := ih noPercent.2
    exact ⟨.plain byte (Ne.symm noPercent.1) :: tokens, rfl, rfl⟩
  | escape byte upperHigh upperLow _ ih =>
    rw [List.mem_cons, not_or] at noPercent
    obtain ⟨tokens, rfl, rfl⟩ := ih noPercent.2
    exact ⟨.escape byte upperHigh upperLow :: tokens, rfl, rfl⟩

/-- A spelling brings in `%` and digits only. -/
theorem mem_of_spells {bytes out : Bytes} (spells : Spells bytes out) {byte : UInt8}
    (noPercent : byte ≠ 37) (noDigit : toDigit16 byte = none) (member : byte ∈ out) :
    byte ∈ bytes := by
  have digit : ∀ {upper nibble}, nibble < 16 → byte ≠ hexDigit upper nibble := by
    rintro upper nibble small rfl
    rw [toDigit16_hexDigit upper small] at noDigit
    cases noDigit
  induction spells with
  | nil => exact member
  | plain other _ ih =>
    rcases List.mem_cons.mp member with rfl | behind
    · exact List.mem_cons_self
    · exact List.mem_cons_of_mem _ (ih behind)
  | escape other upperHigh upperLow _ ih =>
    obtain ⟨high, low, _⟩ := nibbles other
    rcases List.mem_cons.mp member with rfl | behind
    · exact absurd rfl noPercent
    · rcases List.mem_cons.mp behind with same | behind
      · exact absurd same (digit high)
      · rcases List.mem_cons.mp behind with same | behind
        · exact absurd same (digit low)
        · exact List.mem_cons_of_mem _ (ih behind)

theorem decodeText_of_spelled {path uri : Str} (spelled : SpelledAs path uri)
    (plain : '%' ∉ path) : decodeText uri = .ok path := by
  obtain ⟨tail, out, rfl, bytes, spells⟩ := spelled
  rw [List.mem_cons, not_or] at plain
  have noPercent : (37 : UInt8) ∉ asBytes tail := fun member =>
    plain.2 ((@Lib.ofNat_mem_utf8 tail '%' (by decide)).mp member)
  obtain ⟨tokens, means, written⟩ := exists_tokens_of_spells spells noPercent
  refine decodeText_eq_ok.mpr ⟨asBytes ('/' :: tail), ?_, Lib.fromUtf8_utf8 _⟩
  refine percentDecode_eq_ok.mpr ⟨.plain 47 (by decide) :: tokens, ?_, congrArg (47 :: ·) means⟩
  rw [bytes, written]
  rfl

theorem slash_prefix_of_spelled {path uri : Str} (spelled : SpelledAs path uri) :
    ['/'] <+: uri := by
  obtain ⟨tail, out, _, bytes, _⟩ := spelled
  obtain ⟨left, right, rfl, leftBytes, _⟩ := @Lib.utf8_split uri [] out '/' (by decide) bytes
  have empty : left = [] := Lib.utf8_injective leftBytes
  rw [empty]
  exact ⟨right, rfl⟩

/-- A spelling brings in no character that is neither `%` nor a digit. -/
theorem not_mem_of_spelled {path uri : Str} (spelled : SpelledAs path uri) {char : Char}
    (ascii : char.toNat < 0x80) (noPercent : UInt8.ofNat char.toNat ≠ 37)
    (noDigit : toDigit16 (UInt8.ofNat char.toNat) = none) (free : char ∉ path) : char ∉ uri := by
  obtain ⟨tail, out, rfl, bytes, spells⟩ := spelled
  rw [List.mem_cons, not_or] at free
  intro member
  have inBytes : UInt8.ofNat char.toNat ∈ asBytes uri := (Lib.ofNat_mem_utf8 ascii).mpr member
  rw [bytes] at inBytes
  rcases List.mem_cons.mp inBytes with slash | behind
  · have whole : UInt8.ofNat char.toNat ∈ Lib.utf8 ['/'] := by
      rw [slash]
      exact List.mem_cons_self
    exact free.1 (List.mem_singleton.mp ((Lib.ofNat_mem_utf8 ascii).mp whole))
  · exact free.2 ((Lib.ofNat_mem_utf8 ascii).mp (mem_of_spells spells noPercent noDigit behind))

end OpenBerat.Policy
