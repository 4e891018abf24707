/-
**From a raw request URI to the paths it may mean.**

`normalise` and `readings` as the policy module computes them: the query is dropped, one round of
percent decoding, a strict UTF-8 check, the refusals, dot segments and repeated separators, ASCII
lower case. `readings` takes two more orders of the same steps.
-/

import OpenBerat.Text

namespace OpenBerat

/-- Why access was refused. -/
inductive Deny
  | malformedUri
  | applicationDisabled
  | explicitDeny
  | noMatchingGrant
  | missingContext
  | ambiguousSession
  | storeUnavailable
  | authUnavailable
  deriving DecidableEq, Repr

namespace Deny

/-- `as_str`: the reason as it is sent. -/
def asStr : Deny → Str
  | .malformedUri => "malformed_uri".toList
  | .applicationDisabled => "application_disabled".toList
  | .explicitDeny => "explicit_deny".toList
  | .noMatchingGrant => "no_matching_grant".toList
  | .missingContext => "missing_context".toList
  | .ambiguousSession => "ambiguous_session".toList
  | .storeUnavailable => "store_unavailable".toList
  | .authUnavailable => "auth_unavailable".toList

/-- Two reasons never share a name, so the audit column determines the reason. -/
theorem asStr_injective : Function.Injective asStr := by
  intro first second same
  cases first <;> cases second <;> first | rfl | exact absurd same (by decide)

end Deny

namespace Policy

/-! ### Percent decoding -/

/-- `(byte as char).to_digit(16)`. -/
def toDigit16 (byte : UInt8) : Option UInt8 :=
  if 48 ≤ byte ∧ byte ≤ 57 then some (byte - 48)
  else if 97 ≤ byte ∧ byte ≤ 102 then some (byte - 87)
  else if 65 ≤ byte ∧ byte ≤ 70 then some (byte - 55)
  else none

/-- The loop of `percent_decode`: one round, and an incomplete escape is refused. -/
def percentDecodeBytes : Bytes → Except Deny Bytes
  | [] => .ok []
  | byte :: rest =>
    if byte ≠ 37 then (percentDecodeBytes rest).map (byte :: ·)
    else match rest with
      | high :: low :: rest =>
        match toDigit16 high, toDigit16 low with
        | some high, some low => (percentDecodeBytes rest).map ((high * 16 + low) :: ·)
        | _, _ => .error .malformedUri
      | _ => .error .malformedUri

/-- `percent_decode`, which answers with bytes. -/
def percentDecode (path : Str) : Except Deny Bytes :=
  percentDecodeBytes (asBytes path)

/-- `String::from_utf8(percent_decode(path)?).map_err(|_| Deny::MalformedUri)`. -/
def decodeText (path : Str) : Except Deny Str :=
  match percentDecode path with
  | .error reason => .error reason
  | .ok bytes =>
    match fromUtf8 bytes with
    | none => .error .malformedUri
    | some text => .ok text

/-! ### Dot segments -/

/-- One segment of the loop of `resolve`. -/
def resolveStep (segments : List Str) (segment : Str) : List Str :=
  if segment = [] ∨ segment = ['.'] then segments
  else if segment = ['.', '.'] then segments.dropLast
  else segments ++ [segment]

/-- The segments `resolve` is left with. -/
def resolveSegments (path : Str) : List Str :=
  (path.splitOn '/').foldl resolveStep []

/-- Whether `resolve` keeps a trailing separator. -/
def keepsSlash (path : Str) : Bool :=
  endsWith "/".toList path || endsWith "/.".toList path || endsWith "/..".toList path

/-- Collapses repeated separators and resolves `.` and `..`, clamped at the root. -/
def resolve (path : Str) : Str :=
  let segments := resolveSegments path
  '/' :: join '/' segments ++ if segments ≠ [] ∧ keepsSlash path then ['/'] else []

/-! ### The normal form and the readings -/

/-- The path of a raw URI: everything before the first `?`. -/
def rawPath (rawUri : Str) : Str :=
  firstPiece '?' rawUri

/-- `normalise`: the path of a URI as the rules are matched, unless the URI is refused. -/
def normalise (rawUri : Str) : Except Deny Str :=
  let path := rawPath rawUri
  if ¬ ['/'] <+: path ∨ '#' ∈ path then .error .malformedUri
  else match decodeText path with
    | .error reason => .error reason
    | .ok decoded =>
      if '%' ∈ decoded then .error .malformedUri
      else if decoded.any isControl then .error .malformedUri
      else .ok (makeAsciiLowercase (resolve (replaceChar '\\' '/' decoded)))

/-- Every segment cut at its first `;`. -/
def unparametered (path : Str) : Str :=
  join '/' ((path.splitOn '/').map (firstPiece ';'))

/-- The closure `decode` of `readings`. -/
def decodeLower (resolved : Str) : Except Deny Str :=
  (decodeText resolved).map makeAsciiLowercase

/-- The three readings a decision is taken under. -/
def readings (rawUri : Str) : Except Deny (List Str) :=
  match normalise rawUri with
  | .error reason => .error reason
  | .ok decoded =>
    let path := rawPath rawUri
    match decodeLower (resolve path), decodeLower (resolve (unparametered path)) with
    | .ok second, .ok third => .ok [decoded, second, third]
    | .error reason, _ => .error reason
    | .ok _, .error reason => .error reason

end Policy

end OpenBerat
