/-
**The session cookie.**

`sessionCookie` finds the one oauth2-proxy cookie of a Cookie header or refuses the header,
`Key.new` hashes its value into a cache key, `sessionKey` derives the Redis key of the session from
it. The hash and the base64 alphabets are the libraries' own and stay parameters.

* `Key.new_eq_some`: a cache key determines the slug and the digest of the cookie value it was made
  from.
-/

import OpenBerat.Http

namespace OpenBerat

/-- `COOKIE_NAME`. -/
def cookieName : Str := "_oauth2_proxy".toList

/-- More than one cookie of the session family. -/
inductive Ambiguous
  | ambiguous
  deriving DecidableEq

/-- `str::split_once`. -/
def splitOnce (sep : Char) (text : Str) : Option (Str × Str) :=
  if sep ∈ text then
    some (text.takeWhile (· != sep), (text.dropWhile (· != sep)).drop 1)
  else none

/-- `u8::is_ascii_digit`. -/
def isAsciiDigit (byte : UInt8) : Bool :=
  48 ≤ byte ∧ byte ≤ 57

/-- `_oauth2_proxy_<digits>`. -/
def isChunk (name : Str) : Bool :=
  match (stripPrefix cookieName name).bind (stripPrefix ['_']) with
  | none => false
  | some digits => !digits.isEmpty && (asBytes digits).all isAsciiDigit

/-- The loop's `found` and `seen`. -/
structure CookieScan where
  found : Option Str
  seen : Nat
  deriving DecidableEq

/-- One cookie of the header. -/
def scanCookie (scan : CookieScan) (cookie : Str) : CookieScan :=
  match splitOnce '=' cookie with
  | none => scan
  | some (name, value) =>
    let name := trim name
    if name = cookieName then ⟨some value, scan.seen + 1⟩
    else if isChunk name then ⟨scan.found, scan.seen + 1⟩
    else scan

/-- `session_cookie`: the session cookie of a header, unless the header has more than one. -/
def sessionCookie (cookieHeader : Option Str) : Except Ambiguous (Option Str) :=
  let scan := ((cookieHeader.getD []).splitOn ';').foldl scanCookie ⟨none, 0⟩
  if scan.seen > 1 then .error .ambiguous else .ok scan.found

/-- A key of the decision cache. -/
structure Key where
  cookie : BitVec 256
  slug : Str
  deriving DecidableEq

/-- `Key::new`. -/
def Key.new (sha256 : Bytes → BitVec 256) (cookieHeader : Option Str) (slug : Str) : Option Key :=
  match sessionCookie cookieHeader with
  | .ok (some value) => some ⟨sha256 (asBytes value), slug⟩
  | _ => none

theorem Key.new_eq_some {sha256 : Bytes → BitVec 256} {cookieHeader : Option Str} {slug : Str}
    {key : Key} :
    Key.new sha256 cookieHeader slug = some key ↔
      ∃ value, sessionCookie cookieHeader = .ok (some value) ∧
        key = ⟨sha256 (asBytes value), slug⟩ := by
  unfold Key.new
  constructor
  · intro found
    split at found
    · rename_i value shown
      exact ⟨value, shown, (Option.some.inj found).symm⟩
    · cases found
  · rintro ⟨value, shown, rfl⟩
    rw [shown]

/-- The three base64 alphabets `decode` tries. -/
structure Base64 where
  urlSafeNoPad : Str → Option Bytes
  standardNoPad : Str → Option Bytes
  standard : Str → Option Bytes

namespace Base64

variable (base64 : Base64)

/-- `decode`: what the first of the three engines that reads the value reads. -/
def decode (value : Str) : Option Bytes :=
  (base64.urlSafeNoPad value).orElse fun _ =>
    (base64.standardNoPad value).orElse fun _ => base64.standard value

/-- The Redis key of a session, out of its cookie. -/
def sessionKey (cookieValue name : Str) : Option Str := do
  let signed := firstPiece '|' cookieValue
  let ticket ← fromUtf8 (← base64.decode signed)
  let handle := firstPiece '.' (← stripPrefix "v2.".toList ticket)
  let key ← fromUtf8 (← base64.decode handle)
  if name ++ ['-'] <+: key then some key else none

/-- What may be handed to DEL is a key of our own. -/
theorem prefix_of_sessionKey {cookieValue name key : Str}
    (found : base64.sessionKey cookieValue name = some key) : name ++ ['-'] <+: key := by
  unfold sessionKey at found
  simp only [Option.bind_eq_bind, Option.bind_eq_some_iff] at found
  obtain ⟨_, _, _, _, _, _, _, _, other, _, kept⟩ := found
  by_cases own : name ++ ['-'] <+: other
  · rw [if_pos own] at kept
    cases kept
    exact own
  · rw [if_neg own] at kept
    cases kept

end Base64

end OpenBerat
