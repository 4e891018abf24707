/-
**One `/decide` request, step by step.**

What `decided` does between two awaits: gathering the inputs off the headers, reading oauth2-proxy's
answer, and writing the response.

* `Incoming.key_eq_some`: the cache key of a request and the value of its session cookie.
* `authenticate_eq_verified`: a verified identity has a user that is not empty.
* `status_answered`: a 200 is an allow.
-/

import OpenBerat.Cache.Machine
import OpenBerat.Portal

namespace OpenBerat

/-- The libraries a decision rests on. -/
structure Libraries where
  http : HeaderText
  sha256 : Bytes → BitVec 256
  base64 : Base64
  parseIp : Str → Option IpAddr
  /-- The default hasher, over a path and over a cache key. -/
  pathHash : Str → UInt64
  keyHash : Key → UInt64

namespace Decide

/-! ### The request -/

/-- `AUDIT_PATH_LIMIT`. -/
def auditPathLimit : Nat := 512

variable (lib : Libraries)

/-- A gathered request: the `Subrequest` and the Cookie header's text. -/
structure Incoming where
  request : Cache.Subrequest
  cookie : Option Str
  keyed : request.key = Key.new lib.sha256 cookie request.slug

/-- The header that `header_str` reads. -/
def headerStr (headers : Headers) (name : String) : Option Str :=
  (headers name.toList).bind lib.http.toStr

/-- The first part of `decided`. -/
def gather (headers : Headers) : Except Deny (Incoming lib) :=
  match headerStr lib headers "x-app-slug", headerStr lib headers "x-original-uri" with
  | some slug, some uri =>
    if ["x-original-method", "x-real-ip", "x-request-id"].any fun name =>
        (headers name.toList).isNone then .error .missingContext
    else
      let cookie := headerStr lib headers "cookie"
      match sessionCookie cookie with
      | .error _ => .error .ambiguousSession
      | .ok _ => .ok
        { request :=
            { key := Key.new lib.sha256 cookie slug
              slug := slug
              uri := uri
              auditPath := (firstPiece '?' uri).take auditPathLimit
              srcIp := (headerStr lib headers "x-real-ip").bind lib.parseIp
              requestId := headerStr lib headers "x-request-id"
              keyed := by
                intro key made
                obtain ⟨_, _, rfl⟩ := Key.new_eq_some.mp made
                rfl }
          cookie := cookie
          keyed := rfl }
  | _, _ => .error .missingContext

variable {lib}

/-- The value of the session cookie. -/
def Incoming.value (incoming : Incoming lib) : Option Str :=
  (sessionCookie incoming.cookie).toOption.bind id

theorem Incoming.value_eq_some {incoming : Incoming lib} {value : Str} :
    incoming.value = some value ↔ sessionCookie incoming.cookie = .ok (some value) := by
  unfold Incoming.value
  cases sessionCookie incoming.cookie with
  | error reason => exact iff_of_false (fun found => nomatch found) (fun found => nomatch found)
  | ok found =>
    show found = some value ↔ _
    exact ⟨fun same => by rw [same], fun same => Except.ok.inj same⟩

/-- A request has a cache key exactly when it has a session cookie. -/
theorem Incoming.key_eq_some {incoming : Incoming lib} {key : Key} :
    incoming.request.key = some key ↔ ∃ value, incoming.value = some value ∧
      key = ⟨lib.sha256 (asBytes value), incoming.request.slug⟩ := by
  rw [incoming.keyed, Key.new_eq_some]
  simp only [Incoming.value_eq_some]

/-- The Redis key of the request's session. -/
def Incoming.session (incoming : Incoming lib) : Option Str :=
  incoming.value.bind fun value => lib.base64.sessionKey value cookieName

/-! ### oauth2-proxy's answer -/

/-- What `send` gives: nothing, or a status with headers. -/
inductive AuthResponse
  | unanswered
  | answered (status : Nat) (headers : Headers) (setCookie : List HeaderValue)

/-- `Authentication`: what the answer of oauth2-proxy comes to. -/
inductive Authentication
  | verified (identity : Identity) (setCookie : List HeaderValue)
  | anonymous
  | unavailable

/-- `authenticate`, behind the call: a 401 is nobody, and an answer without a user is an outage. -/
def authenticate : AuthResponse → Authentication
  | .unanswered => .unavailable
  | .answered status headers setCookie =>
    if status = 401 then .anonymous
    else if ¬ (200 ≤ status ∧ status < 300) then .unavailable
    else
      let value := fun name : String => (headers name.toList).getD []
      match headers "x-auth-request-user".toList with
      | some sub =>
        if sub ≠ [] then
          .verified
            { sub := sub
              username := value "x-auth-request-preferred-username"
              email := value "x-auth-request-email"
              groups := value "x-auth-request-groups" }
            setCookie
        else .unavailable
      | none => .unavailable

/-- **A verified identity has a user**, as bytes. -/
theorem authenticate_eq_verified {response : AuthResponse} {identity : Identity}
    {setCookie : List HeaderValue}
    (verified : authenticate response = .verified identity setCookie) :
    ∃ status headers, response = .answered status headers setCookie ∧ 200 ≤ status ∧ status < 300 ∧
      headers "x-auth-request-user".toList = some identity.sub ∧ identity.sub ≠ [] := by
  cases response with
  | unanswered => cases verified
  | answered status headers relayed =>
    by_cases refused : status = 401
    · simp only [authenticate, if_pos refused] at verified
      cases verified
    by_cases success : 200 ≤ status ∧ status < 300
    · cases user : headers "x-auth-request-user".toList with
      | none =>
        simp only [authenticate, if_neg refused, if_neg (not_not.mpr success), user] at verified
        cases verified
      | some sub =>
        by_cases named : sub ≠ []
        · simp only [authenticate, if_neg refused, if_neg (not_not.mpr success), user,
            if_pos named] at verified
          cases verified
          exact ⟨status, headers, rfl, success.1, success.2, user, named⟩
        · simp only [authenticate, if_neg refused, if_neg (not_not.mpr success), user,
            if_neg named] at verified
          cases verified
    · simp only [authenticate, if_neg refused, if_pos success] at verified
      cases verified

/-! ### The response -/

/-- A response of `/decide`, with the four identity headers taken together. -/
structure Response where
  status : Nat
  denyReason : Option Str
  identity : Option Identity
  setCookie : List HeaderValue
  deriving DecidableEq

/-- `refuse`: a 403 that names its reason and carries nothing of an identity. -/
def refuse (reason : Deny) : Response :=
  { status := 403
    denyReason := some reason.asStr
    identity := none
    setCookie := [] }

/-- `StatusCode::UNAUTHORIZED.into_response()`. -/
def unauthorized : Response :=
  { status := 401
    denyReason := none
    identity := none
    setCookie := [] }

/-- The response of `answer`, with the cookies relayed behind it. -/
def answered (decision : Decision) (identity : Identity) (setCookie : List HeaderValue) :
    Response :=
  let response : Response := match decision with
    | .allow => { status := 200, denyReason := none, identity := none, setCookie := [] }
    | .deny reason => refuse reason
  { response with identity := some identity, setCookie := setCookie }

theorem status_refuse (reason : Deny) : (refuse reason).status ≠ 200 := by
  show 403 ≠ 200
  decide

/-- **A 200 is an allow.** -/
theorem status_answered {decision : Decision} {identity : Identity} {setCookie : List HeaderValue} :
    (answered decision identity setCookie).status = 200 ↔ decision = .allow := by
  cases decision with
  | allow => exact iff_of_true rfl rfl
  | deny reason =>
    exact iff_of_false (status_refuse reason) (fun same => nomatch same)

end Decide

end OpenBerat
