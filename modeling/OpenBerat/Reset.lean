/-
**The second-factor reset.**

A reset reads the target, its groups and its credentials from Keycloak and deletes what is left
after all refusals. Keycloak answers whatever it likes: nothing, any status, a body that is no JSON,
any JSON. `["count"].take()` on a body that is neither an object nor null panics, which ends the
request as an error does.

* `target_meets`, `deleteOtp_meets`: what is known when each comes to an end.
* `reset_permitted`: every deletion of a reset is one of an OTP credential of a user that has been
  looked up and cleared.
-/

import Mathlib.Data.List.GetD
import OpenBerat.Lib.Dialogue
import OpenBerat.Portal

namespace OpenBerat.Reset

open Lib (Dialogue Everywhere)
open Lib.Dialogue (Meets meets_bind meets_bind_except)

/-! ### JSON -/

/-- `serde_json::Number`; a float by its bits. -/
inductive Number
  | posInt (value : UInt64)
  | negInt (value : Int)
  | float (bits : UInt64)

/-- `serde_json::Value`. -/
inductive Json
  | null
  | bool (value : Bool)
  | number (value : Number)
  | string (value : Str)
  | array (items : List Json)
  | object (fields : List (Str × Json))

namespace Json

/-- `value[key]`, read. -/
def get (key : String) : Json → Json
  | .object fields => (fields.lookup key.toList).getD .null
  | _ => .null

/-- `Value::as_str`. -/
def asStr : Json → Option Str
  | .string value => some value
  | _ => none

/-- `Value::as_array`. -/
def asArray : Json → Option (List Json)
  | .array items => some items
  | _ => none

/-- `Value::as_u64`. -/
def asU64 : Json → Option Nat
  | .number (.posInt value) => some value.toNat
  | _ => none

/-- `.as_array().into_iter().flatten()`. -/
def items (value : Json) : List Json :=
  value.asArray.getD []

end Json

/-! ### Requests -/

/-- `Keycloak`: the server, the realm and the service account. -/
structure Keycloak where
  base : Str
  realm : Str
  clientId : Str
  clientSecret : Str

/-- What is sent. -/
inductive Request
  | token (url : Str) (form : List (Str × Str))
  | get (url bearer : Str) (query : List (Str × Str))
  | delete (url bearer : Str)
  deriving DecidableEq

/-- The text of a body, with what it parses to. -/
inductive Body
  | unreadable
  | text (parsed : Option Json)

/-- What a request comes back with, if it does. -/
inductive Answer
  | none
  | answered (status : Nat) (body : Body)

/-- `StatusCode::is_success`. -/
def isSuccess (status : Nat) : Bool :=
  200 ≤ status && status < 300

/-- The answer is a success. -/
def Answer.ok : Answer → Bool
  | .none => false
  | .answered status _ => isSuccess status

/-- The errors of this module, by what their texts say. -/
inductive Failure
  | didNotAnswer
  | tokenUnreadable
  | refusedServiceAccount (status : Nat)
  | noAccessToken
  | refusedRead (status : Nat)
  | readUnreadable
  | idNotUuid
  | groupsCounted (listed : Nat) (count : Json)
  | refusedDelete (status : Nat)

/-- How a call ends early. -/
inductive Halt
  | error (why : Failure)
  /-- `cannot access key "count"`. -/
  | panicked

/-- A dialogue with Keycloak that may end before its result. -/
abbrev Call := ExceptT Halt (Dialogue Request Answer)

/-- One request. -/
def send (request : Request) : Call Answer :=
  ExceptT.lift (Dialogue.query request)

/-- The dialogue ends with a failure. -/
def fail {α : Type} (why : Failure) : Call α :=
  throw (.error why)

/-- A result, or an end, without a request. -/
def ofExcept {α : Type} (result : Except Halt α) : Call α :=
  ExceptT.mk (.ret result)

/-- The `uuid` crate. -/
structure Uuids where
  parseStr : Str → Option Uuid
  toString : Uuid → Str

namespace Keycloak

variable (keycloak : Keycloak) (uuids : Uuids)

/-- The sign-in of the service account. -/
def tokenRequest : Request :=
  .token (keycloak.base ++ "/realms/".toList ++ keycloak.realm ++
      "/protocol/openid-connect/token".toList)
    [("grant_type".toList, "client_credentials".toList), ("client_id".toList, keycloak.clientId),
      ("client_secret".toList, keycloak.clientSecret)]

/-- `token`: the service account's token. -/
def token : Call Str := do
  match ← send keycloak.tokenRequest with
  | .none => fail .didNotAnswer
  | .answered _ .unreadable => fail .tokenUnreadable
  | .answered status (.text parsed) =>
    if ¬ isSuccess status then fail (.refusedServiceAccount status)
    else match parsed.bind fun value => (value.get "access_token").asStr with
      | some token => pure token
      | none => fail .noAccessToken

/-- Under the realm's admin API. -/
def adminUrl (path : Str) : Str :=
  keycloak.base ++ "/admin/realms/".toList ++ keycloak.realm ++ '/' :: path

/-- `get`: one read of the admin API. -/
def get (token path : Str) (query : List (Str × Str)) : Call Json := do
  match ← send (.get (keycloak.adminUrl path) token query) with
  | .none => fail .didNotAnswer
  | .answered status body =>
    if ¬ isSuccess status then fail (.refusedRead status)
    else match body with
      | .text (some value) => pure value
      | _ => fail .readUnreadable

/-- `Target`: the user that a reset is for. -/
structure Target where
  id : Uuid
  groups : List Str

/-- The id of the first user of a list. -/
def firstId (found : Json) : Option Str :=
  (found.asArray.bind List.head?).bind fun user => (user.get "id").asStr

/-- The names of a list of groups. -/
def groupNames (listed : Json) : List Str :=
  listed.items.filterMap fun group => (group.get "name").asStr

/-- `["count"].take()`. -/
def takeCount : Json → Except Halt Json
  | .object fields => .ok ((fields.lookup "count".toList).getD .null)
  | .null => .ok .null
  | _ => .error .panicked

/-- The path of a user. -/
def userPath (id : Uuid) : Str :=
  "users/".toList ++ uuids.toString id

/-- `GROUPS_READ`. -/
def groupsRead : Str := "1000".toList

/-- `target`: the user of exactly this name, with all its groups. -/
def target (username : Str) : Call (Option Target) := do
  let token ← keycloak.token
  let found ← keycloak.get token "users".toList
    [("username".toList, username), ("exact".toList, "true".toList)]
  match firstId found with
  | none => pure none
  | some id => match uuids.parseStr id with
    | none => fail .idNotUuid
    | some id => do
      let listed ← keycloak.get token (userPath uuids id ++ "/groups".toList)
        [("max".toList, groupsRead)]
      let groups := groupNames listed
      let counted ← keycloak.get token (userPath uuids id ++ "/groups/count".toList) []
      let count ← ofExcept (takeCount counted)
      if count.asU64 ≠ some groups.length then fail (.groupsCounted groups.length count)
      else pure (some ⟨id, groups⟩)

/-- The OTP credentials of a list. -/
def otpCredentials (held : Json) : List Uuid :=
  let otp := held.items.filter fun credential => (credential.get "type").asStr = some "otp".toList
  (otp.filterMap fun credential => (credential.get "id").asStr).filterMap uuids.parseStr

/-- The URL of one credential. -/
def credentialUrl (id credential : Uuid) : Str :=
  keycloak.adminUrl (userPath uuids id ++ "/credentials/".toList ++ uuids.toString credential)

/-- The loop of `delete_otp`. -/
def deleteEach (token : Str) (id : Uuid) : List Uuid → Call Unit
  | [] => pure ()
  | credential :: otp => do
    match ← send (.delete (keycloak.credentialUrl uuids id credential) token) with
    | .none => fail .didNotAnswer
    | .answered status _ =>
      if ¬ isSuccess status then fail (.refusedDelete status)
      else deleteEach token id otp

/-- `delete_otp`: the listed OTP credentials, deleted one by one. -/
def deleteOtp (id : Uuid) : Call Nat := do
  let token ← keycloak.token
  let held ← keycloak.get token (userPath uuids id ++ "/credentials".toList) []
  let otp := otpCredentials uuids held
  keycloak.deleteEach uuids token id otp
  pure otp.length

end Keycloak

/-! ### The handler -/

/-- `in_group`. -/
def inGroup (groups : List Str) (group : Str) : Bool :=
  !group.isEmpty && groups.contains group

/-- `may_reset_second_factor`. -/
def mayResetSecondFactor (callerSub targetSub : Str) (targetGroups : List Str)
    (adminGroup auditorGroup : Str) : Except Str Unit :=
  if callerSub = targetSub then
    .error "an admin cannot reset their own second factor".toList
  else if inGroup targetGroups adminGroup || inGroup targetGroups auditorGroup then
    .error ("a management-plane account's second factor is reset at the Keycloak console, not " ++
      "here").toList
  else .ok ()

/-- What `reset_second_factor` answers. -/
inductive Response
  | unauthorized
  | badRequest (why : Str)
  | notFound (why : Str)
  | unavailable (why : Failure)
  | forbidden (why : Str)
  | removed (credentials : Nat)
  /-- The connection ends without one. -/
  | panicked

/-- The answer to a dialogue that has ended early. -/
def Halt.response : Halt → Response
  | .error why => .unavailable why
  | .panicked => .panicked

section Handler

variable (keycloak : Keycloak) (uuids : Uuids) (http : HeaderText) (adminGroup auditorGroup : Str)

/-- `reset_second_factor`, of a username as it was typed. -/
def resetSecondFactor (headers : Headers) (typed : Str) : Dialogue Request Answer Response :=
  match Caller.ofHeaders http headers with
  | none => .ret .unauthorized
  | some caller =>
    let username := trim typed
    if username = [] ∨ username.length > 255 then
      .ret (.badRequest "a username is required".toList)
    else do
      match ← (keycloak.target uuids username).run with
      | .error halt => pure halt.response
      | .ok none => pure (.notFound "no such user in the realm".toList)
      | .ok (some target) =>
        match mayResetSecondFactor (makeAsciiLowercase caller.sub) (uuids.toString target.id)
          target.groups adminGroup auditorGroup with
        | .error why => pure (.forbidden why)
        | .ok () =>
          match ← (keycloak.deleteOtp uuids target.id).run with
          | .error halt => pure halt.response
          | .ok removed => pure (.removed removed)

end Handler

/-! ### What a deletion rests on -/

/-- The requests made, each with what it came back with. -/
abbrev History := List (Request × Answer)

/-- What Keycloak has answered to the reads of a lookup. -/
structure Lookup where
  login : Answer
  token : Str
  foundStatus : Nat
  found : Json
  listedStatus : Nat
  listed : Json
  countedStatus : Nat
  counted : Json

section Cleared

variable (keycloak : Keycloak) (uuids : Uuids)

/-- A read that has come back with a value. -/
def read (token path : Str) (query : List (Str × Str)) (status : Nat) (value : Json) :
    Request × Answer :=
  (.get (keycloak.adminUrl path) token query, .answered status (.text (some value)))

/-- The reads of a lookup and their answers. -/
def Lookup.history (lookup : Lookup) (username : Str) (id : Uuid) : History :=
  [(keycloak.tokenRequest, lookup.login),
    read keycloak lookup.token "users".toList
      [("username".toList, username), ("exact".toList, "true".toList)] lookup.foundStatus
        lookup.found,
    read keycloak lookup.token (Keycloak.userPath uuids id ++ "/groups".toList)
      [("max".toList, Keycloak.groupsRead)] lookup.listedStatus lookup.listed,
    read keycloak lookup.token (Keycloak.userPath uuids id ++ "/groups/count".toList) []
      lookup.countedStatus lookup.counted]

/-- The lookup names the target, and its groups are as many as have been counted. -/
structure Lookup.Resolves (lookup : Lookup) (target : Keycloak.Target) : Prop where
  succeeded : isSuccess lookup.foundStatus ∧ isSuccess lookup.listedStatus ∧
    isSuccess lookup.countedStatus
  named : (Keycloak.firstId lookup.found).bind uuids.parseStr = some target.id
  groups : target.groups = Keycloak.groupNames lookup.listed
  counted : (lookup.counted.get "count").asU64 = some target.groups.length

/-- The target is another user than the caller, and in neither of the two groups. -/
structure Spared (caller : Caller) (adminGroup auditorGroup : Str) (target : Keycloak.Target) :
    Prop where
  other : makeAsciiLowercase caller.sub ≠ makeAsciiLowercase (uuids.toString target.id)
  admin : adminGroup ≠ [] → adminGroup ∉ target.groups
  auditor : auditorGroup ≠ [] → auditorGroup ∉ target.groups

/-- Deletions and their answers. -/
def deletions (token : Str) (id : Uuid) (removed : List (Uuid × Answer)) : History :=
  removed.map fun (credential, answer) =>
    (.delete (keycloak.credentialUrl uuids id credential) token, answer)

/-- A deletion is the next one of the OTP credentials that have been listed for the user, all before
it have succeeded, and before them the user has been looked up and spared. -/
def Permitted (caller : Caller) (adminGroup auditorGroup username : Str) (past : History) :
    Request → Prop
  | .delete url token => ∃ lookup target login status held removed credential later,
      past = Lookup.history keycloak uuids lookup username target.id ++
        [(keycloak.tokenRequest, login),
          read keycloak token (Keycloak.userPath uuids target.id ++ "/credentials".toList) [] status
            held] ++ deletions keycloak uuids token target.id removed ∧
      Lookup.Resolves uuids lookup target ∧ Spared uuids caller adminGroup auditorGroup target ∧
      isSuccess status ∧
      Keycloak.otpCredentials uuids held = removed.map Prod.fst ++ credential :: later ∧
      (∀ gone ∈ removed, gone.2.ok = true) ∧
      url = keycloak.credentialUrl uuids target.id credential
  | _ => True

end Cleared

/-! ### The calls -/

section Calls

variable {keycloak : Keycloak} {uuids : Uuids} {permitted : History → Request → Prop}
  {past : History}

theorem meets_send {request : Request} {post : History → Except Halt Answer → Prop} :
    Meets permitted past (send request).run post ↔
      permitted past request ∧ ∀ answer, post (past ++ [(request, answer)]) (.ok answer) :=
  Iff.rfl

theorem meets_fail {α : Type} {why : Failure} {post : History → α → Prop} :
    Meets permitted past (fail why : Call α).run (Lib.Dialogue.Okay post) :=
  fun _ same => nomatch same

theorem meets_ofExcept {α : Type} (result : Except Halt α) :
    Meets permitted past (ofExcept result).run (Lib.Dialogue.Okay fun next value =>
      next = past ∧ result = .ok value) :=
  fun _ same => ⟨rfl, same⟩

theorem token_meets (asks : permitted past keycloak.tokenRequest) :
    Meets permitted past keycloak.token.run (Lib.Dialogue.Okay fun next _ =>
      ∃ login, next = past ++ [(keycloak.tokenRequest, login)]) := by
  unfold Keycloak.token
  refine meets_bind_except.mpr (meets_send.mpr ⟨asks, fun answer => ?_⟩)
  dsimp only
  split
  · exact meets_fail
  · exact meets_fail
  · split
    · exact meets_fail
    · split
      · exact fun _ _ => ⟨_, rfl⟩
      · exact meets_fail

theorem get_meets {token path : Str} {query : List (Str × Str)}
    (asks : permitted past (.get (keycloak.adminUrl path) token query)) :
    Meets permitted past (keycloak.get token path query).run (Lib.Dialogue.Okay fun next value =>
      ∃ status, isSuccess status ∧
        next = past ++ [read keycloak token path query status value]) := by
  unfold Keycloak.get
  refine meets_bind_except.mpr (meets_send.mpr ⟨asks, fun answer => ?_⟩)
  dsimp only
  split
  · exact meets_fail
  · split
    · exact meets_fail
    · rename_i success
      split
      · rintro _ ⟨⟩
        exact ⟨_, not_not.mp success, rfl⟩
      · exact meets_fail

/-- Anything but a deletion is permitted. -/
def Reads (permitted : History → Request → Prop) : Prop :=
  ∀ past request, (∀ url token, request ≠ .delete url token) → permitted past request

theorem takeCount_eq_ok {value count : Json} (taken : Keycloak.takeCount value = .ok count) :
    count = value.get "count" := by
  cases value with
  | object fields =>
    cases taken
    rfl
  | null =>
    cases taken
    rfl
  | _ => cases taken

theorem target_meets (reads : Reads permitted) {username : Str} :
    Meets permitted [] (keycloak.target uuids username).run (Lib.Dialogue.Okay fun next found =>
      ∀ target, found = some target → ∃ lookup : Lookup,
        next = lookup.history keycloak uuids username target.id ∧
          lookup.Resolves uuids target) := by
  unfold Keycloak.target
  refine (token_meets (reads _ _ fun _ _ same => nomatch same)).andThen ?_
  rintro _ token ⟨login, rfl⟩
  refine (get_meets (reads _ _ fun _ _ same => nomatch same)).andThen ?_
  rintro _ found ⟨foundStatus, foundOk, rfl⟩
  cases first : Keycloak.firstId found with
  | none =>
    rintro _ ⟨⟩ _ same
    cases same
  | some text =>
    dsimp only
    cases parsed : uuids.parseStr text with
    | none => exact meets_fail
    | some id =>
      dsimp only
      refine (get_meets (reads _ _ fun _ _ same => nomatch same)).andThen ?_
      rintro _ listed ⟨listedStatus, listedOk, rfl⟩
      refine (get_meets (reads _ _ fun _ _ same => nomatch same)).andThen ?_
      rintro _ counted ⟨countedStatus, countedOk, rfl⟩
      refine (meets_ofExcept (Keycloak.takeCount counted)).andThen ?_
      rintro _ count ⟨rfl, taken⟩
      split
      · exact meets_fail
      · rename_i counts
        rintro _ ⟨⟩ _ ⟨⟩
        let lookup : Lookup :=
          ⟨login, token, foundStatus, found, listedStatus, listed, countedStatus, counted⟩
        have named : (Keycloak.firstId found).bind uuids.parseStr = some id := by
          rw [first]
          exact parsed
        exact ⟨lookup, rfl, ⟨foundOk, listedOk, countedOk⟩, named, rfl,
          takeCount_eq_ok taken ▸ not_not.mp counts⟩

/-- **The loop** deletes what is listed, in order, as long as nothing fails. -/
theorem deleteEach_meets {token : Str} {id : Uuid} {base : History} {listed otp : List Uuid}
    (asks : ∀ removed credential later, listed = removed.map Prod.fst ++ credential :: later →
      (∀ gone ∈ removed, gone.2.ok = true) →
      permitted (base ++ deletions keycloak uuids token id removed)
        (.delete (keycloak.credentialUrl uuids id credential) token))
    {removed : List (Uuid × Answer)} (rest : listed = removed.map Prod.fst ++ otp)
    (fine : ∀ gone ∈ removed, gone.2.ok = true) :
    Meets permitted (base ++ deletions keycloak uuids token id removed)
      (keycloak.deleteEach uuids token id otp).run (Lib.Dialogue.Okay fun _ _ => True) := by
  induction otp generalizing removed with
  | nil => exact fun _ _ => trivial
  | cons credential otp ih =>
    refine meets_bind_except.mpr (meets_send.mpr
      ⟨asks removed credential otp rest fine, fun answer => ?_⟩)
    dsimp only
    split
    · exact meets_fail
    · rename_i status body
      split
      · exact meets_fail
      · rename_i success
        have next : deletions keycloak uuids token id
              (removed ++ [(credential, .answered status body)]) =
            deletions keycloak uuids token id removed ++
              [(.delete (keycloak.credentialUrl uuids id credential) token,
                  .answered status body)] :=
          List.map_append
        rw [List.append_assoc, ← next]
        refine ih ?_ ?_
        · rw [rest, List.map_append, List.append_assoc]
          rfl
        · exact List.forall_mem_append.mpr
            ⟨fine, List.forall_mem_singleton.mpr (not_not.mp success)⟩

theorem deleteOtp_meets {base : History} {id : Uuid} (reads : Reads permitted)
    (asks : ∀ login token status held removed credential later, isSuccess status →
      Keycloak.otpCredentials uuids held = removed.map Prod.fst ++ credential :: later →
      (∀ gone ∈ removed, gone.2.ok = true) →
      permitted (base ++ [(keycloak.tokenRequest, login),
          read keycloak token (Keycloak.userPath uuids id ++ "/credentials".toList)
          [] status held] ++
        deletions keycloak uuids token id removed)
        (.delete (keycloak.credentialUrl uuids id credential) token)) :
    Meets permitted base (keycloak.deleteOtp uuids id).run (Lib.Dialogue.Okay fun _ _ => True) := by
  unfold Keycloak.deleteOtp
  refine (token_meets (reads _ _ fun _ _ same => nomatch same)).andThen ?_
  rintro _ token ⟨login, rfl⟩
  refine (get_meets (reads _ _ fun _ _ same => nomatch same)).andThen ?_
  rintro _ held ⟨status, success, rfl⟩
  rw [List.append_assoc, List.singleton_append]
  have each := @deleteEach_meets keycloak uuids permitted token id _ _
    (Keycloak.otpCredentials uuids held) (fun removed credential later listed fine =>
      asks login token status held removed credential later success listed fine) [] rfl
      fun _ member => nomatch member
  rw [deletions, List.map_nil, List.append_nil] at each
  exact each.andThen fun _ _ _ _ _ => trivial

end Calls

/-! ### The handler -/

section Handler

variable {keycloak : Keycloak} {uuids : Uuids} {adminGroup auditorGroup : Str}

theorem spared_of_mayReset {caller : Caller} {target : Keycloak.Target}
    (lowercase : ∀ id, makeAsciiLowercase (uuids.toString id) = uuids.toString id)
    (may : mayResetSecondFactor (makeAsciiLowercase caller.sub)
      (uuids.toString target.id) target.groups
      adminGroup auditorGroup = .ok ()) :
    Spared uuids caller adminGroup auditorGroup target := by
  have outside : ∀ group : Str, ¬ inGroup target.groups group = true → group ≠ [] →
      group ∉ target.groups := by
    intro group free some member
    refine free ?_
    unfold inGroup
    rw [Bool.and_eq_true, Bool.not_eq_true', List.isEmpty_eq_false_iff]
    exact ⟨some, List.contains_iff_mem.mpr member⟩
  unfold mayResetSecondFactor at may
  split at may
  · cases may
  · rename_i other
    split at may
    · cases may
    · rename_i free
      rw [Bool.or_eq_true, not_or] at free
      refine ⟨?_, outside _ free.1, outside _ free.2⟩
      rw [lowercase]
      exact other

theorem reset_meets {http : HeaderText} {headers : Headers} {typed : Str} {caller : Caller}
    (signedIn : Caller.ofHeaders http headers = some caller)
    (lowercase : ∀ id, makeAsciiLowercase (uuids.toString id) = uuids.toString id) :
    Meets (Permitted keycloak uuids caller adminGroup auditorGroup (trim typed)) []
      (resetSecondFactor keycloak uuids http adminGroup auditorGroup headers typed)
      fun _ _ => True := by
  have reads : Reads (Permitted keycloak uuids caller adminGroup auditorGroup (trim typed)) := by
    intro past request other
    cases request with
    | delete url token => exact absurd rfl (other url token)
    | _ => trivial
  unfold resetSecondFactor
  rw [signedIn]
  dsimp only
  split
  · trivial
  · refine meets_bind.mpr ((target_meets reads).mono fun past found resolved => ?_)
    split
    · trivial
    · trivial
    · rename_i target
      obtain ⟨lookup, rfl, resolves⟩ := resolved _ rfl target rfl
      split
      · trivial
      · rename_i may
        refine meets_bind.mpr ((deleteOtp_meets reads ?_).mono fun past removed _ => ?_)
        · intro login token status held removed credential later success listed fine
          exact ⟨lookup, target, login, status, held, removed, credential, later, rfl, resolves,
            spared_of_mayReset lowercase may, success, listed, fine, rfl⟩
        · split
          · trivial
          · trivial

/-- **A reset deletes only what it may**, whatever Keycloak answers: before every deletion the user
has been looked up, is not the caller, and all its groups have been read and none of them is one of
the two; the deletion is of one of the OTP credentials listed for that user; and none before it
failed. -/
theorem reset_permitted (keycloak : Keycloak) (uuids : Uuids) (http : HeaderText)
    (adminGroup auditorGroup : Str)
    (lowercase : ∀ id, makeAsciiLowercase (uuids.toString id) = uuids.toString id)
    (headers : Headers) (typed : Str) (answers : List Answer) :
    Everywhere (fun past said => ∃ caller, Caller.ofHeaders http headers = some caller ∧
        Permitted keycloak uuids caller adminGroup auditorGroup (trim typed) past said.1)
      ((resetSecondFactor keycloak uuids http adminGroup auditorGroup headers typed).run
        answers).1 := by
  cases signedIn : Caller.ofHeaders http headers with
  | none =>
    unfold resetSecondFactor
    rw [signedIn]
    exact Lib.everywhere_nil _
  | some caller =>
    intro past said later shape
    have meets := @reset_meets keycloak uuids adminGroup auditorGroup http headers typed caller
      signedIn lowercase
    exact ⟨caller, rfl, (Lib.Dialogue.permitted_of_run meets answers).1 past said later shape⟩

end Handler

/-! ### One credential -/

namespace Enrolled

/-- The digits of a UUID. -/
def hexDigits : List Char := "0123456789abcdef".toList

/-- Digits of an id, from the one before `start` downwards. -/
def digits (id : Uuid) (start count : Nat) : Str :=
  (List.range count).map fun index =>
    hexDigits.getD (id.extractLsb' (4 * (start - 1 - index)) 4).toNat '0'

/-- A UUID in groups of digits. -/
def hyphenated (id : Uuid) : Str :=
  join '-' [digits id 32 8, digits id 24 4, digits id 20 4, digits id 16 4, digits id 12 12]

/-- The crate on the two ids below. -/
def uuids : Uuids where
  parseStr text := [1, 2].find? fun id => hyphenated id = text
  toString := hyphenated

theorem lowercase (id : Uuid) : makeAsciiLowercase (uuids.toString id) = uuids.toString id := by
  have lower : (hexDigits.all fun char => char.toLower = char) = true := by decide
  have digit : ∀ {start count : Nat}, ∀ char ∈ digits id start count, char.toLower = char := by
    intro start count char member
    obtain ⟨index, _, rfl⟩ := List.mem_map.mp member
    have bound : (id.extractLsb' (4 * (start - 1 - index)) 4).toNat < hexDigits.length :=
      (id.extractLsb' (4 * (start - 1 - index)) 4).isLt
    rw [List.getD_eq_getElem _ _ bound]
    exact of_decide_eq_true (List.all_eq_true.mp lower _ (List.getElem_mem bound))
  have each : ∀ char ∈ hyphenated id, char.toLower = char := by
    intro char member
    rcases mem_join member with rfl | ⟨part, listed, inside⟩
    · decide
    · simp only [List.mem_cons, List.not_mem_nil, or_false] at listed
      rcases listed with rfl | rfl | rfl | rfl | rfl <;> exact digit char inside
  exact (List.map_congr_left each).trans (List.map_id' _)

/-- A server. -/
def keycloak : Keycloak :=
  ⟨"http://keycloak:8080".toList, "openberat".toList, "backend".toList, "secret".toList⟩

/-- The headers of a caller. -/
def headers : Headers := fun name =>
  if name = "x-auth-subject".toList then some (asBytes "U9".toList) else none

/-- A JSON string. -/
def text (value : String) : Json := .string value.toList

/-- What Keycloak answers for a user of one group with two credentials. -/
def answers : List Answer :=
  let json (value : Json) : Answer := .answered 200 (.text (some value))
  let login := json (.object [("access_token".toList, text "t")])
  [login, json (.array [.object [("id".toList, text "00000000-0000-0000-0000-000000000001")]]),
    json (.array [.object [("name".toList, text "staff")], .null]),
    json (.object [("count".toList, .number (.posInt 1))]), login,
    json (.array [.object [("type".toList, text "password")],
      .object [("type".toList, text "otp"),
        ("id".toList, text "00000000-0000-0000-0000-000000000002")]]),
    .answered 204 .unreadable]

end Enrolled

open Enrolled in
/-- The one OTP credential is deleted. -/
theorem reset_enrolled :
    (Dialogue.run (resetSecondFactor keycloak uuids HeaderText.documented "admins".toList [] headers
        "u1".toList) answers).1.map Prod.fst =
      [keycloak.tokenRequest,
        .get (keycloak.adminUrl "users".toList) "t".toList
          [("username".toList, "u1".toList), ("exact".toList, "true".toList)],
        .get (keycloak.adminUrl (Keycloak.userPath uuids 1 ++ "/groups".toList)) "t".toList
          [("max".toList, Keycloak.groupsRead)],
        .get (keycloak.adminUrl (Keycloak.userPath uuids 1 ++ "/groups/count".toList)) "t".toList
        [], keycloak.tokenRequest,
        .get (keycloak.adminUrl (Keycloak.userPath uuids 1 ++ "/credentials".toList)) "t".toList [],
        .delete (keycloak.credentialUrl uuids 1 2) "t".toList] ∧
    Everywhere (fun past said => ∃ caller, Caller.ofHeaders HeaderText.documented headers =
      some caller ∧
        Permitted keycloak uuids caller "admins".toList [] (trim "u1".toList) past said.1)
      (Dialogue.run
        (resetSecondFactor keycloak uuids HeaderText.documented "admins".toList [] headers
        "u1".toList) answers).1 :=
  ⟨by decide +kernel,
    reset_permitted keycloak uuids HeaderText.documented _ _ lowercase headers _ answers⟩

end OpenBerat.Reset
