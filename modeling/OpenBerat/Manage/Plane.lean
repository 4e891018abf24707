/-
**The management plane.**

The session of a request is indexed, the request passes the guard, and a handler runs at most one
statement that changes a table. The guard lets `ADMIN_GROUP` do everything from the portal's origin,
and `AUDITOR_GROUP` read.

* `serve_cases`: a request is refused in front of the handlers, or admitted to one.
* `serve_of_not_administers`: who leaves the tables as they are.
* `purge`: the tables are those of the administrators' requests alone, whatever else has come in.
-/

import OpenBerat.Manage.Tables
import OpenBerat.Provenance
import OpenBerat.Reset

namespace OpenBerat.Manage

open Decide (headerStr)
open Lib (Plan Run exec exec_cons exec_filter)
open Nginx (Application ApplicationPatch NewApplication optional)
open Reset (inGroup)
open Schema (NewEntitlement)
open Validate (UrlParser)

/-! ### Requests -/

/-- The methods that the routes tell apart. -/
inductive Method
  | get
  | head
  | post
  | patch
  | delete
  | other
  deriving DecidableEq

/-- A path under `/api/admin/`; an id that is no UUID is nothing. -/
inductive Resource
  | applications
  | application (id : Option Uuid)
  | entitlements
  | entitlement (id : Option Uuid)
  | audit
  | sessions
  | explain
  | kill (sub : Option Uuid)
  | users
  | resetSecondFactor

/-- A handler, with the id that the path gives it, if it is one. -/
inductive Endpoint
  | listApplications
  | createApplication
  | updateApplication (id : Option Uuid)
  | deleteApplication (id : Option Uuid)
  | listEntitlements
  | createEntitlement
  | deleteEntitlement (id : Option Uuid)
  | listAudit
  | listSessions
  | explain
  | kill (sub : Option Uuid)
  | listUsers
  | resetSecondFactor
  deriving DecidableEq

/-- `routes`. A `get` answers HEAD as well. -/
def endpoint : Resource → Method → Option Endpoint
  | .applications, .get => some .listApplications
  | .applications, .head => some .listApplications
  | .applications, .post => some .createApplication
  | .application id, .patch => some (.updateApplication id)
  | .application id, .delete => some (.deleteApplication id)
  | .entitlements, .get => some .listEntitlements
  | .entitlements, .head => some .listEntitlements
  | .entitlements, .post => some .createEntitlement
  | .entitlement id, .delete => some (.deleteEntitlement id)
  | .audit, .get => some .listAudit
  | .audit, .head => some .listAudit
  | .sessions, .get => some .listSessions
  | .sessions, .head => some .listSessions
  | .explain, .get => some .explain
  | .explain, .head => some .explain
  | .kill sub, .post => some (.kill sub)
  | .users, .get => some .listUsers
  | .users, .head => some .listUsers
  | .resetSecondFactor, .post => some .resetSecondFactor
  | _, _ => none

/-- What the body deserialises to. -/
inductive Body
  | application (new : NewApplication)
  | patch (patch : ApplicationPatch)
  | entitlement (new : NewEntitlement)
  | other

/-- A request as the router receives it. -/
structure Request where
  headers : Headers
  resource : Resource
  method : Method
  body : Body

/-- A statement is answered, or done with its answer lost, or not done. -/
inductive Outcome
  | answered
  | lost
  | failed

/-- What a request meets: the index write, the id that Postgres makes, and what becomes of the
statement. -/
structure Outside where
  recorded : Bool
  id : Uuid
  outcome : Outcome
  plan : Plan EntitlementRow

/-- What the management plane answers. -/
inductive Response
  | methodNotAllowed
  | unauthorized
  | forbidden
  | unavailable
  | badPath
  | unprocessable
  | badRequest (why : Str)
  | conflict (why : Str)
  | notFound
  | applications (rows : List Application)
  | created (app : Application)
  | updated (app : Application)
  | deleted
  | entitlements (rows : List EntitlementRow)
  | entitled (row : EntitlementRow)
  | noContent
  /-- On to a handler that reads or changes something else. -/
  | passed (endpoint : Endpoint)

/-- What a statement changes. -/
inductive Change
  | created (app : Application)
  | updated (app : Application)
  | deleted (id : Uuid)
  | granted (row : EntitlementRow)
  | revoked (id : Uuid)

/-- What a request leaves behind. -/
structure Handled (space : Char → Bool) where
  tables : Tables space
  changes : List Change
  response : Response

/-- The settings that the handlers read. -/
structure Config where
  adminGroup : Str
  auditorGroup : Str
  portalOrigin : Str
  collation : Collation

/-! ### In front of the handlers -/

/-- `may_manage`. -/
def mayManage (groups : List Str) (adminGroup auditorGroup : Str) (reads : Bool) : Bool :=
  inGroup groups adminGroup || (reads && inGroup groups auditorGroup)

/-- `from_portal`. -/
def fromPortal (http : HeaderText) (headers : Headers) (portalOrigin : Str) : Bool :=
  (headers "origin".toList).bind http.toStr = some portalOrigin

/-- `matches!(*request.method(), Method::GET | Method::HEAD)`. -/
def Method.reads : Method → Bool
  | .get => true
  | .head => true
  | _ => false

section Front

variable (lib : Libraries) (config : Config) (headers : Headers)

/-- `indexed`: a refusal, or on. -/
def indexed (recorded : Bool) : Option Response :=
  match (headerStr lib headers "x-auth-subject").filter (· ≠ []) with
  | none => none
  | some _ =>
    match (sessionCookie (headerStr lib headers "cookie")).toOption.bind id with
    | none => some .unavailable
    | some value =>
      match lib.base64.sessionKey value cookieName with
      | none => some .unavailable
      | some _ => if recorded then none else some .unavailable

/-- `guard`: a refusal, or on. -/
def guard (method : Method) : Option Response :=
  match Caller.ofHeaders lib.http headers with
  | none => some .unauthorized
  | some caller =>
    if ¬ mayManage caller.groups config.adminGroup config.auditorGroup method.reads
      then some .forbidden
    else if !method.reads && !fromPortal lib.http headers config.portalOrigin then some .forbidden
    else none

end Front

/-! ### The handlers -/

section Handlers

variable {space : Char → Bool} (urls : UrlParser) (config : Config) (tables : Tables space)

/-- Nothing is changed. -/
def Tables.answer (tables : Tables space) (response : Response) : Handled space :=
  ⟨tables, [], response⟩

/-- `failed`. -/
def failed : Violation → Response
  | .unique => .conflict "slug or external_hostname already exists".toList
  | _ => .unavailable

/-- A statement, and what the handler makes of its answer. -/
def conclude (outcome : Outcome) : Except Violation (Handled space) → Handled space
  | .error violation => match outcome with
    | .answered => tables.answer (failed violation)
    | _ => tables.answer .unavailable
  | .ok served => match outcome with
    | .answered => served
    | .lost => { served with response := .unavailable }
    | .failed => tables.answer .unavailable

/-- `list_applications`: the rows in order of their slugs. -/
def listApplications (outside : Outside) : Handled space :=
  conclude tables outside.outcome (.ok (tables.answer (.applications
    (tables.applications.mergeSort fun first second =>
      config.collation.le first.slug second.slug))))

/-- `create_application`: the checks, and one insert. -/
def createApplication (outside : Outside) (new : NewApplication) : Handled space :=
  match Nginx.createApplication urls config.portalOrigin outside.id new with
  | .error why => tables.answer (.badRequest why)
  | .ok app => conclude tables outside.outcome ((tables.insertApplication app).map fun next =>
      ⟨next, [.created app], .created app⟩)

/-- The values that a patch binds. -/
def validatePatch (patch : ApplicationPatch) : Except Str ApplicationPatch := do
  let _ ← optional (Validate.validateUpstream urls) patch.upstreamUrl
  let name ← optional Validate.validateName patch.name
  let icon ← optional Validate.validateIcon patch.icon
  return { patch with name := name, icon := icon }

/-- `update_application`: the checks, and one update that may find no row. -/
def updateApplication (outside : Outside) (id : Uuid) (patch : ApplicationPatch) : Handled space :=
  match validatePatch urls patch with
  | .error why => tables.answer (.badRequest why)
  | .ok columns => conclude tables outside.outcome ((tables.updateApplication id columns).map fun
      | some (app, next) => ⟨next, [.updated app], .updated app⟩
      | none => tables.answer .notFound)

/-- `delete_application`: one delete, which takes the entitlements along. -/
def deleteApplication (outside : Outside) (id : Uuid) : Handled space :=
  conclude tables outside.outcome (.ok (
    if Tables.has (·.id) id tables.applications then
      ⟨tables.deleteApplication id, [.deleted id], .deleted⟩
    else tables.answer .notFound))

/-- `order by subject_id, effect`. -/
def entitlementLe (collation : Collation) (first second : EntitlementRow) : Bool :=
  if first.subjectId = second.subjectId then collation.le first.effect second.effect
  else collation.le first.subjectId second.subjectId

/-- `list_entitlements`: the rows in the order of the statement. -/
def listEntitlements (outside : Outside) : Handled space :=
  conclude tables outside.outcome (.ok (tables.answer (.entitlements
    ((outside.plan.arrange tables.entitlements).mergeSort (entitlementLe config.collation)))))

/-- `create_entitlement`: the checks, and one insert. -/
def createEntitlement (outside : Outside) (new : NewEntitlement) : Handled space :=
  match Schema.createEntitlement new with
  | .error why => tables.answer (.badRequest why)
  | .ok row => conclude tables outside.outcome
      ((tables.insertEntitlement outside.id row).map fun (row, next) =>
        ⟨next, [.granted row], .entitled row⟩)

/-- `delete_entitlement`: one delete. -/
def deleteEntitlement (outside : Outside) (id : Uuid) : Handled space :=
  conclude tables outside.outcome (.ok (
    if Tables.has (·.id) id tables.entitlements then
      ⟨tables.deleteEntitlement id, [.revoked id], .noContent⟩
    else tables.answer .notFound))

/-- The handler of an endpoint. -/
def handle (outside : Outside) (body : Body) : Endpoint → Handled space
  | .listApplications => listApplications config tables outside
  | .createApplication => match body with
    | .application new => createApplication urls config tables outside new
    | _ => tables.answer .unprocessable
  | .updateApplication none => tables.answer .badPath
  | .updateApplication (some id) => match body with
    | .patch patch => updateApplication urls tables outside id patch
    | _ => tables.answer .unprocessable
  | .deleteApplication none => tables.answer .badPath
  | .deleteApplication (some id) => deleteApplication tables outside id
  | .listEntitlements => listEntitlements config tables outside
  | .createEntitlement => match body with
    | .entitlement new => createEntitlement tables outside new
    | _ => tables.answer .unprocessable
  | .deleteEntitlement none => tables.answer .badPath
  | .deleteEntitlement (some id) => deleteEntitlement tables outside id
  | other => tables.answer (.passed other)

variable (lib : Libraries)

/-- One request. `route_layer` puts both layers in front of a path with all its methods. -/
def serve (request : Request) (outside : Outside) : Handled space :=
  match indexed lib request.headers outside.recorded with
  | some refusal => tables.answer refusal
  | none =>
    match guard lib config request.headers request.method with
    | some refusal => tables.answer refusal
    | none =>
      match endpoint request.resource request.method with
      | none => tables.answer .methodNotAllowed
      | some endpoint => handle urls config tables outside request.body endpoint

end Handlers

/-! ### Who gets through -/

/-- An endpoint that only reads. -/
def Endpoint.reads : Endpoint → Bool
  | .listApplications => true
  | .listEntitlements => true
  | .listAudit => true
  | .listSessions => true
  | .explain => true
  | .listUsers => true
  | _ => false

/-- The router puts nothing that writes behind a read. -/
theorem reads_of_endpoint {resource : Resource} {method : Method} {found : Endpoint}
    (routed : endpoint resource method = some found) : found.reads = method.reads := by
  cases resource <;> cases method <;> cases routed <;> rfl

section Access

variable {space : Char → Bool} {urls : UrlParser} {config : Config} {lib : Libraries}
  {tables : Tables space} {request : Request} {outside : Outside}

theorem indexed_eq_none {headers : Headers} {recorded : Bool} {caller : Caller}
    (named : Caller.ofHeaders lib.http headers = some caller)
    (passed : indexed lib headers recorded = none) :
    recorded = true ∧ ∃ value, (sessionCookie (headerStr lib headers "cookie")) = .ok (some value) ∧
      (lib.base64.sessionKey value cookieName).isSome = true := by
  unfold Caller.ofHeaders at named
  dsimp only at named
  split_ifs at named with filled
  obtain ⟨text, shown⟩ : ∃ text, headerStr lib headers "x-auth-subject" = some text := by
    refine Option.ne_none_iff_exists'.mp fun none => filled ?_
    unfold headerStr at none
    rw [none]
    rfl
  have kept : (some text).filter (fun text => decide (text ≠ [])) = some text := by
    refine Option.filter_some_pos (decide_eq_true ?_)
    unfold headerStr at shown
    rw [shown] at filled
    exact filled
  unfold indexed at passed
  rw [shown, kept] at passed
  dsimp only at passed
  cases cookie : sessionCookie (headerStr lib headers "cookie") with
  | error refused =>
    rw [cookie] at passed
    cases passed
  | ok found =>
    rw [cookie] at passed
    cases found with
    | none => cases passed
    | some value =>
      change (match lib.base64.sessionKey value cookieName with
        | none => some Response.unavailable
        | some _ => if recorded then none else some .unavailable) = none at passed
      cases key : lib.base64.sessionKey value cookieName with
      | none =>
        rw [key] at passed
        cases passed
      | some session =>
        rw [key] at passed
        dsimp only at passed
        split_ifs at passed with written
        exact ⟨written, value, rfl, by rw [key]; rfl⟩

theorem guard_eq_none {headers : Headers} {method : Method} :
    guard lib config headers method = none ↔ ∃ caller,
      Caller.ofHeaders lib.http headers = some caller ∧
        mayManage caller.groups config.adminGroup config.auditorGroup method.reads = true ∧
        (method.reads = false → fromPortal lib.http headers config.portalOrigin = true) := by
  unfold guard
  cases named : Caller.ofHeaders lib.http headers with
  | none => exact iff_of_false (fun same => nomatch same) fun ⟨_, same, _⟩ => nomatch same
  | some caller =>
    dsimp only
    constructor
    · intro passed
      split_ifs at passed with manages origin
      refine ⟨caller, rfl, manages, fun writes => ?_⟩
      rw [writes, Bool.not_false, Bool.true_and, Bool.not_eq_true', Bool.not_eq_false] at origin
      exact origin
    · rintro ⟨other, same, manages, origin⟩
      obtain rfl := Option.some.inj same
      rw [if_neg (not_not.mpr manages), if_neg]
      rw [Bool.and_eq_true, Bool.not_eq_true', Bool.not_eq_true']
      rintro ⟨writes, foreign⟩
      rw [origin writes] at foreign
      cases foreign

/-- What has to hold in front of a handler. -/
structure Admitted (lib : Libraries) (config : Config) (request : Request) (outside : Outside)
    (found : Endpoint) : Prop where
  routed : endpoint request.resource request.method = some found
  caller : ∃ caller, Caller.ofHeaders lib.http request.headers = some caller ∧
    mayManage caller.groups config.adminGroup config.auditorGroup found.reads = true
  portal : found.reads = false → fromPortal lib.http request.headers config.portalOrigin = true
  recorded : outside.recorded = true
  session : ∃ value, (sessionCookie (headerStr lib request.headers "cookie")) = .ok (some value) ∧
    (lib.base64.sessionKey value cookieName).isSome = true

/-- **What a request can be**: refused in front of the handlers, or handled. -/
theorem serve_cases (tables : Tables space) (request : Request) (outside : Outside) :
    (∃ refusal ∈ [Response.methodNotAllowed, .unauthorized, .forbidden, .unavailable],
      serve urls config tables lib request outside = tables.answer refusal) ∨
    ∃ found, Admitted lib config request outside found ∧
      serve urls config tables lib request outside =
        handle urls config tables outside request.body found := by
  unfold serve
  cases index : indexed lib request.headers outside.recorded with
  | some refusal =>
    refine Or.inl ⟨refusal, ?_, rfl⟩
    unfold indexed at index
    repeat' split at index
    all_goals cases index
    all_goals simp
  | none =>
    dsimp only
    cases guarded : guard lib config request.headers request.method with
    | some refusal =>
      refine Or.inl ⟨refusal, ?_, rfl⟩
      unfold guard at guarded
      repeat' split at guarded
      all_goals cases guarded
      all_goals simp
    | none =>
      dsimp only
      cases routed : endpoint request.resource request.method with
      | none => exact Or.inl ⟨_, by simp, rfl⟩
      | some found =>
        obtain ⟨caller, named, manages, portal⟩ := guard_eq_none.mp guarded
        obtain ⟨recorded, session⟩ := indexed_eq_none named index
        rw [← reads_of_endpoint routed] at manages portal
        exact Or.inr ⟨found, ⟨routed, ⟨caller, named, manages⟩, portal, recorded, session⟩, rfl⟩

/-! ### Who changes anything -/

/-- A reading endpoint leaves the tables. -/
theorem handle_reads {body : Body} {found : Endpoint} (reads : found.reads = true) :
    ∃ response, handle urls config tables outside body found = tables.answer response := by
  have listed : ∀ response : Response,
      ∃ shown, conclude tables outside.outcome (.ok (tables.answer response)) =
          tables.answer shown := by
    intro response
    unfold conclude
    cases outside.outcome with
    | answered => exact ⟨response, rfl⟩
    | lost => exact ⟨.unavailable, rfl⟩
    | failed => exact ⟨.unavailable, rfl⟩
  cases found with
  | listApplications => exact listed _
  | listEntitlements => exact listed _
  | listAudit => exact ⟨_, rfl⟩
  | listSessions => exact ⟨_, rfl⟩
  | explain => exact ⟨_, rfl⟩
  | listUsers => exact ⟨_, rfl⟩
  | _ => cases reads

variable (config lib) in
/-- A write out of `ADMIN_GROUP`, from the portal. -/
def administers (request : Request) : Bool :=
  !request.method.reads && fromPortal lib.http request.headers config.portalOrigin &&
    (Caller.ofHeaders lib.http request.headers).any fun caller =>
      inGroup caller.groups config.adminGroup

theorem administers_of_admitted {found : Endpoint}
    (admitted : Admitted lib config request outside found) (writes : found.reads = false) :
    administers config lib request = true := by
  obtain ⟨caller, named, manages⟩ := admitted.caller
  unfold mayManage at manages
  rw [writes, Bool.false_and, Bool.or_false] at manages
  have method := reads_of_endpoint admitted.routed
  unfold administers
  rw [← method, writes, admitted.portal writes, named]
  exact manages

/-- **Nobody else changes the tables.** -/
theorem serve_of_not_administers (not : administers config lib request = false) :
    ∃ response, serve urls config tables lib request outside = tables.answer response := by
  rcases serve_cases tables request outside with ⟨refusal, _, same⟩ | ⟨found, admitted, same⟩
  · exact ⟨refusal, same⟩
  · cases writes : found.reads with
    | true =>
      obtain ⟨response, quiet⟩ := handle_reads writes
      exact ⟨response, same.trans quiet⟩
    | false =>
      rw [administers_of_admitted admitted writes] at not
      cases not

/-! ### Many requests -/

/-- A change that has been made. -/
structure Commit where
  request : Request
  outside : Outside
  change : Change

variable (urls config lib) in
/-- One request as a step. Each handler runs one statement that changes a table, so requests that
overlap are requests one after another. -/
def step (tables : Tables space) (label : Request × Outside) :
    Option (Tables space × List Commit) :=
  let served := serve urls config tables lib label.1 label.2
  some (served.tables, served.changes.map (⟨label.1, label.2, ·⟩))

/-- Who makes a change: an administrator, on a session that the kill switch finds. -/
structure Author (lib : Libraries) (config : Config) (commit : Commit) : Prop where
  administers : administers config lib commit.request = true
  recorded : commit.outside.recorded = true
  session : ∃ value,
    (sessionCookie (headerStr lib commit.request.headers "cookie")) = .ok (some value) ∧
    (lib.base64.sessionKey value cookieName).isSome = true

theorem author_of_mem {commit : Commit}
    (member : commit ∈ (serve urls config tables lib request outside).changes.map
      (⟨request, outside, ·⟩)) :
    Author lib config commit := by
  obtain ⟨change, made, rfl⟩ := List.mem_map.mp member
  rcases @serve_cases _ urls config lib tables request outside with
    ⟨refusal, _, same⟩ | ⟨found, admitted, same⟩
  · rw [same] at made
    cases made
  · cases writes : found.reads with
    | true =>
      obtain ⟨response, quiet⟩ := @handle_reads _ urls config tables outside request.body _ writes
      rw [same, quiet] at made
      cases made
    | false =>
      exact ⟨administers_of_admitted admitted writes, admitted.recorded, admitted.session⟩

end Access

/-! ### An administrator at the console -/

namespace Console

/-- Two groups, and the portal's origin. -/
def config : Config where
  adminGroup := "admins".toList
  auditorGroup := "auditors".toList
  portalOrigin := Nginx.Table.portal
  collation := .codePoint

/-- A session on the portal, as nginx hands it on. -/
def headers : Headers := fun name =>
  if name = "x-auth-subject".toList then some (asBytes "u0".toList)
  else if name = "x-auth-groups".toList then some (asBytes "admins".toList)
  else if name = "origin".toList then some (asBytes Nginx.Table.portal)
  else if name = "cookie".toList
    then some (asBytes ("_oauth2_proxy=".toList ++ Instance.Visit.value))
  else none

/-- Everything outside answers; the row gets this id. -/
def outside (id : Uuid) : Outside := ⟨true, id, .answered, .table _⟩

/-- An administrator creates an application. -/
def create : Request × Outside :=
  (⟨headers, .applications, .post, .application { Nginx.Table.typed with enabled := true }⟩,
    outside 1)

/-- The user `u1` may use the application. -/
def grant : Request × Outside :=
  (⟨headers, .entitlements, .post, .entitlement
    { applicationId := some 1
      subjectType := "user".toList
      subjectId := "u1".toList
      effect := "allow".toList
      pathPattern := []
      expiresAt := none }⟩, outside 2)

/-- Tables whose only white space is the blank. -/
abbrev Rows := Tables (· == ' ')

/-- The console as a machine. -/
abbrev stepWiki : Rows → Request × Outside → Option (Rows × List Commit) :=
  step Nginx.Table.urls config Instance.Visit.lib

theorem checks : ∀ app ∈ [Nginx.Table.row], Schema.ApplicationChecks (· == ' ') app := by
  intro app member
  rw [List.mem_singleton.mp member]
  decide +kernel

theorem noKeys : (([] : List EntitlementRow).map (·.id)).Nodup :=
  .nil

theorem noUnique : (([] : List EntitlementRow).map uniqueColumns).Nodup :=
  .nil

/-- The tables with the one application. -/
def stored : Rows where
  applications := [Nginx.Table.row]
  entitlements := []
  applicationChecks := checks
  applicationKey := List.nodup_singleton _
  slugUnique := List.nodup_singleton _
  hostnameUnique := List.nodup_singleton _
  entitlementKey := noKeys
  entitlementUnique := noUnique
  references := fun _ member => nomatch member

/-- An allow for the user on the application. -/
def useWiki : EntitlementRow :=
  { Miss.allowUser with id := 2 }

/-- The tables with its entitlement as well. -/
def entitled : Rows :=
  { stored with
    entitlements := [useWiki]
    entitlementKey := List.nodup_singleton _
    entitlementUnique := List.nodup_singleton _
    references := by
      intro row member id named
      rw [List.mem_singleton.mp member] at named
      rw [← Option.some.inj named]
      exact List.mem_cons_self }

/-- A step is told by the rows that it leaves. -/
theorem exec_of_rows {start last : Rows} {label : Request × Outside}
    (applications : (serve Nginx.Table.urls config start Instance.Visit.lib label.1
      label.2).tables.applications = last.applications)
    (entitlements : (serve Nginx.Table.urls config start Instance.Visit.lib label.1
      label.2).tables.entitlements = last.entitlements) :
    ∃ trace, exec stepWiki start [label] = some (last, trace) := by
  have same := Tables.ext applications entitlements
  exact ⟨_, exec_cons (congrArg (fun tables => some (tables, _)) same) rfl⟩

theorem created : ∃ trace, exec stepWiki Tables.empty [create] = some (stored, trace) :=
  exec_of_rows (by decide +kernel) (by decide +kernel)

theorem granted : ∃ trace, exec stepWiki stored [grant] = some (entitled, trace) :=
  exec_of_rows (by decide +kernel) (by decide +kernel)

/-- The runs of the console. -/
abbrev RunWiki : Rows → List Commit → Rows → Prop :=
  Run stepWiki fun _ _ => True

theorem run_created : ∃ trace, RunWiki Tables.empty trace stored := by
  obtain ⟨trace, done⟩ := created
  exact ⟨trace, .of_exec (fun _ _ _ => trivial) done⟩

theorem run_granted : ∃ trace, RunWiki stored trace entitled := by
  obtain ⟨trace, done⟩ := granted
  exact ⟨trace, .of_exec (fun _ _ _ => trivial) done⟩

end Console

end OpenBerat.Manage
