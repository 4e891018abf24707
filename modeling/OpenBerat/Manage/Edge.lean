/-
**From a host to an upstream.**

nginx takes the block whose name is the host, asks for a decision on the slug that is written in it,
and passes the request to the upstream that is written in it. The file is rendered from some table,
the decision taken from the one that is current.

* `routed`: on one table, a request reaches the upstream of the enabled application of that
  hostname, and exactly where this application's own rules allow it.
* `kept_or_reused`: what becomes of a row.
* `stale_block`: on two tables, an older one behind nginx.
* `administered`: who changes the tables, behind nginx.
-/

import OpenBerat.Manage.Effects
import OpenBerat.Nginx.Headers

namespace OpenBerat.Manage

open Lib (Plan Run)
open Lib.Conf (Directive)
open Nginx (Application Served Stored Target)
open Validate (UrlParser)

/-! ### One request -/

/-- The name of a block, as nginx keeps it. -/
def serverName (server : Directive) : Option Str :=
  (Nginx.argument ["server_name".toList] server).map makeAsciiLowercase

/-- The block for a host, which comes in lower case and without its port. Of two blocks of one name
the first one counts. -/
def serverFor (servers : List Directive) (host : Str) : Option Directive :=
  servers.find? fun server => serverName server == some host

theorem serverFor_eq_some {servers : List Directive} {host : Str} {server : Directive}
    (chosen : serverFor servers host = some server) :
    server ∈ servers ∧ serverName server = some host :=
  have passes := List.find?_some chosen
  ⟨List.mem_of_find?_eq_some chosen, beq_iff_eq.mp passes⟩

/-- Where a block sends a request. `protected.inc` is what makes it ask, and what it asks about is
the slug that the block sets. -/
def admits (decision : Str → Decision) (server : Directive) : Option Served :=
  if Nginx.Includes server "/etc/nginx/conf.d/protected.inc" then
    (Nginx.argument ["set".toList, "$app_slug".toList] server).bind fun slug =>
      if decision slug = .allow then Nginx.served server else none
  else Nginx.served server

/-- Where a request goes, if it is let through. -/
def passes (servers : List Directive) (decision : Str → Decision) (host : Str) : Option Served :=
  (serverFor servers host).bind (admits decision)

theorem admits_apps {target : Target}
    (scheme : target.scheme = "http".toList ∨ target.scheme = "https".toList)
    (decision : Str → Decision) : admits decision (Nginx.appsServer target) =
      if decision target.app.slug = .allow then some target.served else none := by
  unfold admits
  rw [if_pos (Nginx.includes_apps target).1, ← Nginx.served_apps scheme]
  rfl

section Edge

variable {space : Char → Bool} {urls : UrlParser} {config : Config} {lib : Libraries}
  {tables old : Tables space} {allowed : Tables space → Request × Outside → Prop}
  {trace : List Commit}

/-- A stored hostname is in lower case. -/
theorem lower_of_stored {portalOrigin : Str} {app : Application}
    (stored : Stored urls portalOrigin app) :
    makeAsciiLowercase app.externalHostname = app.externalHostname := by
  induction stored with
  | created created =>
    unfold Nginx.createApplication at created
    simp only [Validate.bind_eq_ok] at created
    obtain ⟨_, _, _, _, hostname, host, _, _, _, _, same⟩ := created
    cases same
    obtain ⟨rfl, _⟩ := Validate.validateHostname_eq_ok.mp host
    exact Policy.makeAsciiLowercase_idem _
  | updated _ updated ih =>
    unfold Nginx.updateApplication at updated
    simp only [Validate.bind_eq_ok] at updated
    obtain ⟨_, _, _, _, _, _, same⟩ := updated
    cases same
    exact ih

/-- The block of a target answers to the hostname of its row alone. -/
theorem serverName_apps {target : Target} {portalOrigin : Str}
    (stored : Stored urls portalOrigin target.app) :
    serverName (Nginx.appsServer target) = some target.app.externalHostname :=
  congrArg some (lower_of_stored stored)

/-- **What one table lets through**, the decision aside. -/
theorem passes_eq_some (shown : urls.ShowsHosts) (sane : Sane urls config old)
    {servers : List Directive}
    (read : Lib.Conf.read (Nginx.renderAppsConf urls old.applications config.portalOrigin) =
      some servers)
    {decision : Str → Decision} {host : Str} {upstream : Served} :
    passes servers decision host = some upstream ↔
      ∃ target : Target, target.app ∈ old.applications ∧ target.app.enabled = true ∧
        Nginx.targetOf urls config.portalOrigin target.app = some target ∧
        target.app.externalHostname = host ∧ upstream = target.served ∧
        decision target.app.slug = .allow := by
  obtain ⟨targets, rows, normal, _, distinct, found, _⟩ := published_exactly shown sane
  obtain rfl := Option.some.inj (read.symm.trans normal)
  have listed : ∀ target ∈ targets, target.app ∈ old.applications ∧ target.app.enabled = true := by
    intro target member
    have inside : target.app ∈ targets.map (·.app) := List.mem_map_of_mem member
    rw [rows] at inside
    exact List.mem_filter.mp inside
  have named : ∀ target ∈ targets,
      serverName (Nginx.appsServer target) = some target.app.externalHostname :=
    fun target member => serverName_apps (sane.applications _ (listed target member).1)
  have asks : ∀ target ∈ targets, admits decision (Nginx.appsServer target) =
      if decision target.app.slug = .allow then some target.served else none := by
    intro target member
    obtain ⟨stored, url, accepted, parsed, _, _, _, scheme⟩ :=
      Nginx.targetOf_eq_some.mp (found target member)
    obtain ⟨other, _, again, schemes, _, _⟩ :=
      Validate.validateUpstream_eq_ok (Nginx.validateRow_eq_ok.mp accepted).2.1
    obtain rfl := Option.some.inj (parsed.symm.trans again)
    exact admits_apps (scheme ▸ schemes) decision
  unfold passes
  rw [Option.bind_eq_some_iff]
  constructor
  · rintro ⟨server, chosen, admitted⟩
    obtain ⟨inside, name⟩ := serverFor_eq_some chosen
    obtain ⟨target, member, rfl⟩ := List.mem_map.mp inside
    rw [named target member] at name
    rw [asks target member, Option.ite_none_right_eq_some] at admitted
    exact ⟨target, (listed target member).1, (listed target member).2, found target member,
      Option.some.inj name, (Option.some.inj admitted.2).symm, admitted.1⟩
  · rintro ⟨target, stored, enabled, own, rfl, rfl, allows⟩
    have inside : target.app ∈ targets.map (·.app) := by
      rw [rows]
      exact List.mem_filter.mpr ⟨stored, enabled⟩
    obtain ⟨other, member, same⟩ := List.mem_map.mp inside
    have equal : other = target :=
      Option.some.inj ((found other member).symm.trans ((congrArg _ same).trans own))
    subst equal
    refine ⟨Nginx.appsServer other, ?_, (asks other member).trans (if_pos allows)⟩
    cases chosen : serverFor (targets.map Nginx.appsServer) other.app.externalHostname with
    | none =>
      have refused := List.find?_eq_none.mp chosen _ (List.mem_map_of_mem member)
      exact absurd (beq_iff_eq.mpr (named other member)) refused
    | some server =>
      obtain ⟨inside, name⟩ := serverFor_eq_some chosen
      obtain ⟨first, listed, rfl⟩ := List.mem_map.mp inside
      rw [named first listed] at name
      rw [List.inj_on_of_nodup_map distinct listed member (Option.some.inj name)]

variable {http : HeaderText} {plan : Plan EntitlementRow} {identity : Identity} {uri : Str}
  {now : DateTime}

/-- **On one table** a request reaches an upstream exactly where the application of this very host
is enabled and its rules allow it. -/
theorem routed (lib : Libraries) (shown : urls.ShowsHosts)
    (run : Run (step urls config lib) allowed Tables.empty trace tables) :
    ∃ servers, Lib.Conf.read (Nginx.renderAppsConf urls tables.applications config.portalOrigin) =
        some servers ∧
      ∀ host upstream,
        passes servers (fun slug => missDecision http tables.db plan slug identity uri now) host =
            some upstream ↔
          ∃ target : Target, target.app ∈ tables.applications ∧ target.app.enabled = true ∧
            Nginx.targetOf urls config.portalOrigin target.app = some target ∧
            target.app.externalHostname = host ∧ upstream = target.served ∧
            Policy.decide true (tables.rules target.app.id (http.text identity.sub)
              (groupsOf http identity)) uri now = .allow := by
  have sane := sane_of_run sane_empty run
  obtain ⟨read, _⟩ := Nginx.conf_reads shown tables.applications config.portalOrigin
  refine ⟨_, read, fun host upstream => (passes_eq_some shown sane read).trans ?_⟩
  refine exists_congr fun target => and_congr_right fun stored => and_congr_right fun enabled => ?_
  rw [Tables.decision_stored stored, enabled]

/-! ### An older table behind nginx -/

/-- The row has been deleted, and its slug has been given out again since. -/
def Reused (app : Application) (trace : List Commit) : Prop :=
  ∃ first deletion second creation third,
    trace = first ++ deletion :: (second ++ creation :: third) ∧
    deletion.change = .deleted app.id ∧ ∃ other : Application, creation.change = .created other ∧
      other.slug = app.slug

theorem Reused.append {app : Application} (reused : Reused app trace) (more : List Commit) :
    Reused app (trace ++ more) := by
  obtain ⟨first, deletion, second, creation, third, rfl, deleted, created⟩ := reused
  refine ⟨first, deletion, second, creation, third ++ more, ?_, deleted, created⟩
  simp only [List.append_assoc, List.cons_append]

/-- The row under its id, with the columns that no patch touches. -/
def Keeps (tables : Tables space) (app : Application) : Prop :=
  ∃ later ∈ tables.applications, later.id = app.id ∧ later.slug = app.slug ∧
    later.externalHostname = app.externalHostname

/-- Deleted, and its slug free or reused. -/
def Gone (tables : Tables space) (app : Application) (trace : List Commit) : Prop :=
  (∃ commit ∈ trace, commit.change = .deleted app.id) ∧
    ∀ later ∈ tables.applications, later.slug = app.slug → Reused app trace

variable {app : Application} {next : Tables space} {portalOrigin : Str}

theorem keeps_applied {commit : Commit} (keeps : Keeps tables app)
    (applied : Applied urls portalOrigin tables next commit.change) :
    Keeps next app ∨ Gone next app (trace ++ [commit]) := by
  obtain ⟨later, stored, id, slug, hostname⟩ := keeps
  by_cases drops : commit.change.drops later
  · cases made : commit.change with
    | updated new =>
      rw [made] at applied drops
      have whole := applied
      obtain ⟨⟨old, member, _, key, label, name⟩, _, _⟩ := whole
      obtain rfl : old = later :=
        List.inj_on_of_nodup_map tables.applicationKey member stored (key.symm.trans drops)
      exact Or.inl ⟨new, (applied.applications new).mpr (Or.inl rfl), key.trans id,
        label.trans slug, name.trans hostname⟩
    | deleted gone =>
      rw [made] at applied drops
      obtain rfl : later.id = gone := drops
      refine Or.inr ⟨⟨commit, List.mem_append_right _ List.mem_cons_self, by rw [made, id]⟩, ?_⟩
      intro other member same
      obtain ⟨_, rfl⟩ := applied
      obtain ⟨here, differs⟩ := Tables.mem_deleteApplication.mp member
      rw [List.inj_on_of_nodup_map tables.slugUnique here stored (same.trans slug.symm)] at differs
      exact absurd rfl differs
    | _ =>
      rw [made] at drops
      cases drops
  · exact Or.inl ⟨later, (applied.applications later).mpr (Or.inr ⟨stored, drops⟩), id, slug,
      hostname⟩

theorem gone_applied {commit : Commit} (gone : Gone tables app trace)
    (applied : Applied urls portalOrigin tables next commit.change) :
    Gone next app (trace ++ [commit]) := by
  obtain ⟨⟨deletion, member, deleted⟩, reused⟩ := gone
  refine ⟨⟨deletion, List.mem_append_left _ member, deleted⟩, fun later listed same => ?_⟩
  rcases (applied.applications later).mp listed with put | ⟨stored, _⟩
  · cases made : commit.change with
    | created new =>
      rw [made] at put
      obtain rfl : new = later := put
      obtain ⟨first, second, rfl⟩ := List.append_of_mem member
      refine ⟨first, deletion, second, commit, [], ?_, deleted, new, made, same⟩
      rw [List.append_assoc, List.cons_append]
    | updated new =>
      rw [made] at put applied
      obtain rfl : new = later := put
      obtain ⟨⟨old, stored, _, _, label, _⟩, _, _⟩ := applied
      exact (reused old stored (label.symm.trans same)).append _
    | _ =>
      rw [made] at put
      cases put
  · exact (reused later stored same).append _

/-- **What becomes of a row**: it keeps its slug and its hostname until it is deleted. -/
theorem kept_or_reused (stored : app ∈ old.applications)
    (run : Run (step urls config lib) allowed old trace tables) :
    Keeps tables app ∨ Gone tables app trace := by
  refine @Run.invariant _ _ _ _ _ _ (fun trace tables => Keeps tables app ∨ Gone tables app trace)
    (Or.inl ⟨app, stored, rfl, rfl, rfl⟩) ?_ _ _ run
  intro trace tables label next out before _ stepped
  rcases applied_of_step stepped with ⟨rfl, rfl⟩ | ⟨commit, rfl, _, applied⟩
  · rw [List.append_nil]
    exact before
  · rcases before with keeps | gone
    · exact keeps_applied keeps applied
    · exact Or.inr (gone_applied gone applied)

/-- **An older table behind nginx.** A request that is let through reaches the upstream of the row
that was rendered, on the say of the rules that this row has now; or the row has been deleted and an
administrator has given its slug to another one. -/
theorem stale_block (lib : Libraries) (shown : urls.ShowsHosts) {past : List Commit}
    (before : Run (step urls config lib) allowed Tables.empty past old)
    (since : Run (step urls config lib) allowed old trace tables) {servers : List Directive}
    (read : Lib.Conf.read (Nginx.renderAppsConf urls old.applications config.portalOrigin) =
      some servers)
    {host : Str} {upstream : Served}
    (through : passes servers (fun slug => missDecision http tables.db plan slug identity uri now)
      host = some upstream) :
    ∃ target : Target, target.app ∈ old.applications ∧ target.app.enabled = true ∧
      target.app.externalHostname = host ∧ upstream = target.served ∧
      ((∃ app ∈ tables.applications, app.id = target.app.id ∧ app.externalHostname = host ∧
          app.enabled = true ∧ Policy.decide true (tables.rules app.id (http.text identity.sub)
            (groupsOf http identity)) uri now = .allow) ∨
        Reused target.app trace) := by
  have sane := sane_of_run sane_empty before
  obtain ⟨target, stored, enabled, _, rfl, rfl, allows⟩ :=
    (passes_eq_some shown sane read).mp through
  refine ⟨target, stored, enabled, rfl, rfl, ?_⟩
  obtain ⟨app, member, same, on, decided⟩ := stored_of_allowed allows
  rcases kept_or_reused stored since with ⟨later, here, id, slug, hostname⟩ | ⟨_, reused⟩
  · obtain rfl : later = app :=
      List.inj_on_of_nodup_map tables.slugUnique here member (slug.trans same.symm)
    exact Or.inl ⟨later, here, id, hostname, on, decided⟩
  · exact Or.inr (reused app member same)

/-! ### The console behind nginx -/

/-- `auth_request_set` in `location /api/`: the fields of oauth2-proxy's answer. -/
def withVerified (answer : Headers) (env : Str → HeaderValue) : Str → HeaderValue := fun name =>
  if name = "auth_subject".toList then (answer "x-auth-request-user".toList).getD []
  else if name = "auth_username".toList then
    (answer "x-auth-request-preferred-username".toList).getD []
  else if name = "auth_email".toList then (answer "x-auth-request-email".toList).getD []
  else if name = "auth_groups".toList then (answer "x-auth-request-groups".toList).getD []
  else env name

/-- The headers of a request that has come through `location /api/`. -/
def apiHeaders (answer : Headers) (env : Str → HeaderValue) (client : List Nginx.Field) : Headers :=
  Nginx.view (Nginx.proxied Nginx.portalApi (withVerified answer env) client)

/-- Requests come in through nginx, on an answer of oauth2-proxy's. -/
def Relayed (_ : Tables space) (label : Request × Outside) : Prop :=
  ∃ answer env client, label.1.headers = apiHeaders answer env client

variable (lib config) in
/-- oauth2-proxy has named the user and put the administrators among the groups, and the client has
sent the portal's origin. -/
def Verified (request : Request) : Prop :=
  ∃ answer env client, request.headers = apiHeaders answer env client ∧
    (answer "x-auth-request-user".toList).getD [] ≠ [] ∧
    Reset.inGroup (groupNames (lib.http.text ((answer "x-auth-request-groups".toList).getD [])))
      config.adminGroup = true ∧
    ((Lib.valuesOf makeAsciiLowercase client "origin".toList).head?).bind lib.http.toStr =
      some config.portalOrigin

/-- The caller behind nginx is the one oauth2-proxy has named. -/
theorem caller_through {answer : Headers} {env : Str → HeaderValue} {client : List Nginx.Field}
    {caller : Caller} (named : Caller.ofHeaders http (apiHeaders answer env client) = some caller) :
    (answer "x-auth-request-user".toList).getD [] ≠ [] ∧
      caller.groups = groupNames (http.text ((answer "x-auth-request-groups".toList).getD [])) := by
  have listed : Nginx.portalApi ∈ Nginx.includes := by
    simp [Nginx.includes]
  have lines : ("X-Auth-Subject".toList, "$auth_subject".toList) ∈ Nginx.portalApi ∧
      ("X-Auth-Groups".toList, "$auth_groups".toList) ∈ Nginx.portalApi := by
    decide +kernel
  have subject : ((apiHeaders answer env client "x-auth-subject".toList).bind http.toStr).getD [] =
      http.text ((answer "x-auth-request-user".toList).getD []) :=
    (congrArg (fun value : Option HeaderValue => (value.bind http.toStr).getD [])
      (Nginx.view_of_line listed lines.1 (withVerified answer env) client)).trans
        (Nginx.text_sent http (withVerified answer env) _)
  have groups : ((apiHeaders answer env client "x-auth-groups".toList).bind http.toStr).getD [] =
      http.text ((answer "x-auth-request-groups".toList).getD []) :=
    (congrArg (fun value : Option HeaderValue => (value.bind http.toStr).getD [])
      (Nginx.view_of_line listed lines.2 (withVerified answer env) client)).trans
        (Nginx.text_sent http (withVerified answer env) _)
  unfold Caller.ofHeaders at named
  dsimp only at named
  split_ifs at named with filled
  obtain rfl := Option.some.inj named
  refine ⟨fun empty => filled ?_, congrArg groupNames groups⟩
  rw [subject, empty]
  exact http.text_asBytes []

theorem verified_of_administers {request : Request} {outside : Outside}
    (relayed : Relayed tables (request, outside))
    (manages : administers config lib request = true) :
    Verified config lib request := by
  obtain ⟨answer, env, client, through⟩ := relayed
  have free : "origin".toList ∉ Nginx.portalApi.map fun line => makeAsciiLowercase line.1 := by
    decide +kernel
  unfold administers at manages
  rw [show request.headers = apiHeaders answer env client from through] at manages
  simp only [Bool.and_eq_true] at manages
  obtain ⟨⟨_, portal⟩, manager⟩ := manages
  obtain ⟨caller, named, member⟩ := (Option.any_eq_true _ _).mp manager
  obtain ⟨user, groups⟩ := caller_through named
  rw [groups] at member
  refine ⟨answer, env, client, through, user, member, ?_⟩
  rw [← Nginx.view_other (by decide) free (withVerified answer env) client]
  exact of_decide_eq_true portal

end Edge

/-! ### A request for the application -/

namespace Console

/-- The upstream of the row. -/
def target : Target := ⟨Nginx.Table.row, "wiki".toList, 8080, "http".toList⟩

/-- The hostname of the row, as nginx has it. -/
def host : Str := "wiki.apps.example.local".toList

theorem target_row : Nginx.targetOf Nginx.Table.urls config.portalOrigin Nginx.Table.row =
    some target := by
  decide +kernel

theorem decided :
    Policy.decide true (entitled.rules Nginx.Table.row.id (HeaderText.documented.text user.sub)
    (groupsOf .documented user)) ['/'] 0 = .allow := by
  decide +kernel

end Console

open Console in
theorem routed_wiki : ∃ trace, RunWiki Tables.empty trace entitled ∧ ∃ servers,
    Lib.Conf.read
      (Nginx.renderAppsConf Nginx.Table.urls entitled.applications config.portalOrigin) =
      some servers ∧
    passes servers (fun slug => missDecision .documented entitled.db (.table _) slug user ['/'] 0)
      host = some target.served := by
  obtain ⟨first, before⟩ := run_created
  obtain ⟨second, after⟩ := run_granted
  obtain ⟨servers, read, reached⟩ :=
    routed _ Nginx.Table.shown (before.trans after)
  exact ⟨first ++ second, before.trans after, servers, read, (reached _ _).mpr
    ⟨target, List.mem_cons_self, rfl, target_row, rfl, rfl, decided⟩⟩

open Console in
/-- Granted since the file was rendered. -/
theorem stale_block_wiki : ∃ trace servers, RunWiki stored trace entitled ∧
    Lib.Conf.read (Nginx.renderAppsConf Nginx.Table.urls stored.applications config.portalOrigin) =
      some servers ∧
    ∃ target : Target, target.app ∈ stored.applications ∧ target.app.enabled = true ∧
      target.app.externalHostname = host ∧ Console.target.served = target.served ∧
      ((∃ app ∈ entitled.applications, app.id = target.app.id ∧ app.externalHostname = host ∧
          app.enabled = true ∧ Policy.decide true (entitled.rules app.id
            (HeaderText.documented.text user.sub) (groupsOf .documented user)) ['/'] 0 = .allow) ∨
        Reused target.app trace) := by
  obtain ⟨first, before⟩ := run_created
  obtain ⟨second, after⟩ := run_granted
  obtain ⟨read, _⟩ := Nginx.conf_reads Nginx.Table.shown stored.applications config.portalOrigin
  have through :
    passes _ (fun slug => missDecision .documented entitled.db (.table _) slug user ['/'] 0)
      host = some target.served :=
    (passes_eq_some Nginx.Table.shown (sane_of_run sane_empty before) read).mpr
      ⟨target, List.mem_cons_self, rfl, target_row, rfl, rfl, allows⟩
  exact ⟨second, _, after, read, stale_block _ Nginx.Table.shown before after read through⟩

namespace Console

/-- oauth2-proxy knows the user as an administrator. -/
def answer : Headers := fun name =>
  if name = "x-auth-request-user".toList then some (asBytes "u0".toList)
  else if name = "x-auth-request-groups".toList then some (asBytes "admins".toList)
  else none

/-- The variables of a request with a session cookie. -/
def env : Str → HeaderValue := fun name =>
  if name = "http_cookie".toList then asBytes ("_oauth2_proxy=".toList ++ Instance.Visit.value)
    else []

/-- What a client sends that claims groups of its own. -/
def client : List Nginx.Field :=
  [("Origin".toList, asBytes Nginx.Table.portal), ("x-auth-groups".toList, asBytes "guests".toList)]

/-- The same request, through nginx. -/
def relayed : Request × Outside :=
  ({ create.1 with headers := apiHeaders answer env client }, create.2)

end Console

end OpenBerat.Manage
