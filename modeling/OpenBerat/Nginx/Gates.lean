/-
**The gate rows come in through, and the gate blocks go out through.**

A row is stored by `create_application` and changed by any number of patches; the generator checks
it again and skips what does not pass. Under one portal origin nothing the first gate lets in is
skipped by the second, and both files serve the same list.

* `stored_accepted`: what every stored row keeps.
* `served_apps`, `served_breakglass`: where a block sends its requests.
* `one_list`: the two files.
-/

import OpenBerat.Nginx.Render
import OpenBerat.Policy.Place

namespace OpenBerat.Nginx

open Lib.Conf (Directive)
open Validate (UrlParser)

/-! ### The API -/

/-- The body of `POST /api/admin/applications`. -/
structure NewApplication where
  slug : Str
  name : Str
  icon : Option Str
  upstreamUrl : Str
  externalHostname : Str
  enabled : Bool

/-- A patch. An icon that is there may still be `null`. -/
structure ApplicationPatch where
  name : Option Str
  icon : Option (Option Str)
  upstreamUrl : Option Str
  enabled : Option Bool

section Gate

variable (urls : UrlParser)

/-- `create_application` up to the row it inserts, under an id of the database's choice. -/
def createApplication (portalOrigin : Str) (id : Uuid) (new : NewApplication) :
    Except Str Application := do
  Validate.validateSlug new.slug
  Validate.validateUpstream urls new.upstreamUrl
  let hostname ← Validate.validateHostname urls new.externalHostname portalOrigin
  let name ← Validate.validateName new.name
  let icon ← Validate.validateIcon new.icon
  return ⟨id, new.slug, name, icon, new.upstreamUrl, hostname, new.enabled⟩

/-- A check of a field that may be absent. -/
def optional {α β : Type} (check : α → Except Str β) : Option α → Except Str (Option β)
  | none => .ok none
  | some value => (check value).map some

/-- `update_application` on the row it updates. -/
def updateApplication (patch : ApplicationPatch) (app : Application) : Except Str Application := do
  let _ ← optional (Validate.validateUpstream urls) patch.upstreamUrl
  let name ← optional Validate.validateName patch.name
  let icon ← optional Validate.validateIcon patch.icon
  return { app with
    name := name.getD app.name
    icon := icon.getD app.icon
    upstreamUrl := patch.upstreamUrl.getD app.upstreamUrl
    enabled := patch.enabled.getD app.enabled }

/-- Accepted once, and changed by accepted patches since. -/
inductive Stored (portalOrigin : Str) : Application → Prop
  | created {id : Uuid} {new : NewApplication} {app : Application} :
      createApplication urls portalOrigin id new = .ok app → Stored portalOrigin app
  | updated {patch : ApplicationPatch} {app next : Application} : Stored portalOrigin app →
      updateApplication urls patch app = .ok next → Stored portalOrigin next

end Gate

section Rows

variable {urls : UrlParser} {portalOrigin : Str} {app next : Application}

/-- What the generator asks of a row. -/
def Accepted (urls : UrlParser) (portalOrigin : Str) (app : Application) : Prop :=
  ∃ stored, validateRow urls app portalOrigin = .ok stored

theorem optional_eq_ok {α β : Type} {check : α → Except Str β} {field : Option α}
    {result : Option β}
    (passed : optional check field = .ok result) {value : α} (present : field = some value) :
    ∃ checked, check value = .ok checked := by
  subst present
  unfold optional at passed
  dsimp only at passed
  cases checked : check value with
  | error why =>
    rw [checked] at passed
    cases passed
  | ok outcome => exact ⟨outcome, rfl⟩

theorem accepted_created {id : Uuid} {new : NewApplication}
    (created : createApplication urls portalOrigin id new = .ok app) :
    Accepted urls portalOrigin app := by
  unfold createApplication at created
  simp only [Validate.bind_eq_ok] at created
  obtain ⟨_, slug, _, upstream, hostname, host, name, _, icon, _, same⟩ := created
  cases same
  obtain ⟨rfl, labels, free, different⟩ := Validate.validateHostname_eq_ok.mp host
  -- The stored hostname is lower-cased, and so its own lower-cased copy.
  have again : Validate.validateHostname urls
    (makeAsciiLowercase new.externalHostname) portalOrigin =
      .ok (makeAsciiLowercase new.externalHostname) :=
    Validate.validateHostname_eq_ok.mpr
      ⟨(Policy.makeAsciiLowercase_idem _).symm, labels, free, different⟩
  exact ⟨_, validateRow_eq_ok.mpr ⟨Validate.validateSlug_eq_ok.mp slug, upstream, again⟩⟩

theorem accepted_updated {patch : ApplicationPatch} (accepted : Accepted urls portalOrigin app)
    (updated : updateApplication urls patch app = .ok next) : Accepted urls portalOrigin next := by
  unfold updateApplication at updated
  simp only [Validate.bind_eq_ok] at updated
  obtain ⟨_, checked, name, _, icon, _, same⟩ := updated
  cases same
  obtain ⟨stored, passed⟩ := accepted
  obtain ⟨slug, upstream, hostname⟩ := validateRow_eq_ok.mp passed
  refine ⟨stored, validateRow_eq_ok.mpr ⟨slug, ?_, hostname⟩⟩
  show Validate.validateUpstream urls (patch.upstreamUrl.getD app.upstreamUrl) = .ok ()
  cases present : patch.upstreamUrl with
  | none => exact upstream
  | some url =>
    obtain ⟨_, good⟩ := optional_eq_ok checked present
    exact good

/-- **Every stored row** passes the generator's checks. -/
theorem stored_accepted (stored : Stored urls portalOrigin app) :
    Accepted urls portalOrigin app := by
  induction stored with
  | created created => exact accepted_created created
  | updated _ updated ih => exact accepted_updated ih updated

/-- An accepted row has a host and a port. -/
theorem target_of_accepted (shown : urls.ShowsHosts) (accepted : Accepted urls portalOrigin app) :
    ∃ target, targetOf urls portalOrigin app = some target ∧ target.app = app := by
  obtain ⟨stored, passed⟩ := accepted
  obtain ⟨_, upstream, _⟩ := validateRow_eq_ok.mp passed
  obtain ⟨url, host, parsed, scheme, named, _⟩ := Validate.validateUpstream_eq_ok upstream
  have shows := shown _ _ parsed scheme
  unfold Validate.Url.ShowsHost at shows
  rw [named] at shows
  have text : ∃ text, url.hostStr = some text := by
    cases host with
    | domain name => exact ⟨_, shows⟩
    | ipv4 ip => exact ⟨_, shows⟩
    | ipv6 ip =>
      obtain ⟨inner, same, _⟩ := shows
      exact ⟨_, same⟩
  obtain ⟨text, shape⟩ := text
  have known : ∃ port, url.portOrKnownDefault = some port := by
    unfold Validate.Url.portOrKnownDefault
    cases url.port with
    | some port => exact ⟨port, rfl⟩
    | none =>
      rcases scheme with same | same
      · exact ⟨80, by rw [same]; decide +kernel⟩
      · exact ⟨443, by rw [same]; decide +kernel⟩
  obtain ⟨port, known⟩ := known
  exact ⟨⟨app, text, port, url.scheme⟩,
    targetOf_eq_some.mpr ⟨stored, url, passed, parsed, shape, known, rfl, rfl⟩, rfl⟩

/-! ### What a block serves -/

/-- The directives of a block and of the blocks in it. -/
def lines (server : Directive) : List (List Str) :=
  server.items.filterMap fun item =>
    match item with
    | .simple words => some words
    | _ => none

/-- The argument behind these words. -/
def argument (words : List Str) (server : Directive) : Option Str :=
  (lines server).findSome? fun line => if line.dropLast = words then line.getLast? else none

/-- What a block serves: a hostname, and the upstream behind it. -/
structure Served where
  hostname : Str
  host : Str
  port : Str
  scheme : Str
  deriving DecidableEq

/-- The name a block answers to, and where its requests go. -/
def served (server : Directive) : Option Served := do
  let hostname ← argument ["server_name".toList] server
  let host ← argument ["set".toList, "$upstream".toList] server
  let pass ← argument ["proxy_pass".toList] server
  some ⟨hostname, host, pass.rtakeWhile (· != ':'), pass.takeWhile (· != ':')⟩

/-- A block includes a file. -/
def Includes (server : Directive) (path : String) : Prop :=
  ["include".toList, path.toList] ∈ lines server

instance (server : Directive) (path : String) : Decidable (Includes server path) :=
  inferInstanceAs (Decidable (_ ∈ _))

/-- What a target is served as. -/
def Target.served (target : Target) : Served :=
  ⟨target.app.externalHostname, target.host, portText target.port, target.scheme⟩

/-- The scheme and the port of a `proxy_pass`. -/
theorem pass_parts {target : Target}
    (scheme : target.scheme = "http".toList ∨ target.scheme = "https".toList) :
    (proxyPass target).takeWhile (· != ':') = target.scheme ∧
      (proxyPass target).rtakeWhile (· != ':') = portText target.port := by
  have shape : proxyPass target =
      (target.scheme ++ ':' :: "//$upstream".toList) ++ ':' :: portText target.port := by
    have separator : "://$upstream:".toList = ':' :: ("//$upstream".toList ++ [':']) := by
      decide +kernel
    unfold proxyPass
    rw [separator]
    simp only [List.append_assoc, List.cons_append, List.nil_append]
  have noColon : ∀ char ∈ target.scheme, (char != ':') = true := by
    have checked : ("http".toList.all (· != ':') && "https".toList.all (· != ':')) = true := by
      decide +kernel
    rw [Bool.and_eq_true, List.all_eq_true, List.all_eq_true] at checked
    rcases scheme with same | same
    · exact same ▸ checked.1
    · exact same ▸ checked.2
  have digits : ∀ char ∈ (portText target.port).reverse, (char != ':') = true := by
    intro char member
    refine bne_iff_ne.mpr ?_
    rintro rfl
    exact absurd (Nat.isDigit_of_mem_toDigits (by decide) (by decide) (List.mem_reverse.mp member))
      (by decide)
  rw [shape]
  constructor
  · rw [List.append_assoc, List.takeWhile_append_of_pos noColon, List.cons_append,
      List.takeWhile_cons_of_neg (by decide), List.append_nil]
  · unfold List.rtakeWhile
    rw [List.reverse_append, List.reverse_cons, List.append_assoc, List.singleton_append,
      List.takeWhile_append_of_pos digits, List.takeWhile_cons_of_neg (by decide), List.append_nil,
      List.reverse_reverse]

/-- A block that names a target and passes to it. -/
theorem served_of_read {server : Directive} {target : Target}
    (read : served server = some ⟨target.app.externalHostname, target.host,
      (proxyPass target).rtakeWhile (· != ':'), (proxyPass target).takeWhile (· != ':')⟩)
    (scheme : target.scheme = "http".toList ∨ target.scheme = "https".toList) :
    served server = some target.served := by
  have parts := pass_parts scheme
  rw [read, parts.1, parts.2]
  rfl

/-- **Where a normal block sends its requests.** -/
theorem served_apps {target : Target}
    (scheme : target.scheme = "http".toList ∨ target.scheme = "https".toList) :
    served (appsServer target) = some target.served :=
  served_of_read rfl scheme

/-- **Where a break-glass block does.** -/
theorem served_breakglass {target : Target}
    (scheme : target.scheme = "http".toList ∨ target.scheme = "https".toList) :
    served (breakglassServer target) = some target.served :=
  served_of_read rfl scheme

theorem scheme_of_renderable {applications : List Application} {target : Target}
    (member : target ∈ renderable urls applications portalOrigin) :
    target.scheme = "http".toList ∨ target.scheme = "https".toList := by
  obtain ⟨app, _, _, found⟩ := mem_renderable.mp member
  obtain ⟨stored, url, accepted, parsed, _, _, _, same⟩ := targetOf_eq_some.mp found
  obtain ⟨other, _, again, scheme, _, _⟩ :=
    Validate.validateUpstream_eq_ok (validateRow_eq_ok.mp accepted).2.1
  obtain rfl := Option.some.inj (parsed.symm.trans again)
  rw [same]
  exact scheme

/-- The include lines of a block decide what it includes. -/
theorem includes_iff {server : Directive} {included : List (List Str)} {path : String}
    (only : (lines server).filter (·.head? = some "include".toList) = included) :
    Includes server path ↔ ["include".toList, path.toList] ∈ included := by
  unfold Includes
  rw [← only, List.mem_filter]
  exact ⟨fun member => ⟨member, decide_eq_true rfl⟩, And.left⟩

theorem includes_apps (target : Target) :
    Includes (appsServer target) "/etc/nginx/conf.d/protected.inc" ∧
      Includes (appsServer target) "/etc/nginx/conf.d/decide.inc" := by
  have only : (lines (appsServer target)).filter (·.head? = some "include".toList) =
      ["errors", "decide", "protected"].map fun name =>
        ["include".toList, ("/etc/nginx/conf.d/" ++ name ++ ".inc").toList] := rfl
  rw [includes_iff only, includes_iff only]
  decide +kernel

theorem includes_breakglass (target : Target) :
    ¬ Includes (breakglassServer target) "/etc/nginx/conf.d/protected.inc" ∧
      ¬ Includes (breakglassServer target) "/etc/nginx/conf.d/decide.inc" ∧
      Includes (breakglassServer target) "/etc/nginx/breakglass/upstream.inc" := by
  have only : (lines (breakglassServer target)).filter (·.head? = some "include".toList) =
      [["include".toList, "/etc/nginx/breakglass/upstream.inc".toList]] := rfl
  rw [includes_iff only, includes_iff only, includes_iff only]
  decide +kernel

/-- **One list for both files, and nothing lost between the gates.** -/
theorem one_list (shown : urls.ShowsHosts) (applications : List Application) (portalOrigin : Str) :
    ∃ normal breakglass,
    Lib.Conf.read (renderAppsConf urls applications portalOrigin) = some normal ∧
      Lib.Conf.read (renderBreakglassConf urls applications portalOrigin) = some breakglass ∧
      normal.map served = breakglass.map served ∧
      (∀ server ∈ normal, (served server).isSome = true ∧
        Includes server "/etc/nginx/conf.d/protected.inc" ∧
        Includes server "/etc/nginx/conf.d/decide.inc") ∧
      (∀ server ∈ breakglass, ¬ Includes server "/etc/nginx/conf.d/protected.inc" ∧
        ¬ Includes server "/etc/nginx/conf.d/decide.inc" ∧
        Includes server "/etc/nginx/breakglass/upstream.inc") ∧
      ∀ app ∈ applications, app.enabled = true → Stored urls portalOrigin app →
        ∃ target : Target, target.app = app ∧ appsServer target ∈ normal ∧
          breakglassServer target ∈ breakglass := by
  obtain ⟨readApps, readBreakglass, _⟩ := conf_reads shown applications portalOrigin
  have same : ((renderable urls applications portalOrigin).map appsServer).map served =
      ((renderable urls applications portalOrigin).map breakglassServer).map served := by
    rw [List.map_map, List.map_map]
    refine List.map_congr_left fun target member => ?_
    have scheme := scheme_of_renderable member
    exact (served_apps scheme).trans (served_breakglass scheme).symm
  refine ⟨_, _, readApps, readBreakglass, same, ?_, ?_, fun app member enabled stored => ?_⟩
  · intro server member
    obtain ⟨target, inside, rfl⟩ := List.mem_map.mp member
    refine ⟨?_, includes_apps target⟩
    rw [served_apps (scheme_of_renderable inside)]
    rfl
  · intro server member
    obtain ⟨target, _, rfl⟩ := List.mem_map.mp member
    exact includes_breakglass target
  · obtain ⟨target, found, rfl⟩ := target_of_accepted shown (stored_accepted stored)
    have inside : target ∈ renderable urls applications portalOrigin :=
      mem_renderable.mpr ⟨_, member, enabled, found⟩
    exact ⟨target, rfl, List.mem_map_of_mem inside, List.mem_map_of_mem inside⟩

end Rows

/-! ### A row from the API -/

namespace Table

/-- As an admin types it. -/
def typed : NewApplication where
  slug := "wiki".toList
  name := " Wiki ".toList
  icon := some "  ".toList
  upstreamUrl := "http://wiki:8080".toList
  externalHostname := "WIKI.apps.example.local".toList
  enabled := false

/-- A patch that enables an application. -/
def enable : ApplicationPatch where
  name := none
  icon := none
  upstreamUrl := none
  enabled := some true

/-- As it is stored and enabled. -/
def row : Application where
  id := 1
  slug := "wiki".toList
  name := "Wiki".toList
  icon := none
  upstreamUrl := "http://wiki:8080".toList
  externalHostname := "wiki.apps.example.local".toList
  enabled := true

theorem stored : Stored urls portal row := by
  have created : createApplication urls portal 1 typed = .ok { row with enabled := false } := by
    rfl
  have updated : updateApplication urls enable { row with enabled := false } = .ok row := by
    rfl
  exact .updated (.created created) updated

end Table

open Table in
theorem one_list_wiki : Stored urls portal row ∧
    ∃ normal breakglass, Lib.Conf.read (renderAppsConf urls [row] portal) = some normal ∧
      Lib.Conf.read (renderBreakglassConf urls [row] portal) = some breakglass ∧
      normal.map served = breakglass.map served ∧
      (∀ server ∈ normal, (served server).isSome = true ∧
        Includes server "/etc/nginx/conf.d/protected.inc" ∧
        Includes server "/etc/nginx/conf.d/decide.inc") ∧
      (∀ server ∈ breakglass, ¬ Includes server "/etc/nginx/conf.d/protected.inc" ∧
        ¬ Includes server "/etc/nginx/conf.d/decide.inc" ∧
        Includes server "/etc/nginx/breakglass/upstream.inc") ∧
      ∀ app ∈ [row], app.enabled = true → Stored urls portal app →
        ∃ target : Target, target.app = app ∧ appsServer target ∈ normal ∧
          breakglassServer target ∈ breakglass :=
  ⟨stored, one_list shown [row] portal⟩

end OpenBerat.Nginx
