/-
**The generated server blocks.**

Both files are rendered from the rows the validators let through, one block a row, the values
written into the text as they are. Read back by nginx's rules, the text is these blocks and nothing
else, because every value is made of plain characters.

* `renderable_spec`: what a row that is rendered carries.
* `reads_apps`, `reads_breakglass`: one block.
* `conf_reads`: both files, for any table and any portal origin.
-/

import OpenBerat.Lib.Conf
import OpenBerat.Store
import OpenBerat.Validate

namespace OpenBerat.Nginx

open Lib (exec exec_append)
open Lib.Conf (Directive Item allItems plain readChar reads_word)
open Validate (Host Url UrlParser)

/-- A row of `application`, whatever it holds. -/
structure Application where
  id : Uuid
  slug : Str
  name : Str
  icon : Option Str
  upstreamUrl : Str
  externalHostname : Str
  enabled : Bool
  deriving DecidableEq

/-- A row that may become a block, with its upstream split. -/
structure Target where
  app : Application
  host : Str
  port : UInt16
  scheme : Str
  deriving DecidableEq

section Render

variable (urls : UrlParser)

/-- The three checks of the generator. -/
def validateRow (app : Application) (portalOrigin : Str) : Except Str Str := do
  Validate.validateSlug app.slug
  Validate.validateUpstream urls app.upstreamUrl
  Validate.validateHostname urls app.externalHostname portalOrigin

/-- The row's target, nothing where the row is skipped. -/
def targetOf (portalOrigin : Str) (app : Application) : Option Target :=
  match validateRow urls app portalOrigin with
  | .error _ => none
  | .ok _ => do
    let url ← urls.parse app.upstreamUrl
    let host ← url.hostStr
    let port ← url.portOrKnownDefault
    some ⟨app, host, port, url.scheme⟩

/-- `renderable`: the enabled applications that have a target. -/
def renderable (applications : List Application) (portalOrigin : Str) : List Target :=
  (applications.filter (·.enabled)).filterMap (targetOf urls portalOrigin)

/-- A port in decimal. -/
def portText (port : UInt16) : Str :=
  Nat.toDigits 10 port.toNat

/-- `scheme://$upstream:port`. -/
def proxyPass (target : Target) : Str :=
  target.scheme ++ "://$upstream:".toList ++ portText target.port

/-- The comment at the head of `apps.conf`. -/
def appsHeader : Str :=
  "# Generated from the `application` table by the backend (ADR-0011).
         # Do not edit: the next admin change overwrites it. The hand-written
         # half of the configuration is in the image; only this file is not.\n".toList

/-- One application in `apps.conf`. -/
def appsBlock (target : Target) : Str :=
  "\nserver \x7b
    listen 443 ssl;
    http2 on;
    server_name ".toList ++ (target.app.externalHostname ++ (";

    # Fixed here, never taken from the request: the subrequest
    # inherits the client's Host verbatim.
    set $app_slug ".toList ++ (target.app.slug ++ (";

    include /etc/nginx/conf.d/errors.inc;
    include /etc/nginx/conf.d/decide.inc;

    location / \x7b
        include /etc/nginx/conf.d/protected.inc;
        set $upstream ".toList ++ (target.host ++ (";
        proxy_pass ".toList ++ (proxyPass target ++ ";
    \x7d
\x7d\n".toList)))))))

/-- `render_apps_conf`. -/
def renderAppsConf (applications : List Application) (portalOrigin : Str) : Str :=
  appsHeader ++ (renderable urls applications portalOrigin).flatMap appsBlock

/-- The comment at the head of `breakglass.apps`. -/
def breakglassHeader : Str :=
  "# Generated from the `application` table by the backend (ADR-0030).
         # BREAK-GLASS: these blocks serve the applications with NO authorisation.
         # Read only by breakglass.conf, which nothing starts by itself.\n".toList

/-- One application in `breakglass.apps`. -/
def breakglassBlock (target : Target) : Str :=
  "\nserver \x7b
    listen 443 ssl;
    http2 on;
    server_name ".toList ++ (target.app.externalHostname ++ (";

    location / \x7b
        include /etc/nginx/breakglass/upstream.inc;
        set $upstream ".toList ++ (target.host ++ (";
        proxy_pass ".toList ++ (proxyPass target ++ ";
    \x7d
\x7d\n".toList)))))

/-- `render_breakglass_conf`. -/
def renderBreakglassConf (applications : List Application) (portalOrigin : Str) : Str :=
  breakglassHeader ++ (renderable urls applications portalOrigin).flatMap breakglassBlock

end Render

/-! ### The blocks that are meant -/

/-- A directive of these words. -/
def words (line : List String) : Directive :=
  .simple (line.map String.toList)

/-- The directives of a normal block. -/
def appsServer (target : Target) : Directive :=
  .block ["server".toList]
    [words ["listen", "443", "ssl"], words ["http2", "on"],
      .simple ["server_name".toList, target.app.externalHostname],
      .simple ["set".toList, "$app_slug".toList, target.app.slug],
      words ["include", "/etc/nginx/conf.d/errors.inc"],
      words ["include", "/etc/nginx/conf.d/decide.inc"],
      .block ["location".toList, "/".toList]
        [words ["include", "/etc/nginx/conf.d/protected.inc"],
          .simple ["set".toList, "$upstream".toList, target.host],
          .simple ["proxy_pass".toList, proxyPass target]]]

/-- The directives of a break-glass block. -/
def breakglassServer (target : Target) : Directive :=
  .block ["server".toList]
    [words ["listen", "443", "ssl"], words ["http2", "on"],
      .simple ["server_name".toList, target.app.externalHostname],
      .block ["location".toList, "/".toList]
        [words ["include", "/etc/nginx/breakglass/upstream.inc"],
          .simple ["set".toList, "$upstream".toList, target.host],
          .simple ["proxy_pass".toList, proxyPass target]]]

/-! ### One block -/

/-- A text that is one word wherever it stands. -/
def OneWord (text : Str) : Prop :=
  text ≠ [] ∧ ∀ char ∈ text, plain char = true

/-- The values of a target are words. -/
structure Target.Plain (target : Target) : Prop where
  hostname : OneWord target.app.externalHostname
  slug : OneWord target.app.slug
  host : OneWord target.host
  proxyPass : OneWord (Nginx.proxyPass target)

theorem exec_ofList {reading next : Lib.Conf.Reading} {text : Str} {items : List Item}
    (reads : exec readChar reading text = some (next, items)) :
    exec readChar reading (String.ofList text).toList = some (next, items) := by
  rw [String.toList_ofList]
  exact reads

/-- **A value**, the semicolon behind it, and what follows up to the next value. -/
theorem exec_value {args behind : List Str} {value rest more : Str} {last : Lib.Conf.Reading}
    {items others : List Item} (one : OneWord value)
    (reads : exec readChar ⟨[], .gap⟩ rest = some (⟨behind, .gap⟩, items))
    (next : exec readChar ⟨behind, .gap⟩ more = some (last, others)) :
    exec readChar ⟨args, .gap⟩ (value ++ ((String.ofList (';' :: rest)).toList ++ more)) =
      some (last, .simple (args ++ [value]) :: (items ++ others)) := by
  rw [String.toList_ofList]
  have whole := exec_append (exec_append (@reads_word args value one.1 one.2) reads) next
  simp only [List.append_assoc, List.cons_append, List.nil_append] at whole ⊢
  exact whole

/-- **The last value** of a block. -/
theorem exec_last {args : List Str} {value rest : Str} {last : Lib.Conf.Reading} {items : List Item}
    (one : OneWord value) (reads : exec readChar ⟨[], .gap⟩ rest = some (last, items)) :
    exec readChar ⟨args, .gap⟩ (value ++ (String.ofList (';' :: rest)).toList) =
      some (last, .simple (args ++ [value]) :: items) := by
  rw [String.toList_ofList]
  have whole := exec_append (@reads_word args value one.1 one.2) reads
  simp only [List.append_assoc, List.cons_append, List.nil_append] at whole ⊢
  exact whole

/-- A line of these words. -/
def line (words : List String) : Item :=
  .simple (words.map String.toList)

/-- The start of a block, up to its name. -/
def opened : List Item :=
  [.opening ["server".toList], line ["listen", "443", "ssl"], line ["http2", "on"]]

set_option maxRecDepth 2000 in
theorem reads_apps {target : Target} (plainly : target.Plain) :
    exec readChar ⟨[], .gap⟩ (appsBlock target) = some (⟨[], .gap⟩, (appsServer target).items) := by
  have whole : exec readChar ⟨[], .gap⟩ (appsBlock target) = some (⟨[], .gap⟩,
      opened ++ .simple (["server_name".toList] ++ [target.app.externalHostname]) ::
        ([] ++ .simple (["set".toList, "$app_slug".toList] ++ [target.app.slug]) ::
          ([line ["include", "/etc/nginx/conf.d/errors.inc"],
              line ["include", "/etc/nginx/conf.d/decide.inc"],
              .opening ["location".toList, "/".toList],
              line ["include", "/etc/nginx/conf.d/protected.inc"]] ++
            .simple (["set".toList, "$upstream".toList] ++ [target.host]) ::
              ([] ++ .simple (["proxy_pass".toList] ++ [proxyPass target]) ::
                  [.closing, .closing])))) := by
    refine exec_append (exec_ofList ?_) (exec_value plainly.hostname ?_ (exec_value plainly.slug ?_
      (exec_value plainly.host ?_ (exec_last plainly.proxyPass ?_))))
    all_goals decide +kernel
  exact whole

theorem reads_breakglass {target : Target} (plainly : target.Plain) :
    exec readChar ⟨[], .gap⟩ (breakglassBlock target) =
      some (⟨[], .gap⟩, (breakglassServer target).items) := by
  have whole : exec readChar ⟨[], .gap⟩ (breakglassBlock target) = some (⟨[], .gap⟩,
      opened ++ .simple (["server_name".toList] ++ [target.app.externalHostname]) ::
        ([.opening ["location".toList, "/".toList],
            line ["include", "/etc/nginx/breakglass/upstream.inc"]] ++
          .simple (["set".toList, "$upstream".toList] ++ [target.host]) ::
            ([] ++ .simple (["proxy_pass".toList] ++ [proxyPass target]) ::
                [.closing, .closing]))) := by
    refine exec_append (exec_ofList ?_) (exec_value plainly.hostname ?_
      (exec_value plainly.host ?_ (exec_last plainly.proxyPass ?_)))
    all_goals decide +kernel
  exact whole

/-! ### The values -/

/-- A text in labels, whatever the case of its letters, is one word. -/
theorem oneWord_of_lowered {text : Str}
    (good : Validate.labelled (makeAsciiLowercase text) ['.', '-'] = true) :
    OneWord text := by
  obtain ⟨some, all⟩ := Validate.mem_of_labelled good
  refine ⟨fun empty => some (by rw [empty]; rfl), fun char member => ?_⟩
  refine @Lib.Conf.plain_of_class (fun char => char.toLower.isLower || char.toLower.isDigit ||
    ['.', '-'].contains char.toLower) (by decide +kernel) char ?_
  rcases all char.toLower (List.mem_map_of_mem member) with lower | digit | mark
  · rw [lower]
    rfl
  · rw [digit, Bool.or_true]
    rfl
  · rw [List.contains_eq_mem, decide_eq_true mark, Bool.or_true]

theorem oneWord_of_slug {slug : Str} (good : Validate.labelled slug ['-'] = true) :
    OneWord slug := by
  obtain ⟨some, all⟩ := Validate.mem_of_labelled good
  refine ⟨some, fun char member => ?_⟩
  refine @Lib.Conf.plain_of_class (fun char => char.isLower || char.isDigit || ['-'].contains char)
    (by decide +kernel) char ?_
  rcases all char member with lower | digit | mark
  · rw [lower]
    rfl
  · rw [digit, Bool.or_true]
    rfl
  · rw [List.contains_eq_mem, decide_eq_true mark, Bool.or_true]

theorem plain_of_isDigit {char : Char} (digit : char.isDigit = true) : plain char = true :=
  Lib.Conf.plain_of_class (by decide +kernel) digit

theorem plain_of_mem_toDigits {number : Nat} {char : Char}
    (member : char ∈ Nat.toDigits 10 number) :
    plain char = true :=
  plain_of_isDigit (Nat.isDigit_of_mem_toDigits (by decide) (by decide) member)

theorem oneWord_dotted (ip : BitVec 32) : OneWord (Validate.dotted ip) := by
  unfold Validate.dotted
  refine ⟨fun empty => ?_, fun char member => ?_⟩
  · obtain ⟨char, rest, digits⟩ := List.exists_cons_of_ne_nil
      (@Nat.toDigits_ne_nil (ip.extractLsb' 24 8).toNat 10)
    have first : char ∈ Nat.toDigits 10 (ip.extractLsb' 24 8).toNat := by
      rw [digits]
      exact List.mem_cons_self
    have other : char ≠ '.' := by
      rintro rfl
      exact absurd (Nat.isDigit_of_mem_toDigits (by decide) (by decide) first) (by decide)
    have inside : char ∈ join '.' ([24, 16, 8, 0].map fun start =>
        Nat.toDigits 10 (ip.extractLsb' start 8).toNat) :=
      mem_join_of_mem List.mem_cons_self first other
    rw [empty] at inside
    cases inside
  · rcases mem_join member with rfl | ⟨octet, listed, inside⟩
    · decide
    · obtain ⟨start, _, rfl⟩ := List.mem_map.mp listed
      exact plain_of_mem_toDigits inside

/-- The text of a host is one word, provided that a name is in labels. -/
theorem oneWord_of_showsHost {url : Url} {host : Host} {text : Str} (shows : url.ShowsHost)
    (named : url.host = some host) (shown : url.hostStr = some text)
    (labels : ∀ name, host = .domain name →
      Validate.labelled (makeAsciiLowercase name) ['.', '-'] = true) : OneWord text := by
  unfold Url.ShowsHost at shows
  rw [named] at shows
  cases host with
  | domain name =>
    obtain rfl := Option.some.inj (shown.symm.trans shows)
    exact oneWord_of_lowered (labels _ rfl)
  | ipv4 ip =>
    obtain rfl := Option.some.inj (shown.symm.trans shows)
    exact oneWord_dotted ip
  | ipv6 ip =>
    obtain ⟨inner, same, all⟩ := shows
    obtain rfl := Option.some.inj (shown.symm.trans same)
    refine ⟨List.cons_ne_nil _ _, fun char member => ?_⟩
    rcases List.mem_cons.mp member with rfl | member
    · decide
    · rcases List.mem_append.mp member with inside | last
      · exact Lib.Conf.plain_of_class (by decide +kernel) (all char inside)
      · rw [List.mem_singleton.mp last]
        decide

theorem oneWord_proxyPass {target : Target}
    (scheme : target.scheme = "http".toList ∨ target.scheme = "https".toList) :
    OneWord (proxyPass target) := by
  unfold proxyPass portText
  have schemes :
    ("http".toList.all plain && "https".toList.all plain && "://$upstream:".toList.all plain) =
      true := by
    decide +kernel
  rw [Bool.and_eq_true, Bool.and_eq_true] at schemes
  refine ⟨fun empty => ?_, fun char member => ?_⟩
  · exact Nat.toDigits_ne_nil (List.append_eq_nil_iff.mp empty).2
  · rcases List.mem_append.mp member with member | digit
    · rcases List.mem_append.mp member with inScheme | mark
      · rcases scheme with same | same
        · exact List.all_eq_true.mp schemes.1.1 char (same ▸ inScheme)
        · exact List.all_eq_true.mp schemes.1.2 char (same ▸ inScheme)
      · exact List.all_eq_true.mp schemes.2 char mark
    · exact plain_of_mem_toDigits digit

/-! ### The rows that are rendered -/

section Rows

variable {urls : UrlParser} {applications : List Application} {portalOrigin : Str} {target : Target}

theorem validateRow_eq_ok {app : Application} {stored : Str} :
    validateRow urls app portalOrigin = .ok stored ↔ Validate.labelled app.slug ['-'] = true ∧
      Validate.validateUpstream urls app.upstreamUrl = .ok () ∧
      Validate.validateHostname urls app.externalHostname portalOrigin = .ok stored := by
  unfold validateRow
  rw [Validate.bind_eq_ok, ← Validate.validateSlug_eq_ok]
  simp only [Validate.bind_eq_ok]
  constructor
  · rintro ⟨_, slug, _, upstream, hostname⟩
    exact ⟨slug, upstream, hostname⟩
  · rintro ⟨slug, upstream, hostname⟩
    exact ⟨(), slug, (), upstream, hostname⟩

/-- **A row that is rendered** passed all three checks, and its target is the upstream's parts. -/
theorem targetOf_eq_some {app : Application} :
    targetOf urls portalOrigin app = some target ↔
      ∃ stored url, validateRow urls app portalOrigin = .ok stored ∧
        urls.parse app.upstreamUrl = some url ∧ url.hostStr = some target.host ∧
        url.portOrKnownDefault = some target.port ∧ target.app = app ∧
          target.scheme = url.scheme := by
  unfold targetOf
  constructor
  · intro found
    split at found
    · cases found
    · rename_i stored accepted
      simp only [Option.bind_eq_bind, Option.bind_eq_some_iff, Option.some.injEq] at found
      obtain ⟨url, parsed, host, shown, port, known, rfl⟩ := found
      exact ⟨stored, url, accepted, parsed, shown, known, rfl, rfl⟩
  · rintro ⟨stored, url, accepted, parsed, shown, known, rfl, scheme⟩
    rw [accepted]
    simp only [parsed, shown, known, ← scheme, Option.bind_eq_bind, Option.bind_some]

theorem mem_renderable : target ∈ renderable urls applications portalOrigin ↔
    ∃ app ∈ applications, app.enabled = true ∧ targetOf urls portalOrigin app = some target := by
  unfold renderable
  rw [List.mem_filterMap]
  simp only [List.mem_filter, and_assoc]

/-- The values of a row that is rendered are words. -/
theorem plain_of_renderable (shown : urls.ShowsHosts)
    (member : target ∈ renderable urls applications portalOrigin) : target.Plain := by
  obtain ⟨app, _, _, found⟩ := mem_renderable.mp member
  obtain ⟨stored, url, accepted, parsed, text, _, rfl, scheme⟩ := targetOf_eq_some.mp found
  obtain ⟨slug, upstream, hostname⟩ := validateRow_eq_ok.mp accepted
  obtain ⟨rfl, labels, _⟩ := Validate.validateHostname_eq_ok.mp hostname
  obtain ⟨other, host, again, schemes, named, labelled, _⟩ :=
    Validate.validateUpstream_eq_ok upstream
  obtain rfl := Option.some.inj (parsed.symm.trans again)
  exact ⟨oneWord_of_lowered labels, oneWord_of_slug slug,
    oneWord_of_showsHost (shown _ _ parsed schemes) named text labelled,
    oneWord_proxyPass (scheme ▸ schemes)⟩

/-- **A file of blocks** is read as its blocks. -/
theorem read_blocks {header : Str} {block : Target → Str} {server : Target → Directive}
    {targets : List Target} (comments : exec readChar ⟨[], .gap⟩ header = some (⟨[], .gap⟩, []))
    (each : ∀ target ∈ targets,
      exec readChar ⟨[], .gap⟩ (block target) = some (⟨[], .gap⟩, (server target).items)) :
    Lib.Conf.read (header ++ targets.flatMap block) = some (targets.map server) := by
  have body : exec readChar ⟨[], .gap⟩ (targets.flatMap block) =
      some (⟨[], .gap⟩, allItems (targets.map server)) := by
    induction targets with
    | nil => rfl
    | cons target targets ih =>
      rw [List.flatMap_cons, List.map_cons]
      exact exec_append (each target List.mem_cons_self)
        (ih fun later member => each later (List.mem_cons_of_mem _ member))
  exact Lib.Conf.read_of_exec (exec_append comments body)

/-- A block of its own for each row: no reserved first label, and not the portal's host, whatever
the case. -/
structure Separate (urls : UrlParser) (portalOrigin : Str) (target : Target) : Prop where
  label : firstPiece '.' (makeAsciiLowercase target.app.externalHostname) ∉
    ["portal".toList, "auth".toList]
  host : ∀ url host, urls.parse portalOrigin = some url → url.hostStr = some host →
    makeAsciiLowercase host ≠ makeAsciiLowercase target.app.externalHostname

theorem separate_of_renderable (member : target ∈ renderable urls applications portalOrigin) :
    Separate urls portalOrigin target := by
  obtain ⟨app, _, _, found⟩ := mem_renderable.mp member
  obtain ⟨stored, url, accepted, _, _, _, rfl, _⟩ := targetOf_eq_some.mp found
  obtain ⟨rfl, _, free, different⟩ :=
    Validate.validateHostname_eq_ok.mp (validateRow_eq_ok.mp accepted).2.2
  refine ⟨free, fun url host parsed text same => different ?_⟩
  unfold Validate.portalHost
  rw [parsed, Option.bind_some, text, Option.map_some, same]

set_option maxRecDepth 2000 in
/-- **No row can write configuration.** -/
theorem conf_reads (shown : urls.ShowsHosts) (applications : List Application)
    (portalOrigin : Str) :
    Lib.Conf.read (renderAppsConf urls applications portalOrigin) =
        some ((renderable urls applications portalOrigin).map appsServer) ∧
      Lib.Conf.read (renderBreakglassConf urls applications portalOrigin) =
        some ((renderable urls applications portalOrigin).map breakglassServer) ∧
      ∀ target ∈ renderable urls applications portalOrigin, Separate urls portalOrigin target := by
  refine ⟨read_blocks (exec_ofList ?_) fun target member => ?_,
    read_blocks (exec_ofList ?_) fun target member => ?_, fun target => separate_of_renderable⟩
  · decide +kernel
  · exact reads_apps (plain_of_renderable shown member)
  · decide +kernel
  · exact reads_breakglass (plain_of_renderable shown member)

end Rows

/-! ### One good row and a hostile one -/

namespace Table

/-- The portal's origin. -/
def portal : Str := "https://portal.apps.example.local".toList

/-- The upstream, parsed. -/
def wikiUrl : Url where
  scheme := "http".toList
  username := []
  password := none
  host := some (.domain "wiki".toList)
  hostStr := some "wiki".toList
  port := some 8080
  path := ['/']
  query := none
  fragment := none

/-- The portal's origin, parsed. -/
def portalUrl : Url where
  scheme := "https".toList
  username := []
  password := none
  host := some (.domain "portal.apps.example.local".toList)
  hostStr := some "portal.apps.example.local".toList
  port := none
  path := ['/']
  query := none
  fragment := none

/-- A parser of two URLs. -/
def urls : UrlParser where
  parse raw :=
    if raw = "http://wiki:8080".toList then some wikiUrl
    else if raw = portal then some portalUrl
    else none

theorem shown : urls.ShowsHosts := by
  intro raw url parsed _
  unfold urls at parsed
  dsimp only at parsed
  split at parsed
  · cases parsed
    rfl
  · split at parsed
    · cases parsed
      rfl
    · cases parsed

/-- An application. -/
def wiki : Application where
  id := 1
  slug := "wiki".toList
  name := "Wiki".toList
  icon := none
  upstreamUrl := "http://wiki:8080".toList
  externalHostname := "Wiki.apps.example.local".toList
  enabled := true

/-- An application whose slug is more than one word. -/
def hostile : Application :=
  { wiki with id := 2, slug := "x; return 200".toList }

end Table

open Table in
theorem conf_reads_wiki :
    renderable urls [hostile, wiki] portal = [⟨wiki, "wiki".toList, 8080, "http".toList⟩] ∧
    Lib.Conf.read (renderAppsConf urls [hostile, wiki] portal) =
        some ((renderable urls [hostile, wiki] portal).map appsServer) ∧
      Lib.Conf.read (renderBreakglassConf urls [hostile, wiki] portal) =
        some ((renderable urls [hostile, wiki] portal).map breakglassServer) ∧
      ∀ target ∈ renderable urls [hostile, wiki] portal, Separate urls portal target :=
  ⟨by decide +kernel, conf_reads shown [hostile, wiki] portal⟩

end OpenBerat.Nginx
