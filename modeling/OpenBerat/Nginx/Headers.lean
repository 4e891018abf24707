/-
**The headers nginx sends on.**

A client writes what it likes into its request. nginx drops the names it finds invalid, lays its own
`proxy_set_header` lines over the rest and sends that on: to `/decide`, to an application, to the
portal's API, and to an application under break-glass.

* `rewritten`: under a name that has a line the upstream finds the line's value and nothing else.
* `identity_only`: the identity that an application reads is the one in the decision's response.
* `traces_agree`: a decision depends on nothing in a client's request but its Cookie header.
-/

import OpenBerat.Lib.Fields
import OpenBerat.Provenance

namespace OpenBerat.Nginx

open Decide (gather)
open Lib (exec overlay valuesOf)

/-! ### Lines and fields -/

/-- A line of `proxy_set_header`: a name, and a value as it is written. -/
abbrev Line := Str × Str

/-- A field of a request, its name as it was sent. -/
abbrev Field := Str × HeaderValue

/-- A value that is written as one variable, or as text. -/
def expand (env : Str → HeaderValue) : Str → HeaderValue
  | '$' :: name => env name
  | text => asBytes text

/-- What a name may be made of; `underscores_in_headers` is off. -/
def nameChar (char : Char) : Bool :=
  char.isAlphanum || char == '-'

/-- A value, or nothing where it is empty. -/
def sent (env : Str → HeaderValue) (value : Str) : Option HeaderValue :=
  if expand env value = [] then none else some (expand env value)

/-- What goes upstream. -/
def proxied (lines : List Line) (env : Str → HeaderValue) (client : List Field) : List Field :=
  overlay makeAsciiLowercase (lines.map fun line => (line.1, sent env line.2))
    (client.filter fun field => field.1.all nameChar)

/-- The first value of a name, in whatever case: `HeaderMap::get`. -/
def view (fields : List Field) : Headers := fun name =>
  (valuesOf makeAsciiLowercase fields name).head?

/-- A name as an upstream behind CGI sees it. -/
def mangled (name : Str) : Str :=
  name.map fun char => if char = '-' then '_' else char.toUpper

/-- Lines as they stand in a file. -/
def written (lines : List (String × String)) : List Line :=
  lines.map fun line => (line.1.toList, line.2.toList)

/-! ### The include files -/

/-- The names that a client's identity might come under, cleared. -/
def clearedRequest : List Line := written
  [("X-Auth-Request-User", ""), ("X-Auth-Request-Preferred-Username", ""),
    ("X-Auth-Request-Email", ""), ("X-Auth-Request-Groups", ""), ("X-Auth-Request-Redirect", "")]

/-- What the client may not say of its own connection. -/
def pinned : List Line := written
  [("X-Forwarded-For", "$remote_addr"), ("X-Forwarded-Proto", "$scheme"),
    ("X-Forwarded-Host", "$host"), ("X-Forwarded-Port", "443")]

/-- Other spellings of an identity. -/
def clearedSpellings : List Line := written
  [("X-Forwarded-User", ""), ("X-Forwarded-Email", ""), ("X-Forwarded-Groups", ""),
    ("X-Forwarded-Preferred-Username", ""), ("X-Auth-Request-Access-Token", ""),
    ("Remote-User", "")]

/-- The upgrade, and what a framework might route by. -/
def pinnedRoute : List Line := written
  [("X-Forwarded-Prefix", ""), ("X-Original-URL", ""), ("X-Rewrite-URL", ""),
    ("Upgrade", "$upstream_upgrade"), ("HTTP2-Settings", ""), ("Connection", "$connection_upgrade")]

/-- `conf.d/decide.inc`, with the two lines nginx adds by itself. -/
def decideInc : List Line :=
  written [("Content-Length", ""), ("X-Original-URI", "$request_uri"),
    ("X-Original-Method", "$request_method"), ("X-Real-IP", "$remote_addr"),
    ("X-Request-Id", "$request_id"), ("X-App-Slug", "$app_slug")] ++ clearedRequest ++
  written [("X-Auth-Subject", ""), ("X-Auth-Username", ""), ("X-Auth-Email", ""),
    ("X-Auth-Groups", "")] ++ pinned ++ written [("Host", "$proxy_host"), ("Connection", "close")]

/-- The verified identity. -/
def identified : List Line := written
  [("X-Auth-Subject", "$auth_subject"), ("X-Auth-Username", "$auth_username"),
    ("X-Auth-Email", "$auth_email"), ("X-Auth-Groups", "$auth_groups")]

/-- `conf.d/protected.inc`. -/
def protectedInc : List Line :=
  identified ++ written [("X-Auth-Request-Id", "$request_id")] ++ clearedRequest ++
    clearedSpellings ++
  written [("Cookie", "$upstream_cookie"), ("Host", "$host"), ("X-Real-IP", "$remote_addr")] ++
  pinned ++ pinnedRoute

/-- `location /api/` of `conf.d/10-portal.conf.template`. -/
def portalApi : List Line :=
  identified ++ written [("X-Auth-Request-Id", "$request_id")] ++ clearedRequest ++
  written [("Cookie", "$http_cookie"), ("Host", "$host"), ("X-Real-IP", "$remote_addr")] ++
    pinned ++
  written [("Connection", "close")]

/-- `breakglass/upstream.inc`. -/
def breakglassInc : List Line :=
  written [("X-Auth-Subject", ""), ("X-Auth-Username", ""), ("X-Auth-Email", ""),
    ("X-Auth-Groups", "")] ++ clearedRequest ++ clearedSpellings ++
  written [("X-Auth-Request-Id", "$request_id"), ("Cookie", ""), ("Host", "$host"),
    ("X-Real-IP", "$remote_addr")] ++ pinned ++ pinnedRoute

/-- The four of them. -/
def includes : List (List Line) :=
  [decideInc, protectedInc, portalApi, breakglassInc]

/-! ### What an upstream reads -/

/-- The character that a mangled one stands for. -/
def unmangled (char : Char) : Char :=
  if char = '_' then '-' else char.toLower

theorem unmangled_char : ∀ code : Fin 128, nameChar (Char.ofNat code) = true →
    unmangled (if Char.ofNat code = '-' then '_' else (Char.ofNat code).toUpper) =
      (Char.ofNat code).toLower := by
  decide +kernel

theorem ascii_of_nameChar {char : Char} (named : nameChar char = true) : char.toNat < 128 := by
  unfold nameChar Char.isAlphanum Char.isAlpha Char.isUpper Char.isLower Char.isDigit at named
  simp only [Bool.or_eq_true, Bool.and_eq_true, decide_eq_true_eq, beq_iff_eq] at named
  rcases named with ((⟨_, upper⟩ | ⟨_, lower⟩) | ⟨_, digit⟩) | rfl
  · exact Nat.lt_of_le_of_lt (UInt32.le_iff_toNat_le.mp upper) (by decide)
  · exact Nat.lt_of_le_of_lt (UInt32.le_iff_toNat_le.mp lower) (by decide)
  · exact Nat.lt_of_le_of_lt (UInt32.le_iff_toNat_le.mp digit) (by decide)
  · decide

theorem unmangled_mangled {name : Str} (valid : name.all nameChar = true) :
    (mangled name).map unmangled = makeAsciiLowercase name := by
  unfold mangled makeAsciiLowercase
  rw [List.map_map]
  refine List.map_congr_left fun char member => ?_
  have named := List.all_eq_true.mp valid char member
  have same := unmangled_char ⟨char.toNat, ascii_of_nameChar named⟩
  rw [show Char.ofNat char.toNat = char from Char.ofNat_toNat char] at same
  exact same named

/-- Names in the include files are names, and no file sets one twice. -/
theorem includes_names : ∀ lines ∈ includes, (∀ line ∈ lines, line.1.all nameChar = true) ∧
    (lines.map fun line => makeAsciiLowercase line.1).Nodup := by
  decide +kernel

section Rewriting

variable {lines : List Line} {name value : Str}

/-- **Under a name that has a line** an upstream finds the line's value and nothing else, even if it
takes a hyphen for an underscore and small letters for capitals. -/
theorem rewritten (listed : lines ∈ includes) (line : (name, value) ∈ lines)
    (env : Str → HeaderValue) (client : List Field) :
    valuesOf mangled (proxied lines env client) (mangled name) = (sent env value).toList := by
  obtain ⟨named, distinct⟩ := includes_names lines listed
  have member : (name, sent env value) ∈ lines.map fun line => (line.1, sent env line.2) :=
    List.mem_map.mpr ⟨_, line, rfl⟩
  refine @Lib.valuesOf_overlay_of_mem _ _ _ _ _ _ makeAsciiLowercase mangled _ _
    (fun name => name.all nameChar = true) _ ?_ ?_ ?_ ?_ member
  · intro first second one two same
    rw [← unmangled_mangled one, ← unmangled_mangled two, same]
  · intro field inside
    exact (List.mem_filter.mp inside).2
  · intro line inside
    obtain ⟨written, listed, rfl⟩ := List.mem_map.mp inside
    exact named written listed
  · rw [List.map_map]
    exact distinct

/-- The backend finds it as well. -/
theorem view_of_line (listed : lines ∈ includes) (line : (name, value) ∈ lines)
    (env : Str → HeaderValue) (client : List Field) :
    view (proxied lines env client) (makeAsciiLowercase name) = sent env value := by
  obtain ⟨named, distinct⟩ := includes_names lines listed
  have member : (name, sent env value) ∈ lines.map fun line => (line.1, sent env line.2) :=
    List.mem_map.mpr ⟨_, line, rfl⟩
  have all : valuesOf makeAsciiLowercase (proxied lines env client) (makeAsciiLowercase name) =
      (sent env value).toList := by
    refine @Lib.valuesOf_overlay_of_mem _ _ _ _ _ _ makeAsciiLowercase makeAsciiLowercase _ _
      (fun _ => True) _ (fun _ _ _ _ same => same) (fun _ _ => trivial)
        (fun _ _ => trivial) ?_ member
    rw [List.map_map]
    exact distinct
  unfold view
  rw [all]
  cases sent env value with
  | none => rfl
  | some value => rfl

end Rewriting

/-! ### Who an application is told -/

section Identity

variable (env : Str → HeaderValue) (client : List Field)

/-- A field's value, or no field. -/
def field (value : HeaderValue) : List HeaderValue :=
  if value = [] then [] else [value]

/-- `auth_request_set` in `protected.inc`: the fields of the decision's response. -/
def withResponse (reply : Decide.Response) : Str → HeaderValue := fun name =>
  let part := fun read : Identity → HeaderValue => (reply.identity.map read).getD []
  if name = "auth_subject".toList then part (·.sub)
  else if name = "auth_username".toList then part (·.username)
  else if name = "auth_email".toList then part (·.email)
  else if name = "auth_groups".toList then part (·.groups)
  else env name

/-- What an upstream finds under a name. -/
def told (lines : List Line) (name : Str) : List HeaderValue :=
  valuesOf mangled (proxied lines env client) (mangled name)

theorem told_eq {lines : List Line} {name value : Str} (listed : lines ∈ includes)
    (line : (name, value) ∈ lines) : told env client lines name = field (expand env value) := by
  unfold told
  rw [rewritten listed line]
  unfold sent field
  by_cases empty : expand env value = []
  · rw [if_pos empty, if_pos empty]
    rfl
  · rw [if_neg empty, if_neg empty]
    rfl

end Identity

/-! ### What a decision is told -/

section Context

variable {lib : Libraries}

/-- A name in letters is one nginx keeps, whatever the case. -/
theorem nameChar_of_lowered {name : Str} {lowered : String}
    (same : makeAsciiLowercase name = lowered.toList)
    (letters : lowered.toList.all Char.isLower = true) : name.all nameChar = true := by
  refine List.all_eq_true.mpr fun char member => ?_
  have lower : char.toLower.isLower = true := by
    refine List.all_eq_true.mp letters char.toLower ?_
    rw [← same]
    exact List.mem_map_of_mem member
  unfold nameChar Char.isAlphanum Char.isAlpha
  by_cases upper : char.isUpper = true
  · rw [upper]
    rfl
  · have kept := toLower_of_not_upper (Bool.eq_false_iff.mpr upper)
    rw [← kept, lower, Bool.or_true]
    rfl

/-- A field of the client's that no line is laid over. -/
theorem view_other {lines : List Line} {name : String}
    (letters : name.toList.all Char.isLower = true)
    (other : name.toList ∉ lines.map fun line => makeAsciiLowercase line.1)
    (env : Str → HeaderValue) (client : List Field) :
    view (proxied lines env client) name.toList =
      (valuesOf makeAsciiLowercase client name.toList).head? := by
  have free : name.toList ∉ (lines.map fun line => (line.1, sent env line.2)).map
      fun line => makeAsciiLowercase line.1 := by
    rw [List.map_map]
    exact other
  unfold view proxied
  rw [Lib.valuesOf_overlay_of_notMem free]
  unfold valuesOf
  rw [List.filter_filter]
  congr 2
  refine List.filter_congr fun field _ => ?_
  by_cases same : makeAsciiLowercase field.1 = name.toList
  · rw [decide_eq_true same, nameChar_of_lowered same letters]
    rfl
  · rw [decide_eq_false same, Bool.false_and]

/-- The names that `decided` reads. -/
def contextNames : List String :=
  ["x-app-slug", "x-original-uri", "x-original-method", "x-real-ip", "x-request-id", "cookie"]

theorem gather_congr {first second : Headers}
    (same : ∀ name ∈ contextNames, first name.toList = second name.toList) :
    gather lib first = gather lib second := by
  unfold contextNames at same
  simp only [List.forall_mem_cons, List.not_mem_nil, false_implies, implies_true, and_true] at same
  obtain ⟨slug, uri, method, ip, id, cookie⟩ := same
  have absent : (["x-original-method", "x-real-ip", "x-request-id"].any fun name =>
      (first name.toList).isNone) =
          ["x-original-method", "x-real-ip", "x-request-id"].any fun name =>
        (second name.toList).isNone := by
    simp only [List.any_cons, List.any_nil, method, ip, id]
  unfold gather
  simp only [Decide.headerStr, slug, uri, absent, ip, id, cookie]

/-- Two client requests with the same cookies. -/
theorem gather_proxied {env : Str → HeaderValue} {client other : List Field}
    (cookies : valuesOf makeAsciiLowercase client "cookie".toList =
      valuesOf makeAsciiLowercase other "cookie".toList) :
    gather lib (view (proxied decideInc env client)) =
      gather lib (view (proxied decideInc env other)) := by
  have listed : decideInc ∈ includes := List.mem_cons_self
  have lines : ∀ name ∈ contextNames, name = "cookie" ∨ ∃ line ∈ decideInc,
      makeAsciiLowercase line.1 = name.toList := by
    decide +kernel
  have free : "cookie".toList ∉ decideInc.map fun line => makeAsciiLowercase line.1 := by
    decide +kernel
  refine gather_congr fun name member => ?_
  rcases lines name member with rfl | ⟨⟨written, value⟩, line, same⟩
  · rw [view_other (by decide) free, view_other (by decide) free, cookies]
  · rw [← same, view_of_line listed line, view_of_line listed line]

/-- The request that is decided on is the block's and the client's. -/
theorem gather_context {env : Str → HeaderValue} {client : List Field}
    {incoming : Decide.Incoming lib}
    (gathered : gather lib (view (proxied decideInc env client)) = .ok incoming) :
    lib.http.toStr (env "app_slug".toList) = some incoming.request.slug ∧
      lib.http.toStr (env "request_uri".toList) = some incoming.request.uri := by
  have shown : ∀ {written value : Str} {name : String} {text : Str},
    (written, '$' :: value) ∈ decideInc →
      makeAsciiLowercase written = name.toList →
      Decide.headerStr lib (view (proxied decideInc env client)) name = some text →
      lib.http.toStr (env value) = some text := by
    intro written value name text line same found
    unfold Decide.headerStr at found
    rw [← same, view_of_line List.mem_cons_self line] at found
    obtain ⟨bytes, put, read⟩ := Option.bind_eq_some_iff.mp found
    unfold sent at put
    rw [Option.ite_none_left_eq_some] at put
    have value : env value = bytes := Option.some.inj put.2
    rw [value]
    exact read
  have lines : ("X-App-Slug".toList, "$app_slug".toList) ∈ decideInc ∧
      ("X-Original-URI".toList, "$request_uri".toList) ∈ decideInc := by
    decide +kernel
  unfold gather at gathered
  split at gathered
  · rename_i slug uri slugShown uriShown
    split at gathered
    · cases gathered
    · dsimp only at gathered
      split at gathered
      · cases gathered
      · cases gathered
        exact ⟨shown lines.1 (by decide) slugShown, shown lines.2 (by decide) uriShown⟩
  · cases gathered

/-- The same request but for what a client adds to it. -/
inductive Alike (env : Nat → Str → HeaderValue) : Instance.Label → Instance.Label → Prop
  | same (label : Instance.Label) : Alike env label label
  | arrive {request : Nat} {client other : List Field} :
      valuesOf makeAsciiLowercase client "cookie".toList =
        valuesOf makeAsciiLowercase other "cookie".toList →
      Alike env (.arrive request (view (proxied decideInc (env request) client)))
        (.arrive request (view (proxied decideInc (env request) other)))

/-- **A client has no say but its cookie.** Two runs of the instance over the same requests,
whatever else the clients write into their headers, show the same; and what is decided on is the
slug of the block and the URI of the request. -/
theorem traces_agree (env : Nat → Str → HeaderValue) (state : Instance.State lib)
    {labels others : List Instance.Label} (alike : List.Forall₂ (Alike env) labels others) :
    (exec Instance.step state labels).map Prod.snd =
      (exec Instance.step state others).map Prod.snd ∧
      ∀ request client incoming,
        gather lib (view (proxied decideInc (env request) client)) = .ok incoming →
        lib.http.toStr (env request "app_slug".toList) = some incoming.request.slug ∧
          lib.http.toStr (env request "request_uri".toList) = some incoming.request.uri := by
  refine ⟨?_, fun request client incoming => gather_context⟩
  refine @Lib.exec_trace_eq _ _ _ _ Eq (Alike env) (fun _ _ => Eq.symm) ?_ ?_ _ _ alike _ _ rfl
  · rintro first second (_ | cookies)
    · exact .same _
    · exact .arrive cookies.symm
  · rintro state _ label other next out rfl (_ | cookies) stepped
    · exact ⟨next, stepped, rfl⟩
    · refine ⟨next, ?_, rfl⟩
      rw [← stepped]
      unfold Instance.step
      dsimp only
      rw [gather_proxied cookies]

/-- A value that is sent reads as it stands. -/
theorem text_sent (http : HeaderText) (env : Str → HeaderValue) (value : Str) :
    ((sent env value).bind http.toStr).getD [] = http.text (expand env value) := by
  unfold sent
  by_cases empty : expand env value = []
  · rw [if_pos empty, empty]
    exact (http.text_asBytes []).symm
  · rw [if_neg empty]
    rfl

end Context

/-! ### A client that writes itself into a group -/

namespace Spoof

/-- The variables of a request for an application. -/
def env (_ : Nat) : Str → HeaderValue := fun name =>
  if name = "app_slug".toList then asBytes "wiki".toList else asBytes ['/']

/-- A client that sends a cookie. -/
def plainly : List Field :=
  [("Cookie".toList, asBytes "a=1".toList)]

/-- The same client with a slug and groups of its own, in several spellings. -/
def spoofed : List Field :=
  [("x-app-slug".toList, asBytes "other".toList), ("cookie".toList, asBytes "a=1".toList),
    ("X_Auth_Groups".toList, asBytes "admins".toList),
    ("X-AUTH-GROUPS".toList, asBytes "admins".toList)]

end Spoof

open Spoof in
theorem traces_agree_spoofed :
    (exec Instance.step (.init Instance.Visit.lib)
      [.arrive 0 (view (proxied decideInc (env 0) plainly))]).map Prod.snd =
    (exec Instance.step (.init Instance.Visit.lib)
      [.arrive 0 (view (proxied decideInc (env 0) spoofed))]).map Prod.snd :=
  (traces_agree env (.init Instance.Visit.lib) (.cons (.arrive (by decide +kernel)) .nil)).1

end OpenBerat.Nginx
