/-
**What the management plane refuses to store.**

The checks at the point of entry, with the texts of their refusals. URLs are parsed by a library;
the parser stays a parameter, and `UrlParser.ShowsHosts` is the one thing the generated
configuration relies on: what the text of a host is.

* `shape_of_validatePathPattern`: a stored pattern.
* `mem_of_labelled`: the characters of a slug or a host.
* `validateUpstream_eq_ok`, `validateHostname_eq_ok`: what an accepted value is.
-/

import OpenBerat.Cookie
import OpenBerat.Policy.Normalise

namespace OpenBerat.Validate

/-- `str::trim_end_matches` with an array of characters. -/
def trimEndAny (chars : List Char) (text : Str) : Str :=
  text.rdropWhile fun char => chars.contains char

/-- `validate_path_pattern`. -/
def validatePathPattern (raw : Str) : Except Str Unit :=
  if raw = [] then .ok ()
  else if ¬ endsWith "/*".toList raw then
    let base := trimEndAny ['*', '/'] raw
    .error (if base = [] then "path_pattern for the whole application is empty, or /*".toList
      else "path_pattern is a subtree and has no exact-path form: write ".toList ++ base ++
        "/*, which matches ".toList ++ base ++ " and everything below it".toList)
  else
    -- The star that `strip_suffix` takes off is there.
    let probe := raw.dropLast
    if '*' ∈ probe then .error "path_pattern may only use * as its last character".toList
    else match Policy.normalise probe with
      | .ok seen =>
        if seen = probe then .ok ()
        else .error ("path_pattern must be written the way it is matched: ".toList ++ seen)
      | .error _ => .error "path_pattern must be empty or start with /".toList

/-- A stored pattern is empty, or a path with a separator at its end and a star behind it. -/
theorem shape_of_validatePathPattern {raw : Str} (accepted : validatePathPattern raw = .ok ()) :
    raw = [] ∨ ∃ base, raw = base ++ ['/', '*'] ∧ '*' ∉ base ∧
      Policy.normalise (base ++ ['/']) = .ok (base ++ ['/']) := by
  unfold validatePathPattern at accepted
  by_cases empty : raw = []
  · exact Or.inl empty
  · rw [if_neg empty] at accepted
    by_cases subtree : endsWith "/*".toList raw = true
    · rw [if_neg (not_not.mpr subtree)] at accepted
      obtain ⟨base, rfl⟩ := List.isSuffixOf_iff_suffix.mp subtree
      have probe : (base ++ "/*".toList).dropLast = base ++ ['/'] := by
        show (base ++ (['/'] ++ ['*'])).dropLast = _
        rw [← List.append_assoc, List.dropLast_concat]
      rw [probe] at accepted
      dsimp only at accepted
      by_cases star : '*' ∈ base ++ ['/']
      · rw [if_pos star] at accepted
        cases accepted
      · rw [if_neg star] at accepted
        refine Or.inr ⟨base, rfl, fun member => star (List.mem_append_left _ member), ?_⟩
        cases seen : Policy.normalise (base ++ ['/']) with
        | error reason =>
          rw [seen] at accepted
          cases accepted
        | ok path =>
          rw [seen] at accepted
          dsimp only at accepted
          by_cases same : path = base ++ ['/']
          · rw [same]
          · rw [if_neg same] at accepted
            cases accepted
    · rw [if_pos subtree] at accepted
      cases accepted

/-! ### URLs -/

/-- `url::Host`, the addresses as the bits they are. -/
inductive Host
  | domain (name : Str)
  | ipv4 (ip : BitVec 32)
  | ipv6 (ip : BitVec 128)
  deriving DecidableEq

/-- The parts of a `Url` the backend asks for. -/
structure Url where
  scheme : Str
  username : Str
  password : Option Str
  host : Option Host
  hostStr : Option Str
  port : Option UInt16
  path : Str
  query : Option Str
  fragment : Option Str
  deriving DecidableEq

/-- The port of a scheme with a known one. -/
def defaultPort (scheme : Str) : Option UInt16 :=
  if scheme = "http".toList ∨ scheme = "ws".toList then some 80
  else if scheme = "https".toList ∨ scheme = "wss".toList then some 443
  else if scheme = "ftp".toList then some 21
  else none

/-- `Url::port_or_known_default`. -/
def Url.portOrKnownDefault (url : Url) : Option UInt16 :=
  url.port.or (defaultPort url.scheme)

/-- The octets of an IPv4 address, in decimal. -/
def dotted (ip : BitVec 32) : Str :=
  join '.' ([24, 16, 8, 0].map fun start => Nat.toDigits 10 (ip.extractLsb' start 8).toNat)

/-- A character of an IPv6 address. -/
def colonHex (char : Char) : Bool :=
  char.isDigit || 'a' ≤ char && char ≤ 'f' || char = ':'

/-- The text of a host is its name, the dotted address, or the bracketed one. -/
def Url.ShowsHost (url : Url) : Prop :=
  match url.host with
  | none => url.hostStr = none
  | some (.domain name) => url.hostStr = some name
  | some (.ipv4 ip) => url.hostStr = some (dotted ip)
  | some (.ipv6 _) => ∃ text, url.hostStr = some ('[' :: (text ++ [']'])) ∧
    ∀ char ∈ text, colonHex char = true

/-- `Url::parse`, with the error dropped as every caller drops it. -/
structure UrlParser where
  parse : Str → Option Url

/-- What the library documents of an `http` or `https` URL. -/
def UrlParser.ShowsHosts (urls : UrlParser) : Prop :=
  ∀ raw url, urls.parse raw = some url →
    url.scheme = "http".toList ∨ url.scheme = "https".toList → url.ShowsHost

/-! ### Labels -/

/-- `u8::is_ascii_lowercase`. -/
def isAsciiLowercase (byte : UInt8) : Bool :=
  97 ≤ byte ∧ byte ≤ 122

/-- `labelled`. -/
def labelled (value : Str) (separators : List Char) : Bool :=
  !value.isEmpty && (value.splitOnP separators.contains).all fun label =>
    !label.isEmpty && (asBytes label).all fun byte => isAsciiLowercase byte || isAsciiDigit byte

theorem mem_pieces {separators : List Char} {value : Str} {char : Char} (member : char ∈ value) :
    char ∈ separators ∨ ∃ label ∈ value.splitOnP separators.contains, char ∈ label := by
  induction value with
  | nil => cases member
  | cons head value ih =>
    rw [List.splitOnP_cons_eq_if_modifyHead]
    obtain ⟨first, rest, shape⟩ :=
      List.exists_cons_of_ne_nil (List.splitOnP_ne_nil separators.contains value)
    rw [shape] at ih ⊢
    by_cases here : separators.contains head = true
    · rw [if_pos here]
      rcases List.mem_cons.mp member with rfl | later
      · rw [List.contains_eq_mem, decide_eq_true_eq] at here
        exact Or.inl here
      · refine (ih later).imp_right ?_
        rintro ⟨label, listed, inside⟩
        exact ⟨label, List.mem_cons_of_mem _ listed, inside⟩
    · rw [if_neg here, List.modifyHead_cons]
      rcases List.mem_cons.mp member with rfl | later
      · exact Or.inr ⟨_, List.mem_cons_self, List.mem_cons_self⟩
      · refine (ih later).imp_right ?_
        rintro ⟨label, listed, inside⟩
        rcases List.mem_cons.mp listed with rfl | listed
        · exact ⟨_, List.mem_cons_self, List.mem_cons_of_mem _ inside⟩
        · exact ⟨label, List.mem_cons_of_mem _ listed, inside⟩

/-- The bytes of a label are lower-case letters and digits where its characters are. -/
theorem label_bytes {label : Str} :
    ((asBytes label).all fun byte => isAsciiLowercase byte || isAsciiDigit byte) = true ↔
      ∀ char ∈ label, char.isLower = true ∨ char.isDigit = true := by
  have lower : ∀ {char : Char}, char.isLower = true ↔ 97 ≤ char.toNat ∧ char.toNat ≤ 122 := by
    intro char
    unfold Char.isLower
    rw [Bool.and_eq_true, decide_eq_true_eq, decide_eq_true_eq]
    exact Iff.rfl
  have digit : ∀ {char : Char}, char.isDigit = true ↔ 48 ≤ char.toNat ∧ char.toNat ≤ 57 := by
    intro char
    unfold Char.isDigit
    rw [Bool.and_eq_true, decide_eq_true_eq, decide_eq_true_eq]
    exact Iff.rfl
  have range : ∀ {byte : UInt8}, (isAsciiLowercase byte || isAsciiDigit byte) = true ↔
      (97 ≤ byte.toNat ∧ byte.toNat ≤ 122) ∨ (48 ≤ byte.toNat ∧ byte.toNat ≤ 57) := by
    intro byte
    rw [Bool.or_eq_true]
    exact or_congr decide_eq_true_iff decide_eq_true_iff
  have low : ∀ byte : UInt8, (isAsciiLowercase byte || isAsciiDigit byte) = true →
      byte.toNat < 0x80 := by
    intro byte passes
    have limits := range.mp passes
    omega
  constructor
  · intro all char member
    obtain ⟨byte, passes, code⟩ := ascii_of_all low all char member
    rw [range, code] at passes
    exact passes.imp lower.mpr digit.mpr
  · intro all
    refine List.all_eq_true.mpr fun byte member => ?_
    obtain ⟨char, listed, inside⟩ := List.mem_flatMap.mp member
    have limits := (all char listed).imp lower.mp digit.mp
    rw [Lib.encodeChar_ascii (by omega), List.mem_singleton] at inside
    have code : byte.toNat = char.toNat := by
      rw [inside, UInt8.toNat_ofNat']
      omega
    rw [range, code]
    exact limits

/-- **The characters of a labelled text.** -/
theorem mem_of_labelled {value : Str} {separators : List Char}
    (good : labelled value separators = true) :
    value ≠ [] ∧ ∀ char ∈ value, char.isLower = true ∨ char.isDigit = true ∨ char ∈ separators := by
  unfold labelled at good
  rw [Bool.and_eq_true, Bool.not_eq_true', List.isEmpty_eq_false_iff] at good
  obtain ⟨some, all⟩ := good
  refine ⟨some, fun char member => ?_⟩
  rcases @mem_pieces separators value char member with separator | ⟨label, listed, inside⟩
  · exact Or.inr (Or.inr separator)
  · have each := List.all_eq_true.mp all label listed
    rw [Bool.and_eq_true] at each
    exact (label_bytes.mp each.2 char inside).imp_right Or.inl

/-! ### Slug, upstream and hostname -/

/-- `validate_slug`. -/
def validateSlug (slug : Str) : Except Str Unit :=
  if labelled slug ['-'] then .ok ()
  else .error "slug must be lower-case letters and digits, separated by single hyphens".toList

/-- `Ipv4Addr::is_loopback`, `is_link_local`, `is_unspecified` or `is_multicast`. -/
def reservedV4 (ip : BitVec 32) : Bool :=
  ip.extractLsb' 24 8 = 127 || ip.extractLsb' 16 16 = 0xa9fe || ip = 0 || ip.extractLsb' 28 4 = 0xe

/-- `Ipv6Addr::is_loopback`, `is_unspecified` or `is_multicast`, or link-local. -/
def reservedV6 (ip : BitVec 128) : Bool :=
  ip = 1 || ip = 0 || ip.extractLsb' 120 8 = 0xff || ip.extractLsb' 112 16 &&& 0xffc0 = 0xfe80

/-- A literal that `reject_reserved` refuses. -/
def Host.reserved : Host → Bool
  | .domain _ => false
  | .ipv4 ip => reservedV4 ip
  | .ipv6 ip => reservedV6 ip

/-- `reject_reserved`. -/
def rejectReserved (bad : Bool) : Except Str Unit :=
  if bad then .error "upstream_url names a loopback, link-local or multicast address".toList
    else .ok ()

/-- The ports of the services themselves. -/
def infrastructurePorts : List UInt16 := [5432, 6379, 389, 636, 3268, 3269]

/-- The names of the services themselves. -/
def infrastructureServices : List Str :=
  ["localhost", "postgres", "redis", "keycloak", "backend", "oauth2-proxy", "nginx", "samba-ad",
    "dc01"].map String.toList

variable (urls : UrlParser)

/-- `validate_upstream`. -/
def validateUpstream (raw : Str) : Except Str Unit :=
  match urls.parse raw with
  | none => .error "upstream_url is not a URL".toList
  | some url =>
    if ¬ (url.scheme = "http".toList ∨ url.scheme = "https".toList) then
      .error "upstream_url must be http or https".toList
    else if url.username ≠ [] ∨ url.password.isSome then
      .error "upstream_url must not carry credentials".toList
    else if ¬ (url.path = [] ∨ url.path = ['/']) ∨ url.query.isSome ∨ url.fragment.isSome then
      .error "upstream_url must be scheme://host:port with no path".toList
    else if url.port.any infrastructurePorts.contains then
      .error "upstream_url names an infrastructure port".toList
    else
      match url.host with
      | none => .error "upstream_url has no host".toList
      | some (.domain name) =>
        let name := makeAsciiLowercase name
        if ¬ labelled name ['.', '-'] then
          .error "upstream_url host may hold only letters, digits, '.' and '-'".toList
        else if infrastructureServices.contains name then
          .error "upstream_url names an infrastructure service".toList
        else .ok ()
      | some (.ipv4 ip) => rejectReserved (reservedV4 ip)
      | some (.ipv6 ip) => rejectReserved (reservedV6 ip)

/-- The portal's own host, lower-cased, where its origin can be parsed. -/
def portalHost (portalOrigin : Str) : Option Str :=
  ((urls.parse portalOrigin).bind Url.hostStr).map makeAsciiLowercase

/-- `validate_hostname`. -/
def validateHostname (hostname portalOrigin : Str) : Except Str Str :=
  let hostname := makeAsciiLowercase hostname
  if ¬ labelled hostname ['.', '-'] then
    .error ("external_hostname must be lower-case letters and digits, separated by single dots " ++
      "or hyphens").toList
  else if ["portal".toList, "auth".toList].contains (firstPiece '.' hostname) then
    .error "external_hostname uses a reserved name (portal, auth)".toList
  else if portalHost urls portalOrigin = some hostname then
    .error "external_hostname is the portal's own hostname".toList
  else .ok hostname

/-! ### Name and icon -/

/-- `LABEL_MAX`. -/
def labelMax : Nat := 200

/-- `validate_name`. -/
def validateName (raw : Str) : Except Str Str :=
  let name := trim raw
  if name = [] then .error "name is required".toList
  else if name.length > labelMax then
    .error ("name is at most ".toList ++ Nat.toDigits 10 labelMax ++ " characters".toList)
  else .ok name

/-- `validate_icon`. -/
def validateIcon (raw : Option Str) : Except Str (Option Str) :=
  let icon := (raw.map trim).filter (· ≠ [])
  if icon.any (·.length > labelMax) then
    .error ("icon is at most ".toList ++ Nat.toDigits 10 labelMax ++ " characters".toList)
  else .ok icon

/-! ### What is accepted -/

/-- A chain of checks passes where each does. -/
theorem bind_eq_ok {α β : Type} {check : Except Str α} {next : α → Except Str β} {value : β} :
    (check >>= next) = .ok value ↔ ∃ checked, check = .ok checked ∧ next checked = .ok value := by
  cases check with
  | error why =>
    refine iff_of_false (fun same => nomatch same) ?_
    rintro ⟨_, same, _⟩
    cases same
  | ok checked =>
    refine ⟨fun passed => ⟨checked, rfl, passed⟩, ?_⟩
    rintro ⟨_, same, passed⟩
    cases same
    exact passed

theorem rejectReserved_eq_ok {bad : Bool} (accepted : rejectReserved bad = .ok ()) :
    bad = false := by
  cases bad with
  | false => rfl
  | true => cases accepted

variable {urls}

theorem validateSlug_eq_ok {slug : Str} :
    validateSlug slug = .ok () ↔ labelled slug ['-'] = true := by
  unfold validateSlug
  by_cases good : labelled slug ['-'] = true
  · rw [if_pos good]
    exact iff_of_true rfl good
  · rw [if_neg good]
    exact iff_of_false (fun same => nomatch same) good

/-- **An accepted upstream** has one of the two schemes and a host, a named one in labels and no
reserved literal. -/
theorem validateUpstream_eq_ok {raw : Str} (accepted : validateUpstream urls raw = .ok ()) :
    ∃ url host, urls.parse raw = some url ∧
      (url.scheme = "http".toList ∨ url.scheme = "https".toList) ∧ url.host = some host ∧
      (∀ name, host = .domain name → labelled (makeAsciiLowercase name) ['.', '-'] = true) ∧
      host.reserved = false := by
  unfold validateUpstream at accepted
  cases parsed : urls.parse raw with
  | none =>
    rw [parsed] at accepted
    cases accepted
  | some url =>
    rw [parsed] at accepted
    dsimp only at accepted
    split at accepted
    · cases accepted
    · rename_i scheme
      refine ⟨url, ?_⟩
      split at accepted
      · cases accepted
      · split at accepted
        · cases accepted
        · split at accepted
          · cases accepted
          · split at accepted
            · cases accepted
            · rename_i name host
              refine ⟨_, rfl, not_not.mp scheme, host, fun other same => ?_, rfl⟩
              obtain rfl := Host.domain.inj same
              by_contra bad
              rw [if_pos bad] at accepted
              cases accepted
            · rename_i ip host
              exact ⟨_, rfl, not_not.mp scheme, host, fun _ same => (nomatch same),
                rejectReserved_eq_ok accepted⟩
            · rename_i ip host
              exact ⟨_, rfl, not_not.mp scheme, host, fun _ same => (nomatch same),
                rejectReserved_eq_ok accepted⟩

/-- **An accepted hostname** is lower-cased, in labels, and neither a reserved one nor the
portal's. -/
theorem validateHostname_eq_ok {hostname portalOrigin stored : Str} :
    validateHostname urls hostname portalOrigin = .ok stored ↔
      stored = makeAsciiLowercase hostname ∧ labelled stored ['.', '-'] = true ∧
      firstPiece '.' stored ∉ ["portal".toList, "auth".toList] ∧
      portalHost urls portalOrigin ≠ some stored := by
  unfold validateHostname
  dsimp only
  constructor
  · intro accepted
    split at accepted
    · cases accepted
    · rename_i good
      split at accepted
      · cases accepted
      · rename_i free
        split at accepted
        · cases accepted
        · rename_i different
          cases accepted
          exact ⟨rfl, not_not.mp good, mt List.contains_iff_mem.mpr free, different⟩
  · rintro ⟨rfl, good, free, different⟩
    rw [if_neg (not_not.mpr good), if_neg (mt List.contains_iff_mem.mp free),
      if_neg different]

end OpenBerat.Validate
