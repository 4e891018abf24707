/-
**The addresses an upstream reaches.**

The library reads every spelling of an address to the same bits, so the refusals are about networks.
An IPv4-mapped IPv6 address is one of another family for the check and the IPv4 address inside for
the connection.

* `reserved_iff`: what is refused are the networks.
* `reached_iff`: an accepted literal reaches a reserved address exactly when it is a mapped one of a
  reserved IPv4 address.
-/

import OpenBerat.Lib.Network
import OpenBerat.Nginx.Render

namespace OpenBerat.Upstream

open Lib (Network)
open Validate (Host Url UrlParser reservedV4 reservedV6 validateUpstream)

/-! ### Reserved addresses -/

/-- An address of one family or the other. -/
inductive Address
  | v4 (ip : BitVec 32)
  | v6 (ip : BitVec 128)

/-- `127.0.0.0/8`, `169.254.0.0/16`, `0.0.0.0/32` and `224.0.0.0/4`. -/
def reserved4 : List (Network 32) :=
  [⟨8, 127, Nat.le_of_ble_eq_true rfl⟩, ⟨16, 0xa9fe, Nat.le_of_ble_eq_true rfl⟩, ⟨32, 0, le_rfl⟩,
    ⟨4, 0xe, Nat.le_of_ble_eq_true rfl⟩]

/-- `::1/128`, `::/128`, `ff00::/8` and `fe80::/10`. -/
def reserved6 : List (Network 128) :=
  [⟨128, 1, le_rfl⟩, ⟨128, 0, le_rfl⟩, ⟨8, 0xff, Nat.le_of_ble_eq_true rfl⟩,
    ⟨10, 0x3fa, Nat.le_of_ble_eq_true rfl⟩]

/-- Loopback, link-local, unspecified or multicast. -/
def Address.Reserved : Address → Prop
  | .v4 ip => ∃ network ∈ reserved4, ip ∈ network
  | .v6 ip => ∃ network ∈ reserved6, ip ∈ network

theorem reservedV4_iff {ip : BitVec 32} : reservedV4 ip = true ↔ (Address.v4 ip).Reserved := by
  unfold reservedV4 Address.Reserved reserved4
  simp only [List.exists_mem_cons_iff, List.not_mem_nil, false_and, exists_false, or_false,
    Network.mem_iff, Bool.or_eq_true, decide_eq_true_eq, or_assoc, BitVec.extractLsb'_eq_self,
    Nat.sub_self, Nat.reduceSub]

theorem reservedV6_iff {ip : BitVec 128} : reservedV6 ip = true ↔ (Address.v6 ip).Reserved := by
  have link : ip.extractLsb' 112 16 &&& 0xffc0 = 0xfe80 ↔ ip.extractLsb' 118 10 = 0x3fa := by
    have mask : (0xffc0 : BitVec 16) = BitVec.allOnes 16 <<< (16 - 10) := by decide
    have value : (0xfe80 : BitVec 16) = (0x3fa : BitVec 10).setWidth 16 <<< (16 - 10) := by decide
    have within : (ip.extractLsb' 112 16).extractLsb' 6 10 = ip.extractLsb' 118 10 := by
      ext index bound
      rw [BitVec.getElem_extractLsb', BitVec.getElem_extractLsb', BitVec.getLsbD_extractLsb',
        decide_eq_true (by omega), Bool.true_and, ← Nat.add_assoc]
    rw [mask, value, Lib.masked_eq_iff (Nat.le_of_ble_eq_true rfl), within]
  unfold reservedV6 Address.Reserved reserved6
  simp only [List.exists_mem_cons_iff, List.not_mem_nil, false_and, exists_false, or_false,
    Network.mem_iff, Bool.or_eq_true, decide_eq_true_eq, or_assoc, BitVec.extractLsb'_eq_self,
    Nat.sub_self, Nat.reduceSub, link]

/-! ### What a connection reaches -/

/-- The IPv6 address that stands for an IPv4 one. -/
def mapped (ip : BitVec 32) : BitVec 128 :=
  (0xffff : BitVec 96) ++ ip

/-- The address behind a literal. -/
def reaches : Host → Option Address
  | .domain _ => none
  | .ipv4 ip => some (.v4 ip)
  | .ipv6 ip => some (if ip.extractLsb' 32 96 = 0xffff then .v4 (ip.extractLsb' 0 32) else .v6 ip)

theorem mapped_iff {ip : BitVec 128} {inner : BitVec 32} :
    ip = mapped inner ↔ ip.extractLsb' 32 96 = 0xffff ∧ ip.extractLsb' 0 32 = inner := by
  constructor
  · rintro rfl
    exact ⟨BitVec.extractLsb'_append_eq_left, BitVec.extractLsb'_append_eq_right⟩
  · rintro ⟨high, low⟩
    have whole : ip.extractLsb' 32 96 ++ ip.extractLsb' 0 32 = ip :=
      BitVec.extractLsb'_append_extractLsb'
    rw [← whole, high, low]
    rfl

theorem reaches_mapped (ip : BitVec 32) : reaches (.ipv6 (mapped ip)) = some (.v4 ip) := by
  obtain ⟨high, low⟩ := mapped_iff.mp (rfl : mapped ip = mapped ip)
  unfold reaches
  dsimp only
  rw [if_pos high, low]

/-- A literal that passes reaches a reserved address only through the mapped range. -/
theorem reserved_iff {host : Host} {address : Address} (passes : host.reserved = false)
    (reached : reaches host = some address) :
    address.Reserved ↔ ∃ ip, host = .ipv6 (mapped ip) ∧ (Address.v4 ip).Reserved := by
  refine ⟨fun reserved => ?_, ?_⟩
  swap
  · rintro ⟨ip, rfl, reserved⟩
    rw [reaches_mapped] at reached
    cases reached
    exact reserved
  cases host with
  | domain name => cases reached
  | ipv4 ip =>
    cases reached
    rw [Host.reserved, reservedV4_iff.mpr reserved] at passes
    cases passes
  | ipv6 ip =>
    by_cases high : ip.extractLsb' 32 96 = 0xffff
    · unfold reaches at reached
      dsimp only at reached
      rw [if_pos high] at reached
      cases reached
      exact ⟨_, congrArg Host.ipv6 (mapped_iff.mpr ⟨high, rfl⟩), reserved⟩
    · unfold reaches at reached
      dsimp only at reached
      rw [if_neg high] at reached
      cases reached
      rw [Host.reserved, reservedV6_iff.mpr reserved] at passes
      cases passes

/-- **The reserved addresses that an accepted literal reaches** are those inside a mapped one. -/
theorem reached_iff (urls : UrlParser) (raw : Str) (url : Url) (host : Host) (address : Address)
    (accepted : validateUpstream urls raw = .ok ()) (parsed : urls.parse raw = some url)
    (literal : url.host = some host) (reached : reaches host = some address) :
    ¬ address.Reserved ↔ ¬ ∃ ip, host = .ipv6 (mapped ip) ∧ (Address.v4 ip).Reserved := by
  obtain ⟨other, named, again, _, shown, _, passes⟩ := Validate.validateUpstream_eq_ok accepted
  obtain rfl := Option.some.inj (parsed.symm.trans again)
  obtain rfl := Option.some.inj (literal.symm.trans shown)
  exact not_congr (reserved_iff passes reached)

/-- **So are those that the generated configuration reaches.** -/
theorem rendered_iff {urls : UrlParser} {applications : List Nginx.Application} {portalOrigin : Str}
    {target : Nginx.Target} {address : Address}
    (member : target ∈ Nginx.renderable urls applications portalOrigin) :
    ∃ url host, urls.parse target.app.upstreamUrl = some url ∧ url.host = some host ∧
      (reaches host = some address →
        (address.Reserved ↔ ∃ ip, host = .ipv6 (mapped ip) ∧ (Address.v4 ip).Reserved)) := by
  obtain ⟨app, _, _, found⟩ := Nginx.mem_renderable.mp member
  obtain ⟨_, url, accepted, parsed, _, _, rfl, _⟩ := Nginx.targetOf_eq_some.mp found
  obtain ⟨other, host, again, _, shown, _, passes⟩ :=
    Validate.validateUpstream_eq_ok (Nginx.validateRow_eq_ok.mp accepted).2.1
  exact ⟨other, host, again, shown, reserved_iff passes⟩

/-! ### Loopback in the other family -/

namespace Mapped

/-- A URL of a literal, on port 8080. -/
def literal (host : Host) (hostStr : Str) : Url where
  scheme := "http".toList
  username := []
  password := none
  host := some host
  hostStr := some hostStr
  port := some 8080
  path := ['/']
  query := none
  fragment := none

/-- An upstream at the IPv4-mapped loopback address. -/
def raw : Str := "http://[::ffff:127.0.0.1]:8080".toList

/-- An upstream in a private network. -/
def lan : Str := "http://10.0.0.5:8080".toList

/-- `127.0.0.1`. -/
def loopback : BitVec 32 := 0x7f000001

/-- A library that parses these two. -/
def urls : UrlParser where
  parse text :=
    if text = raw then some (literal (.ipv6 (mapped loopback)) "[::ffff:7f00:1]".toList)
    else if text = lan then some (literal (.ipv4 0x0a000005) "10.0.0.5".toList)
    else none

end Mapped

open Mapped in
theorem reached_lan : ¬ (Address.v4 0x0a000005).Reserved ↔
    ¬ ∃ ip, Host.ipv4 0x0a000005 = .ipv6 (mapped ip) ∧ (Address.v4 ip).Reserved :=
  reached_iff urls lan (literal (.ipv4 0x0a000005) "10.0.0.5".toList) (.ipv4 0x0a000005)
    (.v4 0x0a000005) (by rfl) (by rfl) rfl rfl

open Mapped in
/-- **Loopback is accepted** as a mapped address. -/
theorem mapped_accepted : validateUpstream urls raw = .ok () ∧
    ∃ url host address, urls.parse raw = some url ∧ url.host = some host ∧
      reaches host = some address ∧ address.Reserved :=
  ⟨by rfl, _, .ipv6 (mapped loopback), .v4 loopback, by rfl, rfl, reaches_mapped loopback,
    reservedV4_iff.mp (by rfl)⟩

end OpenBerat.Upstream
