/-
**Where the readings are one.**

On a path with no raw `;`, no raw `\` and no escape that spells a separator or a dot, decoding
commutes with splitting and with resolving, segment by segment, and the three readings are one
string.

* `decodeText_splitOn`: the segments of the decoded path are the decoded segments.
* `decodeText_resolve`: decoding behind resolution is resolution behind decoding.
* `readings_coincide`: the readings, and the decision under them.
-/

import Mathlib.Data.List.Forall2
import OpenBerat.Policy.Canonical

namespace OpenBerat.Policy

open Lib (rooted)

/-! ### What the escapes spell -/

/-- The bytes that the escapes of a path stand for. -/
def escaped : Bytes → Bytes
  | [] => []
  | byte :: rest =>
    if byte ≠ 37 then escaped rest
    else match rest with
      | high :: low :: rest =>
        match toDigit16 high, toDigit16 low with
        | some high, some low => (high * 16 + low) :: escaped rest
        | _, _ => []
      | _ => []

theorem escaped_plain {byte : UInt8} (noPercent : byte ≠ 37) (rest : Bytes) :
    escaped (byte :: rest) = escaped rest := by
  rw [escaped.eq_def]
  exact if_pos noPercent

theorem escaped_escape {high low highDigit lowDigit : UInt8}
    (highOk : toDigit16 high = some highDigit) (lowOk : toDigit16 low = some lowDigit)
    (rest : Bytes) :
    escaped (37 :: high :: low :: rest) = (highDigit * 16 + lowDigit) :: escaped rest := by
  rw [escaped.eq_def]
  simp only [ne_eq, not_true_eq_false, if_false, highOk, lowOk]

/-- **What comes out of decoding**: bytes that stood there, and bytes that were spelled. -/
theorem decoded_bytes {bytes out : Bytes} (decoded : percentDecodeBytes bytes = .ok out) :
    (∀ byte ∈ escaped bytes, byte ∈ out) ∧ (∀ byte ∈ out, byte ∈ bytes ∨ byte ∈ escaped bytes) ∧
      (escaped bytes = [] → out = bytes) ∧ (out = [] → bytes = []) := by
  induction bytes using percentDecodeBytes_induction generalizing out with
  | nil =>
    cases decoded
    exact ⟨fun _ member => member, fun _ member => Or.inl member, fun _ => rfl, fun _ => rfl⟩
  | plain byte rest plain ih =>
    rw [percentDecodeBytes_plain plain] at decoded
    obtain ⟨tail, found, rfl⟩ := map_eq_ok.mp decoded
    obtain ⟨spelled, comes, none, _⟩ := ih found
    rw [escaped_plain plain]
    refine ⟨fun other member => List.mem_cons_of_mem _ (spelled other member),
      fun other member => ?_, fun empty => by rw [none empty], fun empty => nomatch empty⟩
    rcases List.mem_cons.mp member with rfl | later
    · exact Or.inl List.mem_cons_self
    · exact (comes other later).imp_left (List.mem_cons_of_mem _)
  | escape high low highDigit lowDigit rest highOk lowOk ih =>
    rw [percentDecodeBytes_escape highOk lowOk] at decoded
    obtain ⟨tail, found, rfl⟩ := map_eq_ok.mp decoded
    obtain ⟨spelled, comes, _, _⟩ := ih found
    rw [escaped_escape highOk lowOk]
    refine ⟨fun other member => ?_, fun other member => ?_, fun empty => (nomatch empty),
      fun empty => nomatch empty⟩
    · rcases List.mem_cons.mp member with rfl | later
      · exact List.mem_cons_self
      · exact List.mem_cons_of_mem _ (spelled other later)
    · rcases List.mem_cons.mp member with rfl | later
      · exact Or.inr List.mem_cons_self
      · rcases comes other later with old | new
        · exact Or.inl (by simp [old])
        · exact Or.inr (List.mem_cons_of_mem _ new)
  | refused high low rest none =>
    rw [percentDecodeBytes_refused none] at decoded
    cases decoded
  | bare => cases decoded
  | half high => cases decoded

/-- The escapes in front of a byte no escape contains, and those behind it. -/
theorem escaped_append {sep : UInt8} (noPercent : sep ≠ 37) {first left : Bytes}
    (decoded : percentDecodeBytes first = .ok left) (second : Bytes) :
    escaped (first ++ sep :: second) = escaped first ++ escaped second := by
  induction first using percentDecodeBytes_induction generalizing left with
  | nil =>
    rw [List.nil_append, escaped_plain noPercent]
    rfl
  | plain byte rest plain ih =>
    rw [percentDecodeBytes_plain plain] at decoded
    obtain ⟨tail, found, _⟩ := map_eq_ok.mp decoded
    rw [List.cons_append, escaped_plain plain, escaped_plain plain, ih found]
  | escape high low highDigit lowDigit rest highOk lowOk ih =>
    rw [percentDecodeBytes_escape highOk lowOk] at decoded
    obtain ⟨tail, found, _⟩ := map_eq_ok.mp decoded
    rw [List.cons_append, List.cons_append, List.cons_append, escaped_escape highOk lowOk,
      escaped_escape highOk lowOk, ih found, List.cons_append]
  | refused high low rest none =>
    rw [percentDecodeBytes_refused none] at decoded
    cases decoded
  | bare => cases decoded
  | half high => cases decoded

/-! ### Texts whose escapes spell no structure -/

/-- No escape of the text spells `/`, `\` or `.`. -/
def Unstructured (text : Str) : Prop :=
  ∀ byte ∈ escaped (asBytes text), byte ∉ ['/', '\\', '.'].map fun char => UInt8.ofNat char.toNat

theorem unstructured_append {first second left : Str} (decoded : decodeText first = .ok left) :
    Unstructured (first ++ '/' :: second) ↔ Unstructured first ∧ Unstructured second := by
  obtain ⟨bytes, found, _⟩ := decodeText_eq_ok.mp decoded
  have shape : asBytes (first ++ '/' :: second) = asBytes first ++ 47 :: asBytes second := by
    unfold asBytes
    rw [Lib.utf8_append, Lib.utf8_cons, Lib.encodeChar_ascii (by decide)]
    rfl
  unfold Unstructured
  rw [shape, escaped_append (by decide) found]
  exact List.forall_mem_append

/-- A structural character of the decoded text stood there. -/
theorem mem_of_mem_decoded {text out : Str} (free : Unstructured text)
    (decoded : decodeText text = .ok out) {char : Char} (structural : char ∈ ['/', '\\', '.'])
    (member : char ∈ out) : char ∈ text := by
  have ascii : char.toNat < 0x80 := by
    simp only [List.mem_cons, List.not_mem_nil, or_false] at structural
    rcases structural with rfl | rfl | rfl
    · decide
    · decide
    · decide
  obtain ⟨bytes, found, read⟩ := decodeText_eq_ok.mp decoded
  have inside : UInt8.ofNat char.toNat ∈ bytes := by
    rw [← Lib.fromUtf8_eq_some.mp read]
    exact (Lib.ofNat_mem_utf8 ascii).mpr member
  rcases (decoded_bytes found).2.1 _ inside with stood | spelled
  · exact (Lib.ofNat_mem_utf8 ascii).mp stood
  · exact absurd (List.mem_map.mpr ⟨char, structural, rfl⟩) (free _ spelled)

/-- A segment of nothing but dots is written so. -/
theorem dots_iff {text out : Str} (free : Unstructured text) (decoded : decodeText text = .ok out)
    {dots : Str} (all : ∀ char ∈ dots, char = '.') : out = dots ↔ text = dots := by
  obtain ⟨bytes, found, read⟩ := decodeText_eq_ok.mp decoded
  obtain ⟨spelled, _, none, _⟩ := decoded_bytes found
  constructor
  · rintro rfl
    have whole := Lib.fromUtf8_eq_some.mp read
    have empty : escaped (asBytes text) = [] := by
      refine List.eq_nil_iff_forall_not_mem.mpr fun byte member => ?_
      have inside := spelled byte member
      rw [← whole] at inside
      obtain ⟨char, listed, same⟩ := List.mem_flatMap.mp inside
      rw [all char listed, Lib.encodeChar_ascii (by decide), List.mem_singleton] at same
      exact free byte member (by rw [same]; decide)
    have same := none empty
    rw [← whole] at same
    exact (Lib.utf8_injective same).symm
  · rintro rfl
    have plain : '%' ∉ text := fun member => by cases all _ member
    rw [decodeText_of_plain plain] at decoded
    exact (Except.ok.inj decoded).symm

/-! ### Segment by segment -/

/-- The decoded form of a segment that holds no structure. -/
def Decoded (segment text : Str) : Prop :=
  decodeText segment = .ok text ∧ Unstructured segment

theorem decodeText_slash {path text : Str} :
    decodeText ('/' :: path) = .ok text ↔ ∃ rest,
    decodeText path = .ok rest ∧ text = '/' :: rest := by
  rw [← List.nil_append ('/' :: path), decodeText_append separator_slash]
  constructor
  · rintro ⟨left, right, empty, found, rfl⟩
    cases empty
    exact ⟨right, found, rfl⟩
  · rintro ⟨rest, found, rfl⟩
    exact ⟨[], rest, rfl, found, rfl⟩

theorem unstructured_slash {path : Str} : Unstructured ('/' :: path) ↔ Unstructured path := by
  rw [← List.nil_append ('/' :: path), unstructured_append (show decodeText [] = .ok [] from rfl)]
  exact and_iff_right fun _ member => nomatch member

/-- **A path decodes piece by piece.** -/
theorem decodeText_rooted {segments : List Str} {text : Str} :
    decodeText (rooted '/' segments) = .ok text ∧ Unstructured (rooted '/' segments) ↔
      ∃ texts, List.Forall₂ Decoded segments texts ∧ text = rooted '/' texts := by
  induction segments generalizing text with
  | nil =>
    constructor
    · rintro ⟨found, _⟩
      cases found
      exact ⟨[], .nil, rfl⟩
    · rintro ⟨texts, pairs, rfl⟩
      cases pairs
      exact ⟨rfl, fun _ member => nomatch member⟩
  | cons segment segments ih =>
    have cut : ∀ {rest : Str}, decodeText (segment ++ rooted '/' segments) = .ok rest ∧
        Unstructured (segment ++ rooted '/' segments) ↔
        ∃ here texts, Decoded segment here ∧ List.Forall₂ Decoded segments texts ∧
          rest = here ++ rooted '/' texts := by
      intro rest
      cases segments with
      | nil =>
        rw [Lib.rooted_nil, List.append_nil]
        constructor
        · rintro ⟨found, free⟩
          exact ⟨rest, [], ⟨found, free⟩, .nil, (List.append_nil _).symm⟩
        · rintro ⟨here, texts, found, pairs, rfl⟩
          cases pairs
          rw [Lib.rooted_nil, List.append_nil]
          exact found
      | cons next segments =>
        rw [Lib.rooted_cons, decodeText_append separator_slash]
        have tail := fun {text} => @ih text
        rw [Lib.rooted_cons] at tail
        constructor
        · rintro ⟨⟨here, right, found, later, rfl⟩, free⟩
          obtain ⟨freeHere, freeLater⟩ := (unstructured_append found).mp free
          obtain ⟨texts, pairs, same⟩ := tail.mp
            ⟨decodeText_slash.mpr ⟨right, later, rfl⟩, unstructured_slash.mpr freeLater⟩
          exact ⟨here, texts, ⟨found, freeHere⟩, pairs, by rw [same]⟩
        · rintro ⟨here, texts, ⟨found, freeHere⟩, pairs, rfl⟩
          obtain ⟨later, freeLater⟩ := tail.mpr ⟨texts, pairs, rfl⟩
          obtain ⟨right, laterFound, same⟩ := decodeText_slash.mp later
          rw [same]
          exact ⟨⟨here, right, found, laterFound, rfl⟩,
            (unstructured_append found).mpr ⟨freeHere, unstructured_slash.mp freeLater⟩⟩
    rw [Lib.rooted_cons, decodeText_slash, unstructured_slash]
    constructor
    · rintro ⟨⟨rest, found, rfl⟩, free⟩
      obtain ⟨here, texts, decoded, pairs, rfl⟩ := cut.mp ⟨found, free⟩
      exact ⟨here :: texts, .cons decoded pairs, rfl⟩
    · rintro ⟨texts, pairs, rfl⟩
      cases pairs with
      | cons decoded pairs =>
        obtain ⟨found, free⟩ := cut.mpr ⟨_, _, decoded, pairs, rfl⟩
        exact ⟨⟨_, found, rfl⟩, free⟩

theorem Decoded.free {segment text : Str} (decoded : Decoded segment text) (free : '/' ∉ segment) :
    '/' ∉ text :=
  fun member => free (mem_of_mem_decoded decoded.2 decoded.1 (by simp) member)

/-- **Splitting commutes with decoding.** -/
theorem decodeText_splitOn {path text : Str} (decoded : decodeText path = .ok text)
    (free : Unstructured path) : List.Forall₂ Decoded (path.splitOn '/') (text.splitOn '/') := by
  have whole : decodeText (rooted '/' (path.splitOn '/')) = .ok ('/' :: text) ∧
      Unstructured (rooted '/' (path.splitOn '/')) := by
    rw [Lib.rooted_splitOn]
    exact ⟨decodeText_slash.mpr ⟨text, decoded, rfl⟩, unstructured_slash.mpr free⟩
  have apart : ∀ {segments texts : List Str}, List.Forall₂ Decoded segments texts →
      (∀ segment ∈ segments, '/' ∉ segment) → ∀ piece ∈ texts, '/' ∉ piece := by
    intro segments texts pairs
    induction pairs with
    | nil => exact fun _ _ member => nomatch member
    | cons here _ ih =>
      intro free
      rw [List.forall_mem_cons] at free ⊢
      exact ⟨here.free free.1, ih free.2⟩
  obtain ⟨texts, pairs, same⟩ := decodeText_rooted.mp whole
  have split := congrArg (List.splitOn '/') same
  rw [Lib.splitOn_cons_self,
    Lib.splitOn_rooted (apart pairs fun _ member => Lib.not_mem_of_mem_splitOn member)] at split
  rw [(List.cons.inj split).2]
  exact pairs

theorem Decoded.step {before after : List Str} {segment text : Str}
    (pairs : List.Forall₂ Decoded before after) (decoded : Decoded segment text) :
    List.Forall₂ Decoded (resolveStep before segment) (resolveStep after text) := by
  have empty : text = [] ↔ segment = [] :=
    dots_iff decoded.2 decoded.1 fun _ member => nomatch member
  have dot : text = ['.'] ↔ segment = ['.'] := dots_iff decoded.2 decoded.1 (by simp)
  have dots : text = ['.', '.'] ↔ segment = ['.', '.'] := dots_iff decoded.2 decoded.1 (by simp)
  unfold resolveStep
  simp only [empty, dot, dots]
  by_cases skipped : segment = [] ∨ segment = ['.']
  · rw [if_pos skipped, if_pos skipped]
    exact pairs
  · rw [if_neg skipped, if_neg skipped]
    by_cases parent : segment = ['.', '.']
    · rw [if_pos parent, if_pos parent, List.dropLast_eq_take, List.dropLast_eq_take,
        pairs.length_eq]
      exact List.forall₂_take _ pairs
    · rw [if_neg parent, if_neg parent]
      exact List.rel_append pairs (.cons decoded .nil)

/-- Resolution keeps the segments decoded. -/
theorem decoded_resolveSegments {path text : Str} (decoded : decodeText path = .ok text)
    (free : Unstructured path) :
    List.Forall₂ Decoded (resolveSegments path) (resolveSegments text) := by
  have run : ∀ {pieces texts : List Str}, List.Forall₂ Decoded pieces texts →
      ∀ {before after : List Str}, List.Forall₂ Decoded before after →
        List.Forall₂ Decoded (pieces.foldl resolveStep before) (texts.foldl resolveStep after) := by
    intro pieces texts pairs
    induction pairs with
    | nil => exact fun kept => kept
    | cons here _ ih => exact fun kept => ih (here.step kept)
  exact run (decodeText_splitOn decoded free) .nil

theorem exists_cut {path : Str} (slash : ['/'] <+: path) :
    ∃ front last, path = front ++ '/' :: last ∧ '/' ∉ last := by
  obtain ⟨rest, rfl⟩ := slash
  obtain ⟨front, last, shape⟩ :=
    (List.eq_nil_or_concat (rest.splitOn '/')).resolve_left (List.splitOn_ne_nil '/' rest)
  refine ⟨rooted '/' front, last, ?_,
    @Lib.not_mem_of_mem_splitOn _ _ _ rest _ (by rw [shape]; simp)⟩
  show '/' :: rest = _
  rw [← Lib.rooted_splitOn, shape, List.concat_eq_append, Lib.rooted_append, Lib.rooted_cons,
    Lib.rooted_nil, List.append_nil]

theorem keepsSlash_decoded {path text : Str} (slash : ['/'] <+: path)
    (decoded : decodeText path = .ok text) (free : Unstructured path) :
    keepsSlash text = keepsSlash path := by
  obtain ⟨front, last, rfl, apart⟩ := exists_cut slash
  obtain ⟨left, right, found, tail, rfl⟩ := (decodeText_append separator_slash _ _ _).mp decoded
  have freeLast := ((unstructured_append found).mp free).2
  have both : Decoded last right := ⟨tail, freeLast⟩
  rw [Bool.eq_iff_iff, keepsSlash_cut apart, keepsSlash_cut (both.free apart)]
  exact or_congr (dots_iff freeLast tail fun _ member => nomatch member)
    (or_congr (dots_iff freeLast tail (by simp)) (dots_iff freeLast tail (by simp)))

theorem decodeText_written {segments texts : List Str} (pairs : List.Forall₂ Decoded segments texts)
    (slash : Bool) : decodeText (written segments slash) = .ok (written texts slash) := by
  have nothing : Decoded [] [] := ⟨rfl, fun _ member => nomatch member⟩
  have single := (decodeText_rooted.mpr ⟨_, List.rel_append pairs (.cons nothing .nil), rfl⟩).1
  have plain := (decodeText_rooted.mpr ⟨_, pairs, rfl⟩).1
  unfold written
  cases pairs with
  | nil => rfl
  | cons here pairs =>
    rw [if_neg (List.cons_ne_nil _ _), if_neg (List.cons_ne_nil _ _)]
    cases slash with
    | true =>
      dsimp only at single
      rw [Lib.rooted_append, Lib.rooted_append] at single
      exact single
    | false =>
      show decodeText (rooted '/' _ ++ []) = .ok (rooted '/' _ ++ [])
      rw [List.append_nil, List.append_nil]
      exact plain

/-- **Resolution commutes with decoding.** -/
theorem decodeText_resolve {path text : Str} (slash : ['/'] <+: path)
    (decoded : decodeText path = .ok text) (free : Unstructured path) :
    decodeText (resolve path) = .ok (resolve text) := by
  rw [resolve_eq_written, resolve_eq_written, keepsSlash_decoded slash decoded free]
  exact decodeText_written (decoded_resolveSegments decoded free) _

/-! ### The three readings -/

/-- No raw `;`, no raw `\`, and no escape that spells structure. -/
structure Everyday (rawUri : Str) : Prop where
  semicolon : ';' ∉ rawPath rawUri
  backslash : '\\' ∉ rawPath rawUri
  escapes : Unstructured (rawPath rawUri)

instance (text : Str) : Decidable (Unstructured text) :=
  List.decidableBAll _ _

theorem unparametered_of_free {path : Str} (free : ';' ∉ path) : unparametered path = path := by
  unfold unparametered join
  have same : (path.splitOn '/').map (firstPiece ';') = path.splitOn '/' := by
    refine (List.map_congr_left fun segment member => ?_).trans (List.map_id' _)
    rcases firstPiece_cut ';' segment with whole | ⟨rest, cut⟩
    · exact whole.symm
    · have inside : ';' ∈ rooted '/' (path.splitOn '/') := by
        refine List.mem_flatMap.mpr ⟨segment, member, List.mem_cons_of_mem _ ?_⟩
        rw [cut]
        exact List.mem_append_right _ List.mem_cons_self
      rw [Lib.rooted_splitOn] at inside
      exact absurd ((List.mem_cons.mp inside).resolve_left (by decide)) free
  rw [same, List.intercalate_splitOn]

/-- One decision three times over. -/
theorem combine_same (decision : Decision) : combine [decision, decision, decision] = decision := by
  cases decision with
  | allow => rfl
  | deny reason => cases reason <;> rfl

/-- **The readings of an ordinary path are one**, and the decision is the one on that path. -/
theorem readings_coincide {rawUri path : Str} (normal : normalise rawUri = .ok path)
    (everyday : Everyday rawUri) :
    readings rawUri = .ok [path, path, path] ∧
      ∀ rules now, Policy.decide true rules rawUri now = decidePath rules path now := by
  obtain ⟨slash, decoded, found, same⟩ := normalise_eq_ok normal
  have noBackslash : '\\' ∉ decoded := fun member =>
    everyday.backslash (mem_of_mem_decoded everyday.escapes found (by simp) member)
  have replaced : replaceChar '\\' '/' decoded = decoded := replaceChar_eq_self noBackslash
  rw [replaced] at same
  have second : decodeLower (resolve (rawPath rawUri)) = .ok path := by
    unfold decodeLower
    rw [decodeText_resolve slash found everyday.escapes, same]
    rfl
  have read : readings rawUri = .ok [path, path, path] := by
    unfold readings
    rw [normal]
    dsimp only
    rw [unparametered_of_free everyday.semicolon, second]
  refine ⟨read, fun rules now => ?_⟩
  unfold Policy.decide
  rw [read]
  exact combine_same _

/-- A path with escapes and dots, and more behind it. -/
theorem readings_coincide_docs :
    readings "/docs/%C3%BC/./../Guide%20one/?v=1;2".toList =
        .ok ["/docs/guide one/".toList, "/docs/guide one/".toList, "/docs/guide one/".toList] ∧
      ∀ rules now, Policy.decide true rules "/docs/%C3%BC/./../Guide%20one/?v=1;2".toList now =
        decidePath rules "/docs/guide one/".toList now :=
  readings_coincide (by decide +kernel) ⟨by decide +kernel, by decide +kernel, by decide +kernel⟩

end OpenBerat.Policy
