/-
**Percent decoding and cutting a path.**

No escape contains `/` or `;`, so decoding commutes with cutting a path there.

* `decodeText_append`: the commutation, for the decoded text and for the outcome.
* `decodes_iff_segments`: a path decodes exactly when all of its segments do.
* `decodes_unparametered`, `decodes_resolve`: dropping `;params` and resolving dot segments leave a
  path that decodes one that decodes.
-/

import OpenBerat.Policy.Place

namespace OpenBerat.Policy

open Lib (rooted)

/-! ### Decoding and cutting -/

/-- A character that no escape contains. -/
structure Separator (sep : Char) : Prop where
  ascii : sep.toNat < 0x80
  noPercent : UInt8.ofNat sep.toNat ≠ 37
  noDigit : toDigit16 (UInt8.ofNat sep.toNat) = none

theorem separator_slash : Separator '/' := ⟨by decide, by decide, by decide⟩

theorem separator_semicolon : Separator ';' := ⟨by decide, by decide, by decide⟩

theorem percentDecodeBytes_plain {byte : UInt8} (noPercent : byte ≠ 37) (rest : Bytes) :
    percentDecodeBytes (byte :: rest) = (percentDecodeBytes rest).map (byte :: ·) := by
  rw [percentDecodeBytes.eq_def]
  exact if_pos noPercent

theorem map_eq_ok {β γ : Type} {result : Except Deny β} {change : β → γ} {out : γ} :
    result.map change = .ok out ↔ ∃ value, result = .ok value ∧ change value = out := by
  cases result with
  | error reason =>
    exact iff_of_false (fun same => by cases same) (fun ⟨_, same, _⟩ => by cases same)
  | ok value =>
    refine ⟨fun same => ⟨value, rfl, Except.ok.inj same⟩, fun ⟨_, same, changed⟩ => ?_⟩
    cases same
    rw [← changed]
    rfl

theorem percentDecodeBytes_escape {high low highDigit lowDigit : UInt8}
    (highOk : toDigit16 high = some highDigit) (lowOk : toDigit16 low = some lowDigit)
    (rest : Bytes) :
    percentDecodeBytes (37 :: high :: low :: rest) =
      (percentDecodeBytes rest).map ((highDigit * 16 + lowDigit) :: ·) := by
  rw [percentDecodeBytes.eq_def]
  simp only [ne_eq, not_true_eq_false, if_false, highOk, lowOk]

theorem percentDecodeBytes_refused {high low : UInt8}
    (noDigits : toDigit16 high = none ∨ toDigit16 low = none) (rest : Bytes) :
    percentDecodeBytes (37 :: high :: low :: rest) = .error .malformedUri := by
  rw [percentDecodeBytes.eq_def]
  rcases noDigits with none | none
  · simp only [ne_eq, not_true_eq_false, if_false, none]
  · simp only [ne_eq, not_true_eq_false, if_false, none]
    cases toDigit16 high <;> rfl

/-- Induction along the loop: a plain byte, an escape, or one of the three refusals. -/
theorem percentDecodeBytes_induction {motive : Bytes → Prop} (nil : motive [])
    (plain : ∀ byte rest, byte ≠ 37 → motive rest → motive (byte :: rest))
    (escape : ∀ high low highDigit lowDigit rest, toDigit16 high = some highDigit →
      toDigit16 low = some lowDigit → motive rest → motive (37 :: high :: low :: rest))
    (refused : ∀ high low rest, toDigit16 high = none ∨ toDigit16 low = none →
      motive (37 :: high :: low :: rest))
    (bare : motive [37]) (half : ∀ high, motive [37, high]) : ∀ bytes, motive bytes
  | [] => nil
  | byte :: rest => by
    have tail : motive rest :=
      percentDecodeBytes_induction nil plain escape refused bare half rest
    by_cases percent : byte = 37
    · subst percent
      match rest with
      | [] => exact bare
      | [high] => exact half high
      | high :: low :: rest =>
        have behind : motive rest :=
          percentDecodeBytes_induction nil plain escape refused bare half rest
        cases highOk : toDigit16 high with
        | none => exact refused high low rest (Or.inl highOk)
        | some highDigit =>
          cases lowOk : toDigit16 low with
          | none => exact refused high low rest (Or.inr lowOk)
          | some lowDigit => exact escape high low highDigit lowDigit rest highOk lowOk behind
    · exact plain byte rest percent tail

/-- **Percent decoding commutes with cutting at a byte no escape contains.** An escape cannot reach
over the cut, because the byte is no digit. -/
theorem percentDecodeBytes_append {sep : UInt8} (noPercent : sep ≠ 37)
    (noDigit : toDigit16 sep = none) (first second out : Bytes) :
    percentDecodeBytes (first ++ sep :: second) = .ok out ↔
      ∃ left right, percentDecodeBytes first = .ok left ∧ percentDecodeBytes second = .ok right ∧
        out = left ++ sep :: right := by
  have both_refused : ∀ {whole part out : Bytes}, percentDecodeBytes whole = .error .malformedUri →
      percentDecodeBytes part = .error .malformedUri → (percentDecodeBytes whole = .ok out ↔
      ∃ left right, percentDecodeBytes part = .ok left ∧ percentDecodeBytes second = .ok right ∧
        out = left ++ sep :: right) := by
    intro whole part out wholeError partError
    rw [wholeError, partError]
    exact iff_of_false (fun same => by cases same) (fun ⟨_, _, same, _⟩ => by cases same)
  induction first using percentDecodeBytes_induction generalizing out with
  | nil =>
    rw [List.nil_append, percentDecodeBytes_plain noPercent, map_eq_ok]
    constructor
    · rintro ⟨right, same, rfl⟩
      exact ⟨[], right, rfl, same, rfl⟩
    · rintro ⟨left, right, empty, same, rfl⟩
      cases empty
      exact ⟨right, same, rfl⟩
  | plain byte rest plain ih =>
    rw [List.cons_append, percentDecodeBytes_plain plain, percentDecodeBytes_plain plain, map_eq_ok]
    constructor
    · rintro ⟨value, same, rfl⟩
      obtain ⟨left, right, leftOk, rightOk, rfl⟩ := (ih value).mp same
      exact ⟨byte :: left, right, map_eq_ok.mpr ⟨left, leftOk, rfl⟩, rightOk, rfl⟩
    · rintro ⟨whole, right, wholeOk, rightOk, rfl⟩
      obtain ⟨left, leftOk, rfl⟩ := map_eq_ok.mp wholeOk
      exact ⟨_, (ih _).mpr ⟨left, right, leftOk, rightOk, rfl⟩, rfl⟩
  | escape high low highDigit lowDigit rest highOk lowOk ih =>
    rw [List.cons_append, List.cons_append, List.cons_append,
      percentDecodeBytes_escape highOk lowOk, percentDecodeBytes_escape highOk lowOk, map_eq_ok]
    constructor
    · rintro ⟨value, same, rfl⟩
      obtain ⟨left, right, leftOk, rightOk, rfl⟩ := (ih value).mp same
      exact ⟨_ :: left, right, map_eq_ok.mpr ⟨left, leftOk, rfl⟩, rightOk, rfl⟩
    · rintro ⟨whole, right, wholeOk, rightOk, rfl⟩
      obtain ⟨left, leftOk, rfl⟩ := map_eq_ok.mp wholeOk
      exact ⟨_, (ih _).mpr ⟨left, right, leftOk, rightOk, rfl⟩, rfl⟩
  | refused high low rest none =>
    exact both_refused (percentDecodeBytes_refused none _) (percentDecodeBytes_refused none _)
  | bare =>
    refine both_refused ?_ rfl
    cases second with
    | nil => rfl
    | cons low second => exact percentDecodeBytes_refused (Or.inl noDigit) second
  | half high =>
    exact both_refused (percentDecodeBytes_refused (Or.inr noDigit) second) rfl

theorem decodeText_eq_ok {path text : Str} :
    decodeText path = .ok text ↔
      ∃ bytes, percentDecode path = .ok bytes ∧ fromUtf8 bytes = some text := by
  unfold decodeText
  cases percentDecode path with
  | error reason =>
    exact iff_of_false (fun same => by cases same) (fun ⟨_, same, _⟩ => by cases same)
  | ok bytes =>
    simp only [Except.ok.injEq, exists_eq_left']
    cases fromUtf8 bytes with
    | none => exact iff_of_false (fun same => by cases same) (fun same => by cases same)
    | some read => simp

/-- **Decoding commutes with cutting a path at a separator.** -/
theorem decodeText_append {sep : Char} (separator : Separator sep) (first second text : Str) :
    decodeText (first ++ sep :: second) = .ok text ↔
      ∃ left right, decodeText first = .ok left ∧ decodeText second = .ok right ∧
        text = left ++ sep :: right := by
  have bytes : asBytes (first ++ sep :: second) =
      asBytes first ++ UInt8.ofNat sep.toNat :: asBytes second := by
    unfold asBytes
    rw [Lib.utf8_append, Lib.utf8_cons, Lib.encodeChar_ascii separator.ascii]
    rfl
  simp only [decodeText_eq_ok, percentDecode, bytes]
  constructor
  · rintro ⟨out, decoded, served⟩
    obtain ⟨left, right, leftOk, rightOk, rfl⟩ :=
      (percentDecodeBytes_append separator.noPercent separator.noDigit _ _ out).mp decoded
    rw [fromUtf8, Lib.fromUtf8_append_ascii left right separator.ascii] at served
    obtain ⟨leftText, leftRead, rest⟩ := Option.bind_eq_some_iff.mp served
    obtain ⟨rightText, rightRead, rfl⟩ := Option.map_eq_some_iff.mp rest
    exact ⟨leftText, rightText, ⟨left, leftOk, leftRead⟩, ⟨right, rightOk, rightRead⟩, rfl⟩
  · rintro ⟨leftText, rightText, ⟨left, leftOk, leftRead⟩, ⟨right, rightOk, rightRead⟩, rfl⟩
    refine ⟨left ++ UInt8.ofNat sep.toNat :: right,
      (percentDecodeBytes_append separator.noPercent separator.noDigit _ _ _).mpr
        ⟨left, right, leftOk, rightOk, rfl⟩, ?_⟩
    rw [fromUtf8] at leftRead rightRead ⊢
    rw [Lib.fromUtf8_append_ascii left right separator.ascii, leftRead, rightRead]
    rfl

/-! ### What decodes -/

/-- The path has only complete escapes, and they spell valid UTF-8. -/
def Decodes (path : Str) : Prop :=
  ∃ text, decodeText path = .ok text

theorem decodes_nil : Decodes [] := ⟨[], rfl⟩

theorem decodes_append {sep : Char} (separator : Separator sep) {first second : Str} :
    Decodes (first ++ sep :: second) ↔ Decodes first ∧ Decodes second := by
  unfold Decodes
  constructor
  · rintro ⟨text, same⟩
    obtain ⟨left, right, leftOk, rightOk, _⟩ := (decodeText_append separator _ _ _).mp same
    exact ⟨⟨left, leftOk⟩, ⟨right, rightOk⟩⟩
  · rintro ⟨⟨left, leftOk⟩, ⟨right, rightOk⟩⟩
    exact ⟨_, (decodeText_append separator _ _ _).mpr ⟨left, right, leftOk, rightOk, rfl⟩⟩

/-- A path decodes exactly when every segment does. -/
theorem decodes_rooted {segments : List Str} :
    Decodes (rooted '/' segments) ↔ ∀ segment ∈ segments, Decodes segment := by
  have behind : ∀ path, Decodes ('/' :: path) ↔ Decodes path := fun path => by
    rw [← List.nil_append ('/' :: path), decodes_append separator_slash]
    exact and_iff_right decodes_nil
  induction segments with
  | nil => exact iff_of_true decodes_nil (by simp)
  | cons segment segments ih =>
    have cut : Decodes (segment ++ rooted '/' segments) ↔
        Decodes segment ∧ Decodes (rooted '/' segments) := by
      cases segments with
      | nil =>
        rw [Lib.rooted_nil, List.append_nil]
        exact (and_iff_left decodes_nil).symm
      | cons next segments =>
        rw [Lib.rooted_cons, decodes_append separator_slash, behind]
    rw [Lib.rooted_cons, behind, List.forall_mem_cons, cut]
    exact and_congr_right fun _ => ih

theorem decodes_iff_segments {path : Str} :
    Decodes path ↔ ∀ segment ∈ path.splitOn '/', Decodes segment := by
  rw [← decodes_rooted, Lib.rooted_splitOn, ← List.nil_append ('/' :: path),
    decodes_append separator_slash]
  exact (and_iff_right decodes_nil).symm

theorem firstPiece_cut (sep : Char) (text : Str) :
    text = firstPiece sep text ∨ ∃ rest, text = firstPiece sep text ++ sep :: rest := by
  unfold firstPiece
  have joined := @List.intercalate_splitOn _ text _ _ sep
  obtain ⟨head, tail, shape⟩ := List.exists_cons_of_ne_nil (List.splitOn_ne_nil sep text)
  rw [shape] at joined ⊢
  by_cases last : tail = []
  · subst last
    rw [List.intercalate_singleton] at joined
    exact Or.inl joined.symm
  · rw [List.intercalate_cons_of_ne_nil last] at joined
    exact Or.inr ⟨[sep].intercalate tail, by rw [← joined]; simp⟩

/-- Cutting at `;` leaves a decodable segment decodable. -/
theorem decodes_firstPiece {segment : Str} (decodes : Decodes segment) :
    Decodes (firstPiece ';' segment) := by
  rcases firstPiece_cut ';' segment with same | ⟨rest, same⟩
  · rwa [← same]
  · rw [same, decodes_append separator_semicolon] at decodes
    exact decodes.1

theorem not_mem_firstPiece {sep other : Char} {text : Str} (free : other ∉ text) :
    other ∉ firstPiece sep text := by
  rcases firstPiece_cut sep text with same | ⟨rest, same⟩
  · rwa [← same]
  · rw [same, List.mem_append, not_or] at free
    exact free.1

theorem splitOn_unparametered (path : Str) :
    (unparametered path).splitOn '/' = (path.splitOn '/').map (firstPiece ';') := by
  refine List.splitOn_intercalate '/' (fun piece member => ?_) (by simp [List.splitOn_ne_nil])
  obtain ⟨whole, inside, rfl⟩ := List.mem_map.mp member
  exact not_mem_firstPiece (Lib.not_mem_of_mem_splitOn inside)

theorem decodes_unparametered {path : Str} (decodes : Decodes path) :
    Decodes (unparametered path) := by
  rw [decodes_iff_segments, splitOn_unparametered]
  intro piece member
  obtain ⟨whole, inside, rfl⟩ := List.mem_map.mp member
  exact decodes_firstPiece (decodes_iff_segments.mp decodes whole inside)

/-- Resolution only drops segments. -/
theorem resolveSegments_subset (path : Str) : resolveSegments path ⊆ path.splitOn '/' := by
  have run : ∀ (pieces segments : List Str),
      pieces.foldl resolveStep segments ⊆ segments ++ pieces := by
    intro pieces
    induction pieces with
    | nil => exact fun segments => by simp
    | cons piece pieces ih =>
      intro segments kept member
      have once : resolveStep segments piece ⊆ segments ++ [piece] := by
        unfold resolveStep
        split
        · exact List.subset_append_left _ _
        · split
          · exact fun kept member => List.mem_append_left _ (List.dropLast_subset _ member)
          · exact List.Subset.refl _
      rcases List.mem_append.mp (ih _ member) with member | member
      · rw [← List.singleton_append, ← List.append_assoc]
        exact List.mem_append_left _ (once member)
      · exact List.mem_append_right _ (List.mem_cons_of_mem _ member)
  have whole := run (path.splitOn '/') []
  rwa [List.nil_append] at whole

theorem decodes_resolve {path : Str} (decodes : Decodes path) : Decodes (resolve path) := by
  have slash : Decodes ['/'] := by
    rw [show ['/'] = [] ++ '/' :: [] from rfl, decodes_append separator_slash]
    exact ⟨decodes_nil, decodes_nil⟩
  have segments : Decodes (rooted '/' (resolveSegments path)) := decodes_rooted.mpr
    fun kept member => decodes_iff_segments.mp decodes kept (resolveSegments_subset path member)
  rcases resolve_eq path with ⟨_, same⟩ | ⟨last, rfl | rfl, _, same⟩
  · rwa [same]
  · rwa [same, List.append_nil]
  · rw [same, decodes_append separator_slash]
    exact ⟨segments, decodes_nil⟩

/-! ### A path without escapes -/

theorem percentDecodeBytes_of_plain {bytes : Bytes} (plain : 37 ∉ bytes) :
    percentDecodeBytes bytes = .ok bytes := by
  induction bytes with
  | nil => rfl
  | cons byte rest ih =>
    rw [List.mem_cons, not_or] at plain
    rw [percentDecodeBytes_plain (fun same => plain.1 same.symm), ih plain.2]
    rfl

/-- A path without `%` is its own decoding. -/
theorem decodeText_of_plain {path : Str} (plain : '%' ∉ path) : decodeText path = .ok path := by
  refine decodeText_eq_ok.mpr ⟨asBytes path, percentDecodeBytes_of_plain fun member => ?_,
    Lib.fromUtf8_utf8 path⟩
  obtain ⟨first, second, same⟩ := List.append_of_mem member
  obtain ⟨left, right, rfl, _⟩ := @Lib.utf8_split path first second '%' (by decide) same
  exact plain (by simp)

theorem mem_of_mem_resolve {char : Char} (noSlash : char ≠ '/') {path : Str}
    (member : char ∈ resolve path) : char ∈ path := by
  have segments : char ∈ rooted '/' (resolveSegments path) := by
    rcases resolve_eq path with ⟨_, same⟩ | ⟨last, rfl | rfl, _, same⟩
    · rw [same, List.mem_singleton] at member
      exact absurd member noSlash
    · rwa [same, List.append_nil] at member
    · rw [same, List.mem_append, List.mem_singleton] at member
      exact member.resolve_right noSlash
  obtain ⟨segment, kept, inside⟩ := List.mem_flatMap.mp segments
  have inSegment : char ∈ segment := (List.mem_cons.mp inside).resolve_left noSlash
  have whole : char ∈ rooted '/' (path.splitOn '/') :=
    List.mem_flatMap.mpr ⟨segment, resolveSegments_subset path kept,
      List.mem_cons_of_mem _ inSegment⟩
  rw [Lib.rooted_splitOn] at whole
  exact (List.mem_cons.mp whole).resolve_left noSlash

theorem mem_of_mem_unparametered {char : Char} (noSlash : char ≠ '/') {path : Str}
    (member : char ∈ unparametered path) : char ∈ path := by
  have whole : char ∈ rooted '/' ((path.splitOn '/').map (firstPiece ';')) := by
    rw [← splitOn_unparametered, Lib.rooted_splitOn]
    exact List.mem_cons_of_mem _ member
  obtain ⟨piece, cut, inside⟩ := List.mem_flatMap.mp whole
  obtain ⟨segment, kept, rfl⟩ := List.mem_map.mp cut
  have inPiece : char ∈ firstPiece ';' segment := (List.mem_cons.mp inside).resolve_left noSlash
  have inSegment : char ∈ segment := by
    rcases firstPiece_cut ';' segment with same | ⟨rest, same⟩
    · exact same ▸ inPiece
    · rw [same]
      exact List.mem_append_left _ inPiece
  have original : char ∈ rooted '/' (path.splitOn '/') :=
    List.mem_flatMap.mpr ⟨segment, kept, List.mem_cons_of_mem _ inSegment⟩
  rw [Lib.rooted_splitOn] at original
  exact (List.mem_cons.mp original).resolve_left noSlash

end OpenBerat.Policy
