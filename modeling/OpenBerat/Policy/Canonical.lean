/-
**The paths a normal form can be.**

A normal form is the root, or segments that no pass changes with a separator in front of each and
perhaps one behind. Resolving such a path is the identity, and so is normalising it where it holds
neither of the two characters that end a path.

* `keepsSlash_cut`: whether a trailing separator is kept hangs on the last segment.
* `normalise_image`, `exists_normalise`: what `normalise` answers with.
* `normalise_uncut`, `normalise_written`: what it leaves alone.
-/

import OpenBerat.Policy.Rewriting

namespace OpenBerat.Policy

open Lib (rooted)

/-! ### The trailing separator -/

theorem suffix_cut {front tail last : Str} (free : '/' ∉ tail) (freeLast : '/' ∉ last) :
    '/' :: tail <:+ front ++ '/' :: last ↔ last = tail := by
  constructor
  · rintro ⟨other, same⟩
    have pieces := congrArg (List.splitOn '/') same
    rw [List.splitOn_append_cons_self, List.splitOn_append_cons_self,
      List.splitOn_eq_singleton free, List.splitOn_eq_singleton freeLast] at pieces
    exact (List.singleton_injective (List.append_inj' pieces rfl).2).symm
  · rintro rfl
    exact List.suffix_append _ _

/-- **A trailing separator is kept** behind an empty segment or one of dots. -/
theorem keepsSlash_cut {front last : Str} (free : '/' ∉ last) :
    keepsSlash (front ++ '/' :: last) = true ↔ last = [] ∨ last = ['.'] ∨ last = ['.', '.'] := by
  unfold keepsSlash endsWith
  rw [Bool.or_eq_true, Bool.or_eq_true, List.isSuffixOf_iff_suffix, List.isSuffixOf_iff_suffix,
    List.isSuffixOf_iff_suffix, or_assoc]
  exact or_congr (suffix_cut List.not_mem_nil free)
    (or_congr (suffix_cut (by decide) free) (suffix_cut (by decide) free))

/-! ### Resolved paths -/

/-- A path out of its segments. -/
def written (segments : List Str) (slash : Bool) : Str :=
  if segments = [] then ['/'] else rooted '/' segments ++ if slash then ['/'] else []

theorem resolve_eq_written (path : Str) :
    resolve path = written (resolveSegments path) (keepsSlash path) := by
  unfold written resolve join
  dsimp only
  by_cases none : resolveSegments path = []
  · rw [if_pos none, if_neg fun both => both.1 none, none]
    rfl
  · rw [if_neg none, ← Lib.rooted_eq_intercalate '/' none]
    by_cases slash : keepsSlash path = true
    · rw [if_pos ⟨none, slash⟩, if_pos slash]
    · rw [if_neg fun both => slash both.2, if_neg slash]

theorem mem_written {segments : List Str} {slash : Bool} {char : Char}
    (member : char ∈ written segments slash) :
    char = '/' ∨ ∃ segment ∈ segments, char ∈ segment := by
  unfold written at member
  by_cases none : segments = []
  · rw [if_pos none] at member
    exact Or.inl (List.mem_singleton.mp member)
  · rw [if_neg none] at member
    rcases List.mem_append.mp member with inside | behind
    · obtain ⟨segment, listed, inside⟩ := List.mem_flatMap.mp inside
      exact (List.mem_cons.mp inside).imp_right fun inside => ⟨segment, listed, inside⟩
    · cases slash with
      | true => exact Or.inl (List.mem_singleton.mp behind)
      | false => cases behind

theorem slash_prefix_written (segments : List Str) (slash : Bool) :
    ['/'] <+: written segments slash := by
  unfold written
  cases segments with
  | nil => exact List.prefix_refl _
  | cons segment segments => exact ⟨_, rfl⟩

theorem splitOn_written {segments : List Str} (free : ∀ segment ∈ segments, '/' ∉ segment)
    (slash : Bool) : (written segments slash).splitOn '/' =
      [] :: (segments ++ if segments = [] ∨ slash = true then [[]] else []) := by
  unfold written
  by_cases none : segments = []
  · rw [if_pos none, if_pos (Or.inl none), none]
    rfl
  · rw [if_neg none]
    cases slash with
    | true =>
      have apart : rooted '/' segments ++ ['/'] = rooted '/' (segments ++ [[]]) := by
        rw [Lib.rooted_append]
        rfl
      rw [if_pos rfl, if_pos (Or.inr rfl), apart, Lib.splitOn_rooted]
      intro segment member
      rcases List.mem_append.mp member with inside | last
      · exact free segment inside
      · rw [List.mem_singleton.mp last]
        exact List.not_mem_nil
    | false =>
      rw [if_neg Bool.false_ne_true, List.append_nil, Lib.splitOn_rooted free,
        if_neg (not_or.mpr ⟨none, Bool.false_ne_true⟩), List.append_nil]

theorem resolveSegments_written {segments : List Str}
    (ordinary : ∀ segment ∈ segments, Ordinary segment) (slash : Bool) :
    resolveSegments (written segments slash) = segments := by
  have whole : ∀ rest : List Str, rest = [] ∨ rest = [[]] →
      ([] :: (segments ++ rest)).foldl resolveStep [] = segments := by
    intro rest ends
    rw [List.foldl_cons, List.foldl_append]
    show rest.foldl resolveStep (segments.foldl resolveStep []) = segments
    rw [foldl_ordinary ordinary, List.nil_append]
    rcases ends with rfl | rfl
    · rfl
    · rfl
  unfold resolveSegments
  rw [splitOn_written fun segment member => (ordinary segment member).2.2.2]
  split
  · exact whole _ (Or.inr rfl)
  · exact whole _ (Or.inl rfl)

theorem keepsSlash_written {segments : List Str} (some : segments ≠ [])
    (ordinary : ∀ segment ∈ segments, Ordinary segment) (slash : Bool) :
    keepsSlash (written segments slash) = slash := by
  unfold written
  rw [if_neg some]
  cases slash with
  | true =>
    rw [if_pos rfl]
    exact (keepsSlash_cut List.not_mem_nil).mpr (Or.inl rfl)
  | false =>
    obtain ⟨front, last, rfl⟩ := (List.eq_nil_or_concat segments).resolve_left some
    obtain ⟨filled, dot, dots, free⟩ := ordinary last (by simp)
    rw [if_neg Bool.false_ne_true, List.append_nil, List.concat_eq_append, Lib.rooted_append,
      Lib.rooted_cons, Lib.rooted_nil, List.append_nil, Bool.eq_false_iff, Ne, keepsSlash_cut free]
    rintro (none | none | none)
    · exact filled none
    · exact dot none
    · exact dots none

/-- **A resolved path resolves to itself.** -/
theorem resolve_written {segments : List Str} (ordinary : ∀ segment ∈ segments, Ordinary segment)
    (slash : Bool) : resolve (written segments slash) = written segments slash := by
  rw [resolve_eq_written, resolveSegments_written ordinary]
  by_cases none : segments = []
  · unfold written
    rw [if_pos none, if_pos none]
  · rw [keepsSlash_written none ordinary]

theorem makeAsciiLowercase_written (segments : List Str) (slash : Bool) :
    makeAsciiLowercase (written segments slash) =
      written (segments.map makeAsciiLowercase) slash := by
  unfold written
  by_cases none : segments = []
  · rw [if_pos none, none]
    rfl
  · rw [if_neg none, if_neg (mt List.map_eq_nil_iff.mp none), makeAsciiLowercase_append,
      makeAsciiLowercase_rooted]
    cases slash with
    | true => rfl
    | false => rfl

/-! ### The normal form -/

/-- A segment of a normal form. -/
structure PathSegment (segment : Str) : Prop where
  ordinary : Ordinary segment
  kept : ∀ char ∈ segment, char ≠ '%' ∧ char ≠ '\\' ∧ isControl char = false ∧ char.isUpper = false

theorem PathSegment.lowered {segment : Str} (good : PathSegment segment) :
    makeAsciiLowercase segment = segment :=
  makeAsciiLowercase_eq_self fun char inside => (good.kept char inside).2.2.2

theorem normalise_inv {rawUri path : Str} (accepted : normalise rawUri = .ok path) :
    ∃ decoded, decodeText (rawPath rawUri) = .ok decoded ∧ '#' ∉ rawPath rawUri ∧ '%' ∉ decoded ∧
      (∀ char ∈ decoded, isControl char = false) ∧
      path = makeAsciiLowercase (resolve (replaceChar '\\' '/' decoded)) := by
  obtain ⟨_, decoded, found, same⟩ := normalise_eq_ok accepted
  unfold normalise at accepted
  dsimp only at accepted
  split at accepted
  · cases accepted
  · rename_i passed
    rw [found] at accepted
    dsimp only at accepted
    split at accepted
    · cases accepted
    · rename_i percent
      split at accepted
      · cases accepted
      · rename_i control
        refine ⟨decoded, found, (not_or.mp passed).2, percent, fun char member => ?_, same⟩
        rw [Bool.not_eq_true, List.any_eq_false] at control
        exact Bool.eq_false_iff.mpr (control char member)

/-- Lower-casing makes no control character. -/
theorem isControl_toLower {char : Char} (plain : isControl char = false) :
    isControl char.toLower = false := by
  by_contra control
  rw [Bool.not_eq_false] at control
  have noLetter := isAlpha_of_isControl control
  rw [(toLower_eq_iff noLetter).mp rfl, control] at plain
  cases plain

theorem mem_of_mem_segments {path segment : Str} (member : segment ∈ resolveSegments path)
    {char : Char} (inside : char ∈ segment) : char ∈ path := by
  have whole : char ∈ rooted '/' (path.splitOn '/') :=
    List.mem_flatMap.mpr ⟨segment, resolveSegments_subset path member,
      List.mem_cons_of_mem _ inside⟩
  rw [Lib.rooted_splitOn] at whole
  refine (List.mem_cons.mp whole).resolve_left ?_
  rintro rfl
  exact (resolveSegments_ordinary path segment member).2.2.2 inside

theorem mem_of_mem_replaceChar {text : Str} {char : Char}
    (member : char ∈ replaceChar '\\' '/' text) (other : char ≠ '/') :
    char ∈ text ∧ char ≠ '\\' := by
  obtain ⟨before, found, same⟩ := List.mem_map.mp member
  by_cases backslash : before = '\\'
  · rw [if_pos backslash] at same
    exact absurd same.symm other
  · rw [if_neg backslash] at same
    rw [← same]
    exact ⟨found, backslash⟩

/-- **What `normalise` answers with.** -/
theorem normalise_image {rawUri path : Str} (accepted : normalise rawUri = .ok path) :
    ∃ segments slash, (∀ segment ∈ segments, PathSegment segment) ∧
      path = written segments slash := by
  obtain ⟨decoded, _, _, percent, control, rfl⟩ := normalise_inv accepted
  refine ⟨(resolveSegments (replaceChar '\\' '/' decoded)).map makeAsciiLowercase,
    keepsSlash (replaceChar '\\' '/' decoded), fun segment member => ?_, ?_⟩
  · obtain ⟨kept, inside, rfl⟩ := List.mem_map.mp member
    have ordinary := resolveSegments_ordinary _ kept inside
    obtain ⟨stays, free⟩ := ordinary.lowered
    obtain ⟨some, dot, dots, _⟩ := plain_iff.mp stays
    refine ⟨⟨some, dot, dots, free⟩, fun char member => ?_⟩
    obtain ⟨before, found, rfl⟩ := List.mem_map.mp member
    have other : before ≠ '/' := by
      rintro rfl
      exact ordinary.2.2.2 found
    obtain ⟨known, backslash⟩ := mem_of_mem_replaceChar (mem_of_mem_segments inside found) other
    refine ⟨fun same => ?_, fun same => ?_, isControl_toLower (control before known),
      isUpper_toLower before⟩
    · rw [(toLower_eq_iff (by decide)).mp same] at known
      exact percent known
    · exact backslash ((toLower_eq_iff (by decide)).mp same)
  · rw [resolve_eq_written, makeAsciiLowercase_written]

/-- A normal form comes out of each of its spellings. -/
theorem normalise_spells_written {segments : List Str}
    (good : ∀ segment ∈ segments, PathSegment segment) {slash : Bool} {uri : Str}
    (spelled : SpelledAs (written segments slash) uri) (noQuery : '?' ∉ uri)
    (noFragment : '#' ∉ uri) :
    normalise uri = .ok (written segments slash) := by
  have kept : ∀ char ∈ written segments slash, char ≠ '%' ∧ char ≠ '\\' ∧ isControl char = false ∧
      char.isUpper = false := by
    intro char member
    rcases mem_written member with rfl | ⟨segment, listed, inside⟩
    · decide
    · exact (good segment listed).kept char inside
  have noPercent : '%' ∉ written segments slash := fun member => (kept _ member).1 rfl
  have noControl : ∀ char ∈ written segments slash, isControl char = false :=
    fun char member => (kept char member).2.2.1
  have normal := normalise_spelled spelled (Or.inl rfl) noQuery noFragment noPercent noControl
  rw [List.append_nil] at normal
  have replaced : replaceChar '\\' '/' (written segments slash) = written segments slash :=
    replaceChar_eq_self fun member => (kept _ member).2.1 rfl
  have lowered : makeAsciiLowercase (written segments slash) = written segments slash :=
    makeAsciiLowercase_eq_self fun char member => (kept char member).2.2.2
  rw [normal, replaced, resolve_written fun segment member => (good segment member).ordinary,
    lowered]

/-- A normal form that nothing cuts is its own spelling. -/
theorem normalise_uncut {segments : List Str} (good : ∀ segment ∈ segments, PathSegment segment)
    {slash : Bool} (noQuery : '?' ∉ written segments slash)
    (noFragment : '#' ∉ written segments slash) :
    normalise (written segments slash) = .ok (written segments slash) :=
  normalise_spells_written good (spelledAs_self (slash_prefix_written segments slash)) noQuery
    noFragment

/-- **What `normalise` leaves alone.** -/
theorem normalise_written {segments : List Str}
    (good : ∀ segment ∈ segments, PathSegment segment ∧ '?' ∉ segment ∧ '#' ∉ segment)
    (slash : Bool) : normalise (written segments slash) = .ok (written segments slash) := by
  have absent : ∀ char, char ≠ '/' → (∀ segment ∈ segments, char ∉ segment) →
      char ∉ written segments slash := by
    intro char other free member
    rcases mem_written member with same | ⟨segment, listed, inside⟩
    · exact other same
    · exact free segment listed inside
  exact normalise_uncut (fun segment member => (good segment member).1)
    (absent '?' (by decide) fun segment member => (good segment member).2.1)
    (absent '#' (by decide) fun segment member => (good segment member).2.2)

/-! ### Every normal form -/

/-- The two characters that end a path, as escapes. -/
def shield (char : Char) : Str :=
  if char = '?' then "%3f".toList else if char = '#' then "%23".toList else [char]

theorem spells_shield (text : Str) : Spells (asBytes text) (asBytes (text.flatMap shield)) := by
  unfold asBytes
  induction text with
  | nil => exact .nil
  | cons char text ih =>
    rw [List.flatMap_cons, Lib.utf8_append, Lib.utf8_cons]
    by_cases query : char = '?'
    · subst query
      exact .escape 63 false false ih
    · by_cases fragment : char = '#'
      · subst fragment
        exact .escape 35 false false ih
      · have stays : shield char = [char] := (if_neg query).trans (if_neg fragment)
        rw [stays, Lib.utf8_cons, Lib.utf8_nil, List.append_nil]
        exact (spells_self _).append ih

theorem not_mem_shield (text : Str) : '?' ∉ text.flatMap shield ∧ '#' ∉ text.flatMap shield := by
  have each : ∀ char, '?' ∉ shield char ∧ '#' ∉ shield char := by
    intro char
    unfold shield
    split_ifs with query fragment
    · decide
    · decide
    · exact ⟨fun member => query (List.mem_singleton.mp member).symm,
        fun member => fragment (List.mem_singleton.mp member).symm⟩
  constructor
  · intro member
    obtain ⟨char, _, inside⟩ := List.mem_flatMap.mp member
    exact (each char).1 inside
  · intro member
    obtain ⟨char, _, inside⟩ := List.mem_flatMap.mp member
    exact (each char).2 inside

/-- **Every normal form is an answer.** -/
theorem exists_normalise {segments : List Str} (good : ∀ segment ∈ segments, PathSegment segment)
    (slash : Bool) : ∃ uri, normalise uri = .ok (written segments slash) := by
  obtain ⟨tail, shape⟩ := slash_prefix_written segments slash
  have free := not_mem_shield tail
  refine ⟨'/' :: tail.flatMap shield, normalise_spells_written good ?_ ?_ ?_⟩
  · rw [← shape]
    exact ⟨tail, asBytes (tail.flatMap shield), rfl, rfl, spells_shield tail⟩
  · exact List.not_mem_cons_of_ne_of_not_mem (by decide) free.1
  · exact List.not_mem_cons_of_ne_of_not_mem (by decide) free.2

/-- **A retraction onto the normal forms.** -/
theorem normalise_retraction :
    (∀ path, (∃ uri, normalise uri = .ok path) ↔ ∃ segments slash,
      (∀ segment ∈ segments, PathSegment segment) ∧ path = written segments slash) ∧
    (∀ segments slash, (∀ segment ∈ segments, PathSegment segment) →
      '?' ∉ written segments slash → '#' ∉ written segments slash →
        normalise (written segments slash) = .ok (written segments slash)) ∧
    ∀ uri, (∀ path, normalise uri = .ok path → '?' ∉ path ∧ '#' ∉ path) →
      (normalise uri).bind normalise = normalise uri := by
  refine ⟨fun path => ⟨?_, ?_⟩, fun segments slash good noQuery noFragment =>
    normalise_uncut good noQuery noFragment, fun uri free => ?_⟩
  · rintro ⟨uri, accepted⟩
    exact normalise_image accepted
  · rintro ⟨segments, slash, good, rfl⟩
    exact exists_normalise good slash
  · cases accepted : normalise uri with
    | error reason => rfl
    | ok path =>
      obtain ⟨segments, slash, good, rfl⟩ := normalise_image accepted
      obtain ⟨noQuery, noFragment⟩ := free _ accepted
      exact normalise_uncut good noQuery noFragment

end OpenBerat.Policy
