/-
**Patterns: their grammar and their meaning.**

The validator accepts a pattern where normalising it without its star changes nothing; the matcher
trims, resolves and compares text. Both speak of one list of segments.

* `validatePathPattern_eq_ok`: the accepted patterns.
* `matchesPattern_written`: what such a pattern matches.
* `pattern_meaning`: the two together, and that no two patterns mean the same but the two spellings
  of the whole application.
-/

import OpenBerat.Policy.Canonical
import OpenBerat.Validate

namespace OpenBerat.Policy

open Lib (rooted)
open Validate (validatePathPattern)

/-- A segment of a pattern. -/
def PatternSegment (segment : Str) : Prop :=
  segment ≠ [] ∧ segment ≠ ['.'] ∧ segment ≠ ['.', '.'] ∧
    ∀ char ∈ segment, char ∉ ['/', '%', '\\', '?', '#', '*'] ∧ isControl char = false ∧
      char.isUpper = false

/-- The pattern is spelled with these segments: nothing, or each behind a separator and `/*`. -/
def Spelled (raw : Str) (segments : List Str) : Prop :=
  raw = [] ∧ segments = [] ∨ raw = rooted '/' segments ++ ['/', '*']

/-- The segments of a path that are not empty. -/
def filled (path : Str) : List Str :=
  (path.splitOn '/').filter (· ≠ [])

theorem PatternSegment.path {segment : Str} (good : PatternSegment segment) :
    PathSegment segment ∧ '?' ∉ segment ∧ '#' ∉ segment ∧ '*' ∉ segment := by
  obtain ⟨some, dot, dots, chars⟩ := good
  have absent : ∀ char ∈ ['/', '%', '\\', '?', '#', '*'], char ∉ segment :=
    fun char special member => (chars char member).1 special
  refine ⟨⟨⟨some, dot, dots, absent _ (by simp)⟩,
    fun char member => ⟨?_, ?_, (chars char member).2⟩⟩,
    absent _ (by simp), absent _ (by simp), absent _ (by simp)⟩
  · rintro rfl
    exact absent _ (by simp) member
  · rintro rfl
    exact absent _ (by simp) member

theorem PathSegment.pattern {segment : Str} (good : PathSegment segment) (query : '?' ∉ segment)
    (fragment : '#' ∉ segment) (star : '*' ∉ segment) : PatternSegment segment := by
  obtain ⟨⟨some, dot, dots, free⟩, kept⟩ := good
  refine ⟨some, dot, dots, fun char member => ⟨fun special => ?_, (kept char member).2.2⟩⟩
  simp only [List.mem_cons, List.not_mem_nil, or_false] at special
  rcases special with rfl | rfl | rfl | rfl | rfl | rfl
  · exact free member
  · exact (kept _ member).1 rfl
  · exact (kept _ member).2.1 rfl
  · exact query member
  · exact fragment member
  · exact star member

/-- With a separator behind, a written path is its segments and that separator. -/
theorem written_true (segments : List Str) :
    written segments true = rooted '/' segments ++ ['/'] := by
  unfold written
  by_cases none : segments = []
  · rw [if_pos none, none]
    rfl
  · rw [if_neg none, if_pos rfl]

/-! ### The grammar -/

/-- A path that normalising leaves alone holds neither of the characters that end a path. -/
theorem ends_of_fixed {probe : Str} (fixed : normalise probe = .ok probe) :
    '?' ∉ probe ∧ '#' ∉ probe := by
  obtain ⟨decoded, found, fragment, _, _, same⟩ := normalise_inv fixed
  obtain ⟨segments, slash, good, shape⟩ := normalise_image fixed
  have percent : '%' ∉ probe := by
    rw [shape]
    intro member
    rcases mem_written member with slash | ⟨segment, listed, inside⟩
    · cases slash
    · exact ((good segment listed).kept _ inside).1 rfl
  have query : '?' ∉ probe := by
    intro member
    have plain : '%' ∉ rawPath probe := not_mem_firstPiece percent
    rw [decodeText_of_plain plain] at found
    obtain rfl := Except.ok.inj found
    rw [same] at member
    obtain ⟨char, inside, lowered⟩ := List.mem_map.mp member
    rw [(toLower_eq_iff (by decide)).mp lowered] at inside
    have resolved := mem_of_mem_resolve (by decide) inside
    obtain ⟨cut, _⟩ := mem_of_mem_replaceChar resolved (by decide)
    exact Lib.not_mem_of_mem_splitOn (List.head_mem (List.splitOn_ne_nil '?' probe))
      (by rwa [rawPath, firstPiece, List.headD_eq_head?_getD, List.head?_eq_some_head
        (List.splitOn_ne_nil '?' probe)] at cut)
  refine ⟨query, ?_⟩
  have whole := rawPath_append query (Or.inl rfl)
  rw [List.append_nil] at whole
  rwa [whole] at fragment

/-- **The accepted patterns.** -/
theorem validatePathPattern_eq_ok {raw : Str} : validatePathPattern raw = .ok () ↔
    ∃ segments, (∀ segment ∈ segments, PatternSegment segment) ∧ Spelled raw segments := by
  constructor
  · intro accepted
    rcases Validate.shape_of_validatePathPattern accepted with rfl | ⟨base, rfl, star, fixed⟩
    · exact ⟨[], fun _ member => (nomatch member), Or.inl ⟨rfl, rfl⟩⟩
    · obtain ⟨query, fragment⟩ := ends_of_fixed fixed
      obtain ⟨segments, slash, good, shape⟩ := normalise_image fixed
      have ordinary : ∀ segment ∈ segments, Ordinary segment :=
        fun segment member => (good segment member).ordinary
      have base_eq : base = rooted '/' segments := by
        by_cases none : segments = []
        · rw [none] at shape ⊢
          have lengths := congrArg List.length shape
          rw [List.length_append] at lengths
          exact List.length_eq_zero_iff.mp
            (Nat.add_right_cancel (lengths.trans (Nat.zero_add 1).symm))
        · have ends : keepsSlash (base ++ '/' :: []) = true :=
            (keepsSlash_cut List.not_mem_nil).mpr (Or.inl rfl)
          rw [shape, keepsSlash_written none ordinary] at ends
          rw [ends, written_true] at shape
          exact (List.append_inj' shape rfl).1
      refine ⟨segments, fun segment member => ?_, Or.inr (by rw [base_eq])⟩
      have absent : ∀ char, char ∉ base → char ∉ segment := by
        intro char free inside
        rw [base_eq] at free
        exact free (List.mem_flatMap.mpr ⟨segment, member, List.mem_cons_of_mem _ inside⟩)
      exact (good segment member).pattern
        (absent _ fun inside => query (List.mem_append_left _ inside))
        (absent _ fun inside => fragment (List.mem_append_left _ inside)) (absent _ star)
  · rintro ⟨segments, good, ⟨rfl, _⟩ | rfl⟩
    · rfl
    · have star : '*' ∉ written segments true := by
        intro member
        rcases mem_written member with same | ⟨segment, listed, inside⟩
        · cases same
        · exact (good segment listed).path.2.2.2 inside
      have fixed := normalise_written (fun segment member =>
        ⟨(good segment member).path.1, (good segment member).path.2.1,
          (good segment member).path.2.2.1⟩) true
      have filledIn : rooted '/' segments ++ ['/', '*'] ≠ [] :=
        List.append_ne_nil_of_right_ne_nil _ (by decide)
      have subtree : endsWith "/*".toList (rooted '/' segments ++ ['/', '*']) = true :=
        List.isSuffixOf_iff_suffix.mpr (List.suffix_append _ _)
      have probe : (rooted '/' segments ++ ['/', '*']).dropLast = written segments true := by
        rw [written_true]
        show (rooted '/' segments ++ (['/'] ++ ['*'])).dropLast = _
        rw [← List.append_assoc, List.dropLast_concat]
      unfold validatePathPattern
      rw [if_neg filledIn, if_neg (not_not.mpr subtree), probe]
      dsimp only
      rw [if_neg star, fixed]
      exact if_pos rfl

/-! ### The meaning -/

theorem place_written {segments : List Str} (good : ∀ segment ∈ segments, PathSegment segment)
    (slash : Bool) : place (written segments slash) = segments := by
  have kept : ∀ segment ∈ segments, plain segment = true := by
    intro segment member
    obtain ⟨some, dot, dots, _⟩ := (good segment member).ordinary
    exact plain_iff.mpr ⟨some, dot, dots, (good segment member).lowered⟩
  unfold place
  rw [splitOn_written (fun segment member => (good segment member).ordinary.2.2.2), List.tail_cons,
    List.takeWhile_append_of_pos kept]
  split
  · exact List.append_nil _
  · exact List.append_nil _

theorem filled_written {segments : List Str} (good : ∀ segment ∈ segments, PathSegment segment)
    (slash : Bool) : filled (written segments slash) = segments := by
  unfold filled
  have all : segments.filter (· ≠ []) = segments :=
    List.filter_eq_self.mpr fun segment member =>
      decide_eq_true (good segment member).ordinary.1
  rw [splitOn_written (fun segment member => (good segment member).ordinary.2.2.2),
    List.filter_cons_of_neg (by decide), List.filter_append, all]
  split
  · exact List.append_nil _
  · exact List.append_nil _

/-- The root of an accepted pattern is its segments. -/
theorem patternRoot_spelled {raw : Str} {segments : List Str}
    (good : ∀ segment ∈ segments, PatternSegment segment) (spelled : Spelled raw segments) :
    patternRoot raw = segments := by
  have lowered : segments.map makeAsciiLowercase = segments :=
    (List.map_congr_left fun segment member => (good segment member).path.1.lowered).trans
      (List.map_id' _)
  rcases spelled with ⟨rfl, rfl⟩ | rfl
  · rfl
  · have trimmed :
        trimEndMatches '*' (rooted '/' segments ++ ['/', '*']) = written segments true := by
      rw [written_true]
      unfold trimEndMatches
      show (rooted '/' segments ++ (['/'] ++ ['*'])).rdropWhile _ = _
      rw [← List.append_assoc, List.rdropWhile_concat_pos _ _ _ (by decide),
        List.rdropWhile_concat_neg _ _ _ (by decide)]
    unfold patternRoot
    rw [trimmed, resolveSegments_written
      (fun segment member => (good segment member).path.1.ordinary), lowered]

/-- **What an accepted pattern matches.** -/
theorem matchesPattern_written {raw path uri : Str} {segments : List Str}
    (good : ∀ segment ∈ segments, PatternSegment segment) (spelled : Spelled raw segments)
    (normal : normalise uri = .ok path) :
    matchesPattern raw path = true ↔ segments <+: filled path := by
  obtain ⟨others, slash, paths, rfl⟩ := normalise_image normal
  rw [matchesPattern_iff (slash_prefix_written ..), patternRoot_spelled good spelled,
    place_written paths, filled_written paths]

/-- **The grammar of patterns and what they mean.** -/
theorem pattern_meaning :
    (∀ raw, validatePathPattern raw = .ok () ↔
      ∃ segments, (∀ segment ∈ segments, PatternSegment segment) ∧ Spelled raw segments) ∧
    (∀ raw segments, (∀ segment ∈ segments, PatternSegment segment) → Spelled raw segments →
      ∀ uri path, normalise uri = .ok path →
        (matchesPattern raw path = true ↔ segments <+: filled path)) ∧
    ∀ raw other, validatePathPattern raw = .ok () → validatePathPattern other = .ok () →
      (∀ uri path, normalise uri = .ok path →
        (matchesPattern raw path = true ↔ matchesPattern other path = true)) →
      raw = other ∨ raw = [] ∧ other = "/*".toList ∨ raw = "/*".toList ∧ other = [] := by
  refine ⟨fun raw => validatePathPattern_eq_ok, fun raw segments good spelled uri path normal =>
    matchesPattern_written good spelled normal, fun raw other accepted also same => ?_⟩
  obtain ⟨first, good, spelled⟩ := validatePathPattern_eq_ok.mp accepted
  obtain ⟨second, fine, also⟩ := validatePathPattern_eq_ok.mp also
  have paths : ∀ {segments : List Str}, (∀ segment ∈ segments, PatternSegment segment) →
      normalise (written segments false) = .ok (written segments false) ∧
        filled (written segments false) = segments := by
    intro segments good
    exact ⟨normalise_written (fun segment member => ⟨(good segment member).path.1,
      (good segment member).path.2.1, (good segment member).path.2.2.1⟩) false,
      filled_written (fun segment member => (good segment member).path.1) false⟩
  have below : second <+: first := by
    obtain ⟨normal, segments⟩ := paths good
    have matched := (matchesPattern_written good spelled normal).mpr (by rw [segments])
    have agreed := (matchesPattern_written fine also normal).mp ((same _ _ normal).mp matched)
    rwa [segments] at agreed
  have above : first <+: second := by
    obtain ⟨normal, segments⟩ := paths fine
    have matched := (matchesPattern_written fine also normal).mpr (by rw [segments])
    have agreed := (matchesPattern_written good spelled normal).mp ((same _ _ normal).mpr matched)
    rwa [segments] at agreed
  obtain rfl : first = second := above.eq_of_length_le below.length_le
  rcases spelled with ⟨rfl, rfl⟩ | rfl
  · rcases also with ⟨rfl, _⟩ | rfl
    · exact Or.inl rfl
    · exact Or.inr (Or.inl ⟨rfl, rfl⟩)
  · rcases also with ⟨rfl, rfl⟩ | rfl
    · exact Or.inr (Or.inr ⟨rfl, rfl⟩)
    · exact Or.inl rfl

end OpenBerat.Policy
