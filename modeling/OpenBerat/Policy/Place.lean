/-
**Where a path lies, and what a pattern covers.**

The place of a path is the list of its leading ordinary segments; the root of a pattern is the list
of segments it resolves to. Matching text against text is then comparing lists:

* `matchesPattern_iff`: a pattern matches a path exactly when its root is an initial part of the
  path's place. The character-level boundary check and the trimming of separators are all in here.
* `decidePath_eq_verdict`: the decision on one path is the deny-overrides verdict of the live
  rules' grants at its place.
* `exists_rules`: every list of grants on ordinary segments is the grant list of a rule list, so
  nothing the pattern language can name is lost by looking at grants.
-/

import Mathlib.Data.List.Basic
import Mathlib.Tactic.Common
import OpenBerat.Lib.Subtree
import OpenBerat.Policy.Decide

namespace OpenBerat.Policy

open Lib (rooted Grant Verdict verdict)

/-! ### Lower case -/

/-- Lower-casing only ever produces a letter from a letter. -/
theorem toLower_eq_iff {char other : Char} (noLetter : other.isAlpha = false) :
    char.toLower = other ↔ char = other := by
  constructor
  · intro same
    rcases toLower_cases char with ⟨_, kept⟩ | ⟨upper, moved⟩
    · exact kept.symm.trans same
    · have bounds := isUpper_iff.mp upper
      have lower : other.isLower = true := by
        rw [same] at moved
        unfold Char.isLower
        rw [Bool.and_eq_true, decide_eq_true_iff, decide_eq_true_iff]
        constructor
        · exact UInt32.le_iff_toNat_le.mpr (show 97 ≤ other.toNat by omega)
        · exact UInt32.le_iff_toNat_le.mpr (show other.toNat ≤ 122 by omega)
      unfold Char.isAlpha at noLetter
      rw [lower, Bool.or_true] at noLetter
      cases noLetter
  · rintro rfl
    refine toLower_of_not_upper (Bool.eq_false_iff.mpr fun upper => ?_)
    unfold Char.isAlpha at noLetter
    rw [upper, Bool.true_or] at noLetter
    cases noLetter

@[simp] theorem makeAsciiLowercase_idem (text : Str) :
    makeAsciiLowercase (makeAsciiLowercase text) = makeAsciiLowercase text := by
  unfold makeAsciiLowercase
  rw [List.map_map]
  exact List.map_congr_left fun char _ => toLower_of_not_upper (isUpper_toLower char)

@[simp] theorem makeAsciiLowercase_nil : makeAsciiLowercase [] = [] := rfl

@[simp] theorem makeAsciiLowercase_append (first second : Str) :
    makeAsciiLowercase (first ++ second) =
      makeAsciiLowercase first ++ makeAsciiLowercase second :=
  List.map_append

theorem makeAsciiLowercase_eq_self {text : Str} (lower : ∀ char ∈ text, char.isUpper = false) :
    makeAsciiLowercase text = text := by
  refine (List.map_congr_left fun char member => ?_).trans (List.map_id' _)
  exact toLower_of_not_upper (lower char member)

/-- Lower-casing does not make a text of non-letters out of another one. -/
theorem makeAsciiLowercase_eq_iff {text other : Str}
    (noLetters : ∀ char ∈ other, char.isAlpha = false) :
    makeAsciiLowercase text = other ↔ text = other := by
  induction other generalizing text with
  | nil => exact List.map_eq_nil_iff
  | cons head tail ih =>
    cases text with
    | nil => exact ⟨fun same => absurd same (by simp), fun same => absurd same (by simp)⟩
    | cons char text =>
      show char.toLower :: makeAsciiLowercase text = head :: tail ↔ _
      rw [List.cons.injEq, List.cons.injEq, toLower_eq_iff (noLetters head List.mem_cons_self),
        ih fun char member => noLetters char (List.mem_cons_of_mem _ member)]

theorem slash_mem_makeAsciiLowercase {text : Str} :
    '/' ∈ makeAsciiLowercase text ↔ '/' ∈ text := by
  show '/' ∈ text.map Char.toLower ↔ _
  rw [List.mem_map]
  constructor
  · rintro ⟨char, member, same⟩
    rwa [← (toLower_eq_iff (by decide)).mp same]
  · exact fun member => ⟨'/', member, by decide⟩

theorem makeAsciiLowercase_rooted (segments : List Str) :
    makeAsciiLowercase (rooted '/' segments) = rooted '/' (segments.map makeAsciiLowercase) := by
  induction segments with
  | nil => rfl
  | cons segment segments ih =>
    rw [Lib.rooted_cons, List.map_cons, Lib.rooted_cons, ← ih, ← makeAsciiLowercase_append]
    rfl

/-! ### Segments -/

/-- A segment `resolve` keeps. -/
def Ordinary (segment : Str) : Prop :=
  segment ≠ [] ∧ segment ≠ ['.'] ∧ segment ≠ ['.', '.'] ∧ '/' ∉ segment

/-- A segment that resolution and lower-casing leave alone. -/
def plain (segment : Str) : Bool :=
  segment ≠ [] ∧ segment ≠ ['.'] ∧ segment ≠ ['.', '.'] ∧
    makeAsciiLowercase segment = segment

theorem plain_iff {segment : Str} :
    plain segment = true ↔ segment ≠ [] ∧ segment ≠ ['.'] ∧ segment ≠ ['.', '.'] ∧
      makeAsciiLowercase segment = segment := by
  unfold plain
  rw [decide_eq_true_iff]

/-- The lower-cased form of a kept segment is kept, and plain. -/
theorem Ordinary.lowered {segment : Str} (ordinary : Ordinary segment) :
    plain (makeAsciiLowercase segment) = true ∧ '/' ∉ makeAsciiLowercase segment := by
  obtain ⟨some, dot, dots, free⟩ := ordinary
  have noLetters : ∀ char ∈ ['.', '.'], char.isAlpha = false := by simp
  have noLetter : ∀ char ∈ ['.'], char.isAlpha = false := by simp
  refine ⟨plain_iff.mpr ⟨?_, ?_, ?_, makeAsciiLowercase_idem segment⟩, ?_⟩
  · exact fun same => some ((makeAsciiLowercase_eq_iff (by simp)).mp same)
  · exact fun same => dot ((makeAsciiLowercase_eq_iff noLetter).mp same)
  · exact fun same => dots ((makeAsciiLowercase_eq_iff noLetters).mp same)
  · exact fun member => free (slash_mem_makeAsciiLowercase.mp member)

theorem resolveStep_keeps (segment : Str) (segments : List Str) (some : segment ≠ [])
    (dot : segment ≠ ['.']) (dots : segment ≠ ['.', '.']) :
    resolveStep segments segment = segments ++ [segment] := by
  unfold resolveStep
  rw [if_neg (not_or.mpr ⟨some, dot⟩), if_neg dots]

/-- One step keeps every segment ordinary. -/
theorem resolveStep_ordinary {segments : List Str} {segment : Str} (free : '/' ∉ segment)
    (ordinary : ∀ kept ∈ segments, Ordinary kept) :
    ∀ kept ∈ resolveStep segments segment, Ordinary kept := by
  unfold resolveStep
  by_cases skipped : segment = [] ∨ segment = ['.']
  · rwa [if_pos skipped]
  · rw [if_neg skipped]
    by_cases dots : segment = ['.', '.']
    · rw [if_pos dots]
      exact fun kept member => ordinary kept (List.dropLast_subset _ member)
    · rw [if_neg dots]
      intro kept member
      rcases List.mem_append.mp member with member | member
      · exact ordinary kept member
      · rw [List.mem_singleton] at member
        subst member
        exact ⟨(not_or.mp skipped).1, (not_or.mp skipped).2, dots, free⟩

theorem resolveSegments_ordinary (path : Str) :
    ∀ kept ∈ resolveSegments path, Ordinary kept := by
  have run : ∀ (pieces segments : List Str), (∀ piece ∈ pieces, '/' ∉ piece) →
      (∀ kept ∈ segments, Ordinary kept) →
      ∀ kept ∈ pieces.foldl resolveStep segments, Ordinary kept := by
    intro pieces
    induction pieces with
    | nil => exact fun segments _ ordinary => ordinary
    | cons piece pieces ih =>
      intro segments free ordinary
      exact ih _ (fun later member => free later (List.mem_cons_of_mem _ member))
        (resolveStep_ordinary (free piece List.mem_cons_self) ordinary)
  exact run _ [] (fun piece member => Lib.not_mem_of_mem_splitOn member) (by simp)

/-- `resolve` writes its segments back behind separators, and perhaps one more separator. -/
theorem resolve_eq (path : Str) :
    (resolveSegments path = [] ∧ resolve path = ['/']) ∨
      ∃ slash, (slash = [] ∨ slash = ['/']) ∧ resolveSegments path ≠ [] ∧
        resolve path = rooted '/' (resolveSegments path) ++ slash := by
  unfold resolve join
  by_cases none : resolveSegments path = []
  · refine Or.inl ⟨none, ?_⟩
    show '/' :: ['/'].intercalate (resolveSegments path) ++ _ = ['/']
    rw [if_neg fun both => both.1 none, none]
    rfl
  · refine Or.inr ⟨if resolveSegments path ≠ [] ∧ keepsSlash path then ['/'] else [], ?_, none, ?_⟩
    · split
      · exact Or.inr rfl
      · exact Or.inl rfl
    · rw [Lib.rooted_eq_intercalate '/' none]

theorem slash_prefix_resolve (path : Str) : ['/'] <+: resolve path := by
  unfold resolve
  exact ⟨_, rfl⟩

/-! ### Roots of patterns -/

/-- The segments a pattern resolves to, in lower case. -/
def patternRoot (pattern : Str) : List Str :=
  (resolveSegments (trimEndMatches '*' pattern)).map makeAsciiLowercase

theorem patternRoot_plain {pattern segment : Str} (member : segment ∈ patternRoot pattern) :
    plain segment = true ∧ '/' ∉ segment := by
  obtain ⟨kept, inside, rfl⟩ := List.mem_map.mp member
  exact (resolveSegments_ordinary _ kept inside).lowered

/-- A rooted list of nonempty separator-free segments does not end with the separator. -/
theorem trimEndMatches_rooted {segments : List Str}
    (nonempty : ∀ segment ∈ segments, segment ≠ [] ∧ '/' ∉ segment) :
    trimEndMatches '/' (rooted '/' segments) = rooted '/' segments := by
  unfold trimEndMatches
  rw [List.rdropWhile_eq_self_iff]
  intro written
  rcases List.eq_nil_or_concat segments with rfl | ⟨front, last, rfl⟩
  · exact absurd rfl written
  · obtain ⟨lastNe, free⟩ := nonempty last (by simp)
    rw [beq_iff_eq]
    intro same
    have tail : (rooted '/' (front.concat last)).getLast written = last.getLast lastNe := by
      simp [rooted, lastNe]
    exact free (same ▸ tail ▸ List.getLast_mem lastNe)

/-- **The text `matches` compares with is the rooted form of the pattern's root.** -/
theorem patternText_eq (pattern : Str) :
    patternText pattern = rooted '/' (patternRoot pattern) := by
  have nonempty : ∀ segment ∈ patternRoot pattern, segment ≠ [] ∧ '/' ∉ segment :=
    fun segment member => ⟨(plain_iff.mp (patternRoot_plain member).1).1,
      (patternRoot_plain member).2⟩
  unfold patternText
  rcases resolve_eq (trimEndMatches '*' pattern) with ⟨none, same⟩ | ⟨slash, ends, _, same⟩
  · rw [same, patternRoot, none]
    rfl
  · rw [same, makeAsciiLowercase_append, makeAsciiLowercase_rooted]
    show trimEndMatches '/' (rooted '/' (patternRoot pattern) ++ makeAsciiLowercase slash) = _
    rcases ends with rfl | rfl
    · rw [makeAsciiLowercase_nil, List.append_nil, trimEndMatches_rooted nonempty]
    · show (rooted '/' (patternRoot pattern) ++ ['/']).rdropWhile (· == '/') = _
      rw [List.rdropWhile_concat_pos _ _ _ (by decide)]
      exact trimEndMatches_rooted nonempty

/-! ### Places of paths -/

/-- The leading plain segments of a path. -/
def place (path : Str) : List Str :=
  (path.splitOn '/').tail.takeWhile plain

theorem place_plain {path segment : Str} (member : segment ∈ place path) :
    plain segment = true ∧ '/' ∉ segment :=
  ⟨List.mem_takeWhile_imp member, Lib.not_mem_of_mem_splitOn
    (List.tail_subset _ ((List.takeWhile_prefix _).subset member))⟩

theorem any_guarded {β : Type} {guard : Prop} [Decidable guard] {value : β} {test : β → Bool} :
    (if guard then some value else none).any test = true ↔ guard ∧ test value = true := by
  by_cases holds : guard <;> simp [holds]

/-- The three ways to match, as one cut at a segment boundary. -/
theorem matchesPattern_iff_boundary {pattern path : Str} (nonempty : patternRoot pattern ≠ []) :
    matchesPattern pattern path = true ↔
      ∃ rest, path = rooted '/' (patternRoot pattern) ++ rest ∧ Lib.AtBoundary '/' rest := by
  have textNe : rooted '/' (patternRoot pattern) ≠ [] := by
    rw [Lib.rooted_eq_intercalate '/' nonempty]
    exact List.cons_ne_nil _ _
  unfold matchesPattern stripPrefix
  rw [patternText_eq]
  simp only [Bool.or_eq_true, List.isEmpty_iff, textNe, false_or, beq_iff_eq, any_guarded]
  constructor
  · rintro (same | ⟨⟨rest, same⟩, slash⟩)
    · exact ⟨[], by rw [same, List.append_nil], Or.inl rfl⟩
    · refine ⟨rest, same.symm, Or.inr ?_⟩
      rw [← same, List.drop_left] at slash
      obtain ⟨tail, shape⟩ := List.isPrefixOf_iff_prefix.mp slash
      rw [← shape]
      rfl
  · rintro ⟨rest, rfl, rfl | slash⟩
    · exact Or.inl (List.append_nil _)
    · refine Or.inr ⟨List.prefix_append _ _, ?_⟩
      rw [List.drop_left, List.isPrefixOf_iff_prefix]
      cases rest with
      | nil => cases slash
      | cons head tail =>
        rw [List.head?_cons, Option.some.injEq] at slash
        subst slash
        exact ⟨tail, rfl⟩

/-- **Matching is comparing lists of segments.** -/
theorem matchesPattern_iff {pattern path : Str} (slash : ['/'] <+: path) :
    matchesPattern pattern path = true ↔ patternRoot pattern <+: place path := by
  by_cases none : patternRoot pattern = []
  · have text : patternText pattern = [] := by rw [patternText_eq, none]; rfl
    rw [none]
    refine iff_of_true ?_ List.nil_prefix
    unfold matchesPattern
    rw [text]
    rfl
  · obtain ⟨rest, rfl⟩ := slash
    rw [matchesPattern_iff_boundary none]
    have pieces : (['/'] ++ rest).splitOn '/' = [] :: rest.splitOn '/' :=
      Lib.splitOn_cons_self '/' rest
    have written : ['/'] ++ rest = rooted '/' (rest.splitOn '/') :=
      (Lib.rooted_splitOn '/' rest).symm
    have cut := @Lib.rooted_boundary_iff _ '/' (patternRoot pattern) (rest.splitOn '/')
      (fun piece member => (patternRoot_plain member).2)
      (fun piece member => Lib.not_mem_of_mem_splitOn member)
    rw [written, cut, ← written, place, pieces, List.tail_cons]
    exact Lib.takeWhile_prefix_iff fun segment member => (patternRoot_plain member).1

/-! ### Rules as grants -/

/-- The subtree a rule speaks about. -/
def grantOf (rule : Rule) : Grant Str :=
  { allow := rule.effect == .allow
    root := patternRoot rule.pathPattern }

/-- The grants of the rules that are live. -/
def grants (rules : List Rule) (now : DateTime) : List (Grant Str) :=
  (rules.filter (live now)).map grantOf

/-- The decision a verdict stands for. -/
def ofVerdict : Verdict → Decision
  | .admitted => .allow
  | .refused => .deny .explicitDeny
  | .unmatched => .deny .noMatchingGrant

/-- **The decision on one path is the verdict at its place.** -/
theorem decidePath_eq_verdict (rules : List Rule) {path : Str} (slash : ['/'] <+: path)
    (now : DateTime) :
    decidePath rules path now = ofVerdict (verdict (grants rules now) (place path)) := by
  have covers : ∀ rule, matchesPattern rule.pathPattern path = (grantOf rule).covers (place path) :=
    fun rule => by
      rw [Bool.eq_iff_iff, matchesPattern_iff slash, Grant.covers_iff]
      rfl
  have denies : ∀ rule : Rule, (rule.effect == .deny) = !(grantOf rule).allow := fun rule => by
    unfold grantOf
    cases rule.effect <;> rfl
  unfold decidePath verdict grants
  simp only [covers, denies, List.any_map, Function.comp_def]
  show (if _ then _ else if _ then _ else _) = ofVerdict (if _ then _ else if _ then _ else _)
  split
  · rfl
  · show (if (List.filter (live now) rules).any (fun rule =>
      (grantOf rule).allow && (grantOf rule).covers (place path)) then _ else _) = _
    split <;> rfl

theorem decidePath_eq_allow {rules : List Rule} {path : Str} (slash : ['/'] <+: path)
    {now : DateTime} :
    decidePath rules path now = .allow ↔ verdict (grants rules now) (place path) = .admitted := by
  rw [decidePath_eq_verdict rules slash]
  cases verdict (grants rules now) (place path) <;> simp [ofVerdict]

/-! ### Every grant has a rule -/

/-- A pattern for a list of segments. -/
def patternOf (root : List Str) : Str :=
  rooted '/' (root ++ [[]])

/-- A segment list the pattern language has a name for. -/
def Expressible (root : List Str) : Prop :=
  ∀ segment ∈ root, plain segment = true ∧ '/' ∉ segment

theorem patternRoot_patternOf {root : List Str} (expressible : Expressible root) :
    patternRoot (patternOf root) = root := by
  have trimmed : trimEndMatches '*' (patternOf root) = patternOf root := by
    unfold trimEndMatches patternOf
    rw [List.rdropWhile_eq_self_iff]
    intro some
    simp
  have pieces : (patternOf root).splitOn '/' = [] :: (root ++ [[]]) := by
    refine Lib.splitOn_rooted fun piece member => ?_
    rcases List.mem_append.mp member with member | member
    · exact (expressible piece member).2
    · rw [List.mem_singleton] at member
      subst member
      exact List.not_mem_nil
  have run : ∀ (todo done : List Str), (∀ segment ∈ todo, plain segment = true) →
      (todo ++ [[]]).foldl resolveStep done = done ++ todo := by
    intro todo
    induction todo with
    | nil => intro done _; simp [resolveStep]
    | cons segment todo ih =>
      intro done ordinary
      obtain ⟨some, dot, dots, _⟩ := plain_iff.mp (ordinary segment List.mem_cons_self)
      rw [List.cons_append, List.foldl_cons, resolveStep_keeps segment done some dot dots,
        ih _ fun later member => ordinary later (List.mem_cons_of_mem _ member)]
      simp
  unfold patternRoot resolveSegments
  rw [trimmed, pieces, List.foldl_cons]
  show ((root ++ [[]]).foldl resolveStep (resolveStep [] [])).map makeAsciiLowercase = root
  rw [show resolveStep [] [] = [] from rfl,
    run root [] fun segment member => (expressible segment member).1, List.nil_append]
  conv_rhs => rw [← List.map_id root]
  exact List.map_congr_left fun segment member =>
    (plain_iff.mp (expressible segment member).1).2.2.2

/-- The rule that says what a grant says, for ever. -/
def ruleOf (grant : Grant Str) : Rule :=
  { effect := if grant.allow then .allow else .deny
    pathPattern := patternOf grant.root
    expiresAt := none }

/-- **Every list of expressible grants is the grant list of some rules**, at any time. -/
theorem exists_rules {list : List (Grant Str)}
    (expressible : ∀ grant ∈ list, Expressible grant.root)
    (now : DateTime) : grants (list.map ruleOf) now = list := by
  have all : (list.map ruleOf).filter (live now) = list.map ruleOf := by
    rw [List.filter_eq_self]
    intro rule member
    obtain ⟨grant, _, rfl⟩ := List.mem_map.mp member
    rfl
  unfold grants
  rw [all, List.map_map]
  conv_rhs => rw [← List.map_id list]
  refine List.map_congr_left fun grant member => ?_
  obtain ⟨allow, root⟩ := grant
  show grantOf (ruleOf ⟨allow, root⟩) = ⟨allow, root⟩
  unfold grantOf ruleOf
  rw [patternRoot_patternOf (expressible _ member)]
  cases allow <;> rfl

end OpenBerat.Policy
