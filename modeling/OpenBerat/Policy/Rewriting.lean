/-
**A deny rule survives every rewriting of the path.**

`Rewrites` is one rewriting of a path text that some upstream undoes: a separator more, a backslash
for a separator, a segment that goes nowhere, a change of case. Folding, resolving and lower-casing
give every rewriting of a path the same segments (`meaning_of_rewrites`), and one round of decoding
undoes the percent encoding of any of its bytes (`SpelledAs`), so a deny on the path is met by every
URI made out of it.

* `normalise_rewritten`: the normal form of a rewritten, spelled path has the path's segments.
* `deny_survives`: the decision on it is an explicit deny.
-/

import Mathlib.Logic.Relation
import OpenBerat.Policy.Escapes
import OpenBerat.Policy.Readings
import OpenBerat.Validate

namespace OpenBerat.Policy

open Lib (rooted)

/-! ### Rewriting a path -/

/-- A segment that may be walked into and out of again. -/
structure Detour (segment : Str) : Prop where
  ordinary : Ordinary segment
  noSpecial : ∀ char ∈ segment, char ∉ ['%', '?', '#', '\\'] ∧ isControl char = false

/-- A segment with nothing in it that any of the four passes would change. -/
structure Canonical (segment : Str) : Prop extends Detour segment where
  noUpper : ∀ char ∈ segment, char.isUpper = false

/-- A path of such segments. -/
structure CanonicalPath where
  segments : List Str
  canonical : ∀ segment ∈ segments, Canonical segment

/-- The path as it is written. -/
def CanonicalPath.text (path : CanonicalPath) : Str :=
  '/' :: join '/' path.segments

/-- One rewriting of a path. -/
inductive Rewrites : Str → Str → Prop
  | repeatSlash (front rest : Str) : Rewrites (front ++ '/' :: rest) (front ++ '/' :: '/' :: rest)
  | backslash {front : Str} (rest : Str) (inner : front ≠ []) :
      Rewrites (front ++ '/' :: rest) (front ++ '\\' :: rest)
  | dot (front rest : Str) {sep : Char} (separates : sep = '/' ∨ sep = '\\') :
      Rewrites (front ++ sep :: rest) (front ++ sep :: '.' :: '/' :: rest)
  | detour (front rest : Str) {sep : Char} {segment : Str} (separates : sep = '/' ∨ sep = '\\')
      (detour : Detour segment) :
      Rewrites (front ++ sep :: rest)
        (front ++ sep :: (segment ++ '/' :: '.' :: '.' :: '/' :: rest))
  | climb (rest : Str) : Rewrites ('/' :: rest) ('/' :: '.' :: '.' :: '/' :: rest)
  | recase (front rest : Str) {first second : Char} (same : first.toLower = second.toLower) :
      Rewrites (front ++ first :: rest) (front ++ second :: rest)

/-- `\` read as `/`, in lower case. -/
def folded (text : Str) : Str :=
  makeAsciiLowercase (replaceChar '\\' '/' text)

theorem folded_append (first second : Str) :
    folded (first ++ second) = folded first ++ folded second := by
  unfold folded replaceChar makeAsciiLowercase
  rw [List.map_append, List.map_append]

theorem folded_sep {sep : Char} (separates : sep = '/' ∨ sep = '\\') (rest : Str) :
    folded (sep :: rest) = '/' :: folded rest := by
  rcases separates with rfl | rfl
  · rfl
  · rfl

/-- The segments a rewritten path stands for. -/
def meaning (text : Str) : List Str :=
  resolveSegments (folded text)

theorem resolveSegments_cut (front rest : Str) :
    resolveSegments (front ++ '/' :: rest) =
      (rest.splitOn '/').foldl resolveStep (resolveSegments front) := by
  unfold resolveSegments
  rw [List.splitOn_append_cons_self, List.foldl_append]

/-- A piece that leaves the segments alone may stand in front of a separator. -/
theorem resolveSegments_insert {segment : Str} (free : '/' ∉ segment) (front rest : Str)
    (neutral : resolveStep (resolveSegments front) segment = resolveSegments front) :
    resolveSegments (front ++ '/' :: (segment ++ '/' :: rest)) =
      resolveSegments (front ++ '/' :: rest) := by
  rw [resolveSegments_cut, resolveSegments_cut, List.splitOn_append_cons_self,
    List.splitOn_eq_singleton free, List.singleton_append, List.foldl_cons, neutral]

theorem ordinary_folded {segment : Str} (detour : Detour segment) : Ordinary (folded segment) := by
  have unfolded : replaceChar '\\' '/' segment = segment := by
    unfold replaceChar
    conv_rhs => rw [← List.map_id segment]
    refine List.map_congr_left fun char member => if_neg ?_
    rintro rfl
    exact (detour.noSpecial _ member).1 (by simp)
  unfold folded
  rw [unfolded]
  obtain ⟨kept, free⟩ := detour.ordinary.lowered
  obtain ⟨some, dot, dots, _⟩ := plain_iff.mp kept
  exact ⟨some, dot, dots, free⟩

/-- A change of case makes no character and loses none that is not a letter. -/
theorem recase_iff {first second char : Char} (same : first.toLower = second.toLower)
    (noLetter : char.isAlpha = false) : first = char ↔ second = char := by
  rw [← toLower_eq_iff noLetter, same, toLower_eq_iff noLetter]

theorem folded_recase {first second : Char} (same : first.toLower = second.toLower) (rest : Str) :
    folded (first :: rest) = folded (second :: rest) := by
  have heads : (if first = '\\' then '/' else first).toLower =
      (if second = '\\' then '/' else second).toLower := by
    by_cases fold : first = '\\'
    · rw [if_pos fold, if_pos ((recase_iff same (by decide)).mp fold)]
    · rw [if_neg fold, if_neg fun other => fold ((recase_iff same (by decide)).mpr other), same]
  exact congrArg (· :: folded rest) heads

/-- **One rewriting** does not change the segments. -/
theorem Rewrites.meaning_eq {first second : Str} (rewrites : Rewrites first second) :
    meaning second = meaning first := by
  unfold meaning
  cases rewrites with
  | repeatSlash front rest =>
    rw [folded_append, folded_append, folded_sep (Or.inl rfl), folded_sep (Or.inl rfl)]
    exact resolveSegments_insert List.not_mem_nil _ _ (if_pos (Or.inl rfl))
  | backslash rest inner =>
    rw [folded_append, folded_append, folded_sep (Or.inl rfl), folded_sep (Or.inr rfl)]
  | dot front rest separates =>
    rw [folded_append, folded_append, folded_sep separates, folded_sep separates]
    exact resolveSegments_insert (by decide) _ _ (if_pos (Or.inr rfl))
  | @detour front rest sep segment separates detour =>
    rw [folded_append, folded_append, folded_sep separates, folded_sep separates, folded_append]
    obtain ⟨some, dot, dots, free⟩ := ordinary_folded detour
    show resolveSegments (folded front ++ '/' :: (folded segment ++ '/' ::
      (['.', '.'] ++ '/' :: folded rest))) = _
    rw [resolveSegments_cut, resolveSegments_cut, List.splitOn_append_cons_self,
      List.splitOn_eq_singleton free, List.splitOn_append_cons_self,
      List.splitOn_eq_singleton (show '/' ∉ ['.', '.'] by decide), List.singleton_append,
      List.singleton_append, List.foldl_cons, List.foldl_cons, resolveStep_keeps _ _ some dot dots]
    congr 1
    unfold resolveStep
    rw [if_neg (by decide), if_pos rfl, List.dropLast_concat]
  | climb rest =>
    rw [folded_sep (Or.inl rfl), folded_sep (Or.inl rfl)]
    exact resolveSegments_insert (show '/' ∉ ['.', '.'] by decide) [] _ rfl
  | @recase front rest first second same =>
    rw [folded_append, folded_append, folded_recase same]

/-- What every rewritten path is like. -/
structure Sound (text : Str) : Prop where
  slash : ['/'] <+: text
  noSpecial : ∀ char ∈ text, char ∉ ['%', '?', '#'] ∧ isControl char = false

theorem Sound.insert {front rest piece : Str} (sound : Sound (front ++ rest)) (inner : front ≠ [])
    (noSpecial : ∀ char ∈ piece, char ∉ ['%', '?', '#'] ∧ isControl char = false) :
    Sound (front ++ (piece ++ rest)) := by
  refine ⟨?_, fun char member => ?_⟩
  · have start : ['/'] <+: front :=
      List.prefix_of_prefix_length_le sound.slash (List.prefix_append front rest)
        (List.length_pos_of_ne_nil inner)
    exact start.trans (List.prefix_append _ _)
  · rcases List.mem_append.mp member with inFront | member
    · exact sound.noSpecial char (List.mem_append_left _ inFront)
    · rcases List.mem_append.mp member with inPiece | inRest
      · exact noSpecial char inPiece
      · exact sound.noSpecial char (List.mem_append_right _ inRest)

theorem Sound.replace {front rest : Str} {first second : Char}
    (sound : Sound (front ++ first :: rest)) (inner : front ≠ [] ∨ second = first)
    (noSpecial : second ∉ ['%', '?', '#'] ∧ isControl second = false) :
    Sound (front ++ second :: rest) := by
  refine ⟨?_, fun char member => ?_⟩
  · rcases inner with some | rfl
    · have start : ['/'] <+: front :=
        List.prefix_of_prefix_length_le sound.slash (List.prefix_append front _)
          (List.length_pos_of_ne_nil some)
      exact start.trans (List.prefix_append _ _)
    · exact sound.slash
  · rcases List.mem_append.mp member with inFront | member
    · exact sound.noSpecial char (List.mem_append_left _ inFront)
    · rcases List.mem_cons.mp member with rfl | inRest
      · exact noSpecial
      · exact sound.noSpecial char (List.mem_append_right _ (List.mem_cons_of_mem _ inRest))

theorem isAlpha_of_isControl {char : Char} (control : isControl char = true) :
    char.isAlpha = false := by
  unfold isControl at control
  unfold Char.isAlpha Char.isUpper Char.isLower
  simp only [Bool.or_eq_true, Bool.and_eq_true, decide_eq_true_eq, Char.toNat, ge_iff_le,
    UInt32.le_iff_toNat_le, ← Bool.not_eq_true] at control ⊢
  show ¬ (65 ≤ _ ∧ _ ≤ 90 ∨ 97 ≤ _ ∧ _ ≤ 122)
  omega

/-- A change of case brings in nothing special. -/
theorem noSpecial_recase {first second : Char} (same : first.toLower = second.toLower)
    (noSpecial : first ∉ ['%', '?', '#'] ∧ isControl first = false) :
    second ∉ ['%', '?', '#'] ∧ isControl second = false := by
  have kept : ∀ char, char.isAlpha = false → second = char → first = char :=
    fun char noLetter => (recase_iff same noLetter).mpr
  constructor
  · intro member
    have noLetter : second.isAlpha = false := by
      simp only [List.mem_cons, List.not_mem_nil, or_false] at member
      rcases member with rfl | rfl | rfl
      · decide
      · decide
      · decide
    rw [kept second noLetter rfl] at noSpecial
    exact noSpecial.1 member
  · by_contra control
    rw [Bool.not_eq_false] at control
    rw [kept second (isAlpha_of_isControl control) rfl, control] at noSpecial
    cases noSpecial.2

theorem Rewrites.sound {first second : Str} (rewrites : Rewrites first second)
    (sound : Sound first) : Sound second := by
  have harmless : ∀ char, char = '/' ∨ char = '\\' ∨ char = '.' →
      char ∉ ['%', '?', '#'] ∧ isControl char = false := by
    rintro char (rfl | rfl | rfl)
    · decide
    · decide
    · decide
  have behind : ∀ {front rest : Str} {sep : Char} (piece : Str), Sound (front ++ sep :: rest) →
      (∀ char ∈ piece, char ∉ ['%', '?', '#'] ∧ isControl char = false) →
      Sound (front ++ sep :: (piece ++ rest)) := by
    intro front rest sep piece sound noSpecial
    rw [← List.singleton_append, ← List.append_assoc] at sound ⊢
    exact sound.insert (by simp) noSpecial
  cases rewrites with
  | repeatSlash front rest =>
    exact behind ['/'] sound fun char member =>
      harmless char (Or.inl (List.mem_singleton.mp member))
  | backslash rest inner => exact sound.replace (Or.inl inner) (harmless _ (by simp))
  | dot front rest separates =>
    refine behind ['.', '/'] sound fun char member => harmless char ?_
    simp only [List.mem_cons, List.not_mem_nil, or_false] at member
    exact member.elim (fun dot => Or.inr (Or.inr dot)) Or.inl
  | @detour front rest sep segment separates detour =>
    rw [show segment ++ '/' :: '.' :: '.' :: '/' :: rest =
      (segment ++ ['/', '.', '.', '/']) ++ rest by simp]
    refine behind _ sound fun char member => ?_
    rcases List.mem_append.mp member with inSegment | inDots
    · obtain ⟨special, control⟩ := detour.noSpecial char inSegment
      refine ⟨fun member => special ?_, control⟩
      exact (List.prefix_append ['%', '?', '#'] ['\\']).subset member
    · simp only [List.mem_cons, List.not_mem_nil, or_false] at inDots
      rcases inDots with slash | dot | dot | slash
      · exact harmless char (Or.inl slash)
      · exact harmless char (Or.inr (Or.inr dot))
      · exact harmless char (Or.inr (Or.inr dot))
      · exact harmless char (Or.inl slash)
  | climb rest =>
    have start : Sound ([] ++ '/' :: rest) := sound
    refine behind ['.', '.', '/'] start fun char member => harmless char ?_
    simp only [List.mem_cons, List.not_mem_nil, or_false] at member
    rcases member with dot | dot | slash
    · exact Or.inr (Or.inr dot)
    · exact Or.inr (Or.inr dot)
    · exact Or.inl slash
  | @recase front rest first second same =>
    refine sound.replace ?_ (noSpecial_recase same (sound.noSpecial first (by simp)))
    by_cases inner : front = []
    · subst inner
      obtain ⟨tail, shape⟩ := sound.slash
      obtain rfl : '/' = first := (List.cons.inj shape).1
      exact Or.inr ((recase_iff same (by decide)).mp rfl)
    · exact Or.inl inner

/-- **A chain of rewritings** changes nothing that counts. -/
theorem rewritten_sound {first last : Str} (chain : Relation.ReflTransGen Rewrites first last)
    (sound : Sound first) : Sound last ∧ meaning last = meaning first := by
  induction chain with
  | refl => exact ⟨sound, rfl⟩
  | tail _ rewrites ih => exact ⟨rewrites.sound ih.1, rewrites.meaning_eq.trans ih.2⟩

/-! ### The path itself -/

namespace CanonicalPath

variable (path : CanonicalPath)

theorem text_eq : (path.segments = [] ∧ path.text = ['/']) ∨
    (path.segments ≠ [] ∧ path.text = rooted '/' path.segments) := by
  unfold text join
  by_cases none : path.segments = []
  · rw [none]
    exact Or.inl ⟨rfl, rfl⟩
  · exact Or.inr ⟨none, (Lib.rooted_eq_intercalate '/' none).symm⟩

theorem mem_text {char : Char} (member : char ∈ path.text) :
    char = '/' ∨ ∃ segment ∈ path.segments, char ∈ segment := by
  rcases path.text_eq with ⟨_, same⟩ | ⟨_, same⟩
  · rw [same] at member
    exact Or.inl (List.mem_singleton.mp member)
  · rw [same] at member
    obtain ⟨segment, inside, member⟩ := List.mem_flatMap.mp member
    exact (List.mem_cons.mp member).imp_right fun member => ⟨segment, inside, member⟩

theorem sound : Sound path.text := by
  refine ⟨⟨_, rfl⟩, fun char member => ?_⟩
  rcases path.mem_text member with rfl | ⟨segment, inside, member⟩
  · decide
  · obtain ⟨special, control⟩ := (path.canonical segment inside).noSpecial char member
    exact ⟨fun member => special ((List.prefix_append ['%', '?', '#'] ['\\']).subset member),
      control⟩

theorem folded_text : folded path.text = path.text := by
  unfold folded replaceChar makeAsciiLowercase
  rw [List.map_map]
  conv_rhs => rw [← List.map_id path.text]
  refine List.map_congr_left fun char member => ?_
  rcases path.mem_text member with rfl | ⟨segment, inside, member⟩
  · rfl
  · have canonical := path.canonical segment inside
    have noBackslash : char ≠ '\\' := by
      rintro rfl
      exact (canonical.noSpecial _ member).1 (by simp)
    show (if char = '\\' then '/' else char).toLower = char
    rw [if_neg noBackslash, toLower_of_not_upper (canonical.noUpper char member)]

theorem splitOn_text : path.text.splitOn '/' =
    [] :: if path.segments = [] then [[]] else path.segments := by
  rcases path.text_eq with ⟨none, same⟩ | ⟨some, same⟩
  · rw [same, if_pos none]
    rfl
  · rw [same, if_neg some]
    exact Lib.splitOn_rooted fun segment inside => (path.canonical segment inside).ordinary.2.2.2

end CanonicalPath

theorem foldl_ordinary {segments : List Str} (ordinary : ∀ segment ∈ segments, Ordinary segment)
    (before : List Str) : segments.foldl resolveStep before = before ++ segments := by
  induction segments generalizing before with
  | nil => exact (List.append_nil before).symm
  | cons segment segments ih =>
    obtain ⟨some, dot, dots, _⟩ := ordinary segment List.mem_cons_self
    rw [List.foldl_cons, resolveStep_keeps _ _ some dot dots,
      ih (fun later member => ordinary later (List.mem_cons_of_mem _ member)), List.append_assoc]
    rfl

/-- The path means its own segments. -/
theorem meaning_text (path : CanonicalPath) : meaning path.text = path.segments := by
  unfold meaning resolveSegments
  rw [path.folded_text, path.splitOn_text]
  by_cases none : path.segments = []
  · rw [if_pos none, none]
    rfl
  · rw [if_neg none]
    exact foldl_ordinary (fun segment inside => (path.canonical segment inside).ordinary) []

/-! ### The normal form -/

theorem resolveStep_lower (segments : List Str) (segment : Str) :
    resolveStep (segments.map makeAsciiLowercase) (makeAsciiLowercase segment) =
      (resolveStep segments segment).map makeAsciiLowercase := by
  have noLetters : ∀ char ∈ ['.', '.'], char.isAlpha = false := by simp
  have noLetter : ∀ char ∈ ['.'], char.isAlpha = false := by simp
  have dot := @makeAsciiLowercase_eq_iff segment _ noLetter
  have dots := @makeAsciiLowercase_eq_iff segment _ noLetters
  have empty := @makeAsciiLowercase_eq_iff segment [] (by simp)
  unfold resolveStep
  simp only [empty, dot, dots]
  by_cases skipped : segment = [] ∨ segment = ['.']
  · rw [if_pos skipped, if_pos skipped]
  · rw [if_neg skipped, if_neg skipped]
    by_cases parent : segment = ['.', '.']
    · rw [if_pos parent, if_pos parent, List.map_dropLast]
    · rw [if_neg parent, if_neg parent, List.map_append]
      rfl

/-- Resolution commutes with lower-casing. -/
theorem resolveSegments_lower (path : Str) :
    resolveSegments (makeAsciiLowercase path) = (resolveSegments path).map makeAsciiLowercase := by
  have run : ∀ pieces segments : List Str,
      (pieces.map makeAsciiLowercase).foldl resolveStep (segments.map makeAsciiLowercase) =
        (pieces.foldl resolveStep segments).map makeAsciiLowercase := by
    intro pieces
    induction pieces with
    | nil => exact fun _ => rfl
    | cons piece pieces ih =>
      intro segments
      rw [List.map_cons, List.foldl_cons, List.foldl_cons, resolveStep_lower, ih]
  unfold resolveSegments
  have split : (makeAsciiLowercase path).splitOn '/' =
      (path.splitOn '/').map makeAsciiLowercase :=
    Lib.splitOn_map (fun char => toLower_eq_iff (by decide)) path
  rw [split]
  exact run (path.splitOn '/') []

/-- The place of a resolved path is its segments. -/
theorem place_resolve (path : Str) :
    place (makeAsciiLowercase (resolve path)) = (resolveSegments path).map makeAsciiLowercase := by
  have lowered : ∀ segment ∈ (resolveSegments path).map makeAsciiLowercase,
      plain segment = true ∧ '/' ∉ segment := by
    intro segment member
    obtain ⟨kept, inside, rfl⟩ := List.mem_map.mp member
    exact (resolveSegments_ordinary path kept inside).lowered
  have whole : ∀ after : List Str, (after = [] ∨ after = [[]]) →
      place (rooted '/' ((resolveSegments path).map makeAsciiLowercase ++ after)) =
        (resolveSegments path).map makeAsciiLowercase := by
    intro after ends
    unfold place
    rw [Lib.splitOn_rooted, List.tail_cons, List.takeWhile_append_of_pos fun segment member =>
      (lowered segment member).1]
    · rcases ends with rfl | rfl
      · exact List.append_nil _
      · exact List.append_nil _
    · intro segment member
      rcases List.mem_append.mp member with kept | last
      · exact (lowered segment kept).2
      · rcases ends with rfl | rfl
        · cases last
        · rw [List.mem_singleton.mp last]
          exact List.not_mem_nil
  rcases resolve_eq path with ⟨none, same⟩ | ⟨slash, rfl | rfl, _, same⟩
  · rw [same, none]
    rfl
  · rw [same, List.append_nil, makeAsciiLowercase_rooted]
    have value := whole [] (Or.inl rfl)
    rwa [List.append_nil] at value
  · rw [same, makeAsciiLowercase_append, makeAsciiLowercase_rooted]
    have value := whole [[]] (Or.inr rfl)
    rwa [Lib.rooted_append] at value

/-- The query, if there is one, behind a `?`. -/
def IsQuery (query : Str) : Prop :=
  query = [] ∨ ∃ text, query = '?' :: text

theorem rawPath_append {uri query : Str} (free : '?' ∉ uri) (isQuery : IsQuery query) :
    rawPath (uri ++ query) = uri := by
  unfold rawPath firstPiece
  rcases isQuery with rfl | ⟨text, rfl⟩
  · rw [List.append_nil, List.splitOn_eq_singleton free]
    rfl
  · rw [List.splitOn_append_cons_self_of_not_mem free]
    rfl

/-- A spelled path passes every refusal. -/
theorem normalise_spelled {path uri query : Str} (spelled : SpelledAs path uri)
    (isQuery : IsQuery query) (noQuery : '?' ∉ uri) (noFragment : '#' ∉ uri)
    (noPercent : '%' ∉ path) (noControl : ∀ char ∈ path, isControl char = false) :
    normalise (uri ++ query) = .ok (makeAsciiLowercase (resolve (replaceChar '\\' '/' path))) := by
  have clear : ¬ path.any isControl = true := by
    rw [List.any_eq_true]
    rintro ⟨char, member, control⟩
    rw [noControl char member] at control
    cases control
  unfold normalise
  rw [rawPath_append noQuery isQuery]
  dsimp only
  rw [if_neg (not_or.mpr ⟨not_not.mpr (slash_prefix_of_spelled spelled), noFragment⟩),
    decodeText_of_spelled spelled noPercent]
  dsimp only
  rw [if_neg noPercent, if_neg clear]

/-- **The normal form of a rewritten, spelled path** has the segments of the path. -/
theorem normalise_rewritten (path : CanonicalPath) {rewritten uri query : Str}
    (chain : Relation.ReflTransGen Rewrites path.text rewritten) (spelled : SpelledAs rewritten uri)
    (isQuery : IsQuery query) :
    ∃ normal, normalise (uri ++ query) = .ok normal ∧ ['/'] <+: normal ∧
      place normal = path.segments := by
  obtain ⟨sound, means⟩ := rewritten_sound chain path.sound
  have absent : ∀ char ∈ ['%', '?', '#'], char ∉ rewritten :=
    fun char special member => (sound.noSpecial char member).1 special
  have noPercent : '%' ∉ rewritten := absent _ (by simp)
  have noQuery : '?' ∉ uri :=
    not_mem_of_spelled spelled (by decide) (by decide) (by decide) (absent _ (by simp))
  have noFragment : '#' ∉ uri :=
    not_mem_of_spelled spelled (by decide) (by decide) (by decide) (absent _ (by simp))
  have noControl : ∀ char ∈ rewritten, isControl char = false :=
    fun char member => (sound.noSpecial char member).2
  refine ⟨_, normalise_spelled spelled isQuery noQuery noFragment noPercent noControl, ?_, ?_⟩
  · exact ⟨_, rfl⟩
  · rw [place_resolve, ← resolveSegments_lower]
    exact means.trans (meaning_text path)

/-! ### Patterns that cover the path -/

/-- The `{base}` of a subtree pattern `{base}/*`, "which matches {base} and everything below it". -/
def subtreeRoot (pattern : Str) : Str :=
  Validate.trimEndAny ['*', '/'] pattern

/-- The path is the root of the pattern's subtree or below it. -/
def InSubtree (pattern path : Str) : Prop :=
  path = subtreeRoot pattern ∨ subtreeRoot pattern ++ ['/'] <+: path

theorem resolveSegments_concat (path : Str) :
    resolveSegments (path ++ ['/']) = resolveSegments path := by
  rw [resolveSegments_cut]
  rfl

theorem resolveSegments_slashes {path slashes : Str} (all : ∀ char ∈ slashes, char = '/') :
    resolveSegments (path ++ slashes) = resolveSegments path := by
  induction slashes generalizing path with
  | nil => rw [List.append_nil]
  | cons char slashes ih =>
    obtain rfl := all char List.mem_cons_self
    rw [← List.singleton_append, ← List.append_assoc,
      ih fun later member => all later (List.mem_cons_of_mem _ member), resolveSegments_concat]

theorem segments_lower (path : CanonicalPath) :
    path.segments.map makeAsciiLowercase = path.segments := by
  have lower : makeAsciiLowercase (folded path.text) = folded path.text :=
    makeAsciiLowercase_idem _
  have means := meaning_text path
  unfold meaning at means
  rw [← means, ← resolveSegments_lower, lower]

/-- A text that the path continues behind a separator resolves to the path's first segments. -/
theorem resolveSegments_front (path : CanonicalPath) {root : Str}
    (inside : path.text = root ∨ root ++ ['/'] <+: path.text) :
    resolveSegments root <+: path.segments := by
  rcases inside with rfl | ⟨rest, same⟩
  · have means := meaning_text path
    unfold meaning at means
    rw [path.folded_text] at means
    rw [means]
  · rw [List.append_assoc, List.singleton_append] at same
    have pieces := path.splitOn_text
    rw [← same, List.splitOn_append_cons_self] at pieces
    obtain ⟨head, front, shape⟩ := List.exists_cons_of_ne_nil (List.splitOn_ne_nil '/' root)
    rw [shape, List.cons_append, List.cons.injEq] at pieces
    obtain ⟨rfl, behind⟩ := pieces
    have resolved : resolveSegments root = front.foldl resolveStep [] := by
      unfold resolveSegments
      rw [shape]
      rfl
    by_cases none : path.segments = []
    · rw [if_pos none] at behind
      have empty : front = [] := by
        obtain ⟨piece, tail, rests⟩ := List.exists_cons_of_ne_nil (List.splitOn_ne_nil '/' rest)
        have sizes := congrArg List.length behind
        rw [rests, List.length_append, List.length_cons, List.length_singleton] at sizes
        exact List.length_eq_zero_iff.mp (by omega)
      rw [resolved, empty]
      exact List.nil_prefix
    · rw [if_neg none] at behind
      have ordinary : ∀ segment ∈ front, Ordinary segment := fun segment member =>
        (path.canonical segment (behind ▸ List.mem_append_left _ member)).ordinary
      rw [resolved, foldl_ordinary ordinary]
      exact ⟨_, behind⟩

/-- **A stored pattern** whose subtree has the path in it matches whatever has the path's place. -/
theorem patternRoot_prefix (path : CanonicalPath) {pattern : Str}
    (stored : Validate.validatePathPattern pattern = .ok ())
    (covers : InSubtree pattern path.text) :
    patternRoot pattern <+: path.segments := by
  rcases Validate.shape_of_validatePathPattern stored with rfl | ⟨base, rfl, noStar, _⟩
  · exact List.nil_prefix
  · have starless : trimEndMatches '*' (base ++ ['/', '*']) = base ++ ['/'] := by
      unfold trimEndMatches
      rw [show base ++ ['/', '*'] = (base ++ ['/']) ++ ['*'] by simp,
        List.rdropWhile_concat_pos _ _ _ (by decide), List.rdropWhile_concat_neg _ _ _ (by decide)]
    have root : subtreeRoot (base ++ ['/', '*']) = subtreeRoot base := by
      unfold subtreeRoot Validate.trimEndAny
      rw [show base ++ ['/', '*'] = (base ++ ['/']) ++ ['*'] by simp,
        List.rdropWhile_concat_pos _ _ _ (by decide), List.rdropWhile_concat_pos _ _ _ (by decide)]
    obtain ⟨slashes, shape, all⟩ : ∃ slashes, base = subtreeRoot base ++ slashes ∧
        ∀ char ∈ slashes, char = '/' := by
      refine ⟨base.rtakeWhile fun char => ['*', '/'].contains char,
        List.rdropWhile_append_rtakeWhile.symm, fun char member => ?_⟩
      have inBase : char ∈ base := (List.rtakeWhile_suffix _ _).subset member
      have passes := List.mem_rtakeWhile_imp member
      simp only [List.contains_eq_mem, List.mem_cons, List.not_mem_nil, or_false,
        decide_eq_true_eq] at passes
      exact passes.resolve_left fun star => noStar (star ▸ inBase)
    have resolved : resolveSegments (base ++ ['/']) = resolveSegments (subtreeRoot base) := by
      rw [resolveSegments_concat]
      conv_lhs => rw [shape]
      exact resolveSegments_slashes all
    unfold InSubtree at covers
    rw [root] at covers
    unfold patternRoot
    rw [starless, resolved, ← segments_lower path]
    exact (resolveSegments_front path covers).map _

/-- **A deny rule survives every rewriting of the path**, every spelling of the rewriting and every
query behind it, whatever else is in the rule list. -/
theorem deny_survives (path : CanonicalPath) {rewritten uri query : Str}
    (chain : Relation.ReflTransGen Rewrites path.text rewritten) (spelled : SpelledAs rewritten uri)
    (isQuery : IsQuery query) {rules : List Rule} {now : DateTime} {rule : Rule}
    (member : rule ∈ rules) (denies : rule.effect = .deny) (current : live now rule = true)
    (stored : Validate.validatePathPattern rule.pathPattern = .ok ())
    (covers : InSubtree rule.pathPattern path.text) :
    Policy.decide true rules (uri ++ query) now = .deny .explicitDeny := by
  obtain ⟨normal, normalised, slash, placed⟩ := normalise_rewritten path chain spelled isQuery
  refine decide_eq_explicitDeny normalised member denies current ((matchesPattern_iff slash).mpr ?_)
  rw [placed]
  exact patternRoot_prefix path stored covers

/-! ### One walk into a directory and out again -/

namespace Walk

/-- The conditions on characters, checked one by one. -/
theorem canonical_of_all {segment : Str} (ordinary : Ordinary segment)
    (checked : (segment.all fun char => !(['%', '?', '#', '\\'].contains char) &&
      !isControl char && !char.isUpper) = true) : Canonical segment := by
  have each := List.all_eq_true.mp checked
  simp only [List.contains_eq_mem, Bool.and_eq_true, Bool.not_eq_eq_eq_not, Bool.not_true,
    decide_eq_false_iff_not] at each
  exact ⟨⟨ordinary, fun char member => (each char member).1⟩,
    fun char member => (each char member).2⟩

/-- `/admin/users`. -/
def adminUsers : CanonicalPath where
  segments := ["admin".toList, "users".toList]
  canonical := by
    intro segment member
    rcases List.mem_cons.mp member with rfl | member
    · exact canonical_of_all ⟨by decide, by decide, by decide, by decide⟩ (by decide)
    · rw [List.mem_singleton.mp member]
      exact canonical_of_all ⟨by decide, by decide, by decide, by decide⟩ (by decide)

/-- A deny of everything under `/admin`. -/
def denyAdmin : Rule := ⟨.deny, "/admin/*".toList, none⟩

theorem rewrites_walk : Rewrites adminUsers.text "/x/../admin/users".toList := by
  have detour : Canonical ['x'] :=
    canonical_of_all ⟨by decide, by decide, by decide, by decide⟩ (by decide)
  exact Rewrites.detour [] "admin/users".toList (Or.inl rfl) detour.toDetour

theorem spelled_walk : SpelledAs "/x/../admin/users".toList "/x/%2e%2E/admin/users".toList := by
  refine ⟨"x/../admin/users".toList, asBytes "x/%2e%2E/admin/users".toList, rfl, rfl, ?_⟩
  exact .plain 120 (.plain 47 (.escape 46 false false (.escape 46 false true
    (spells_self (asBytes "/admin/users".toList)))))

end Walk

open Walk in
/-- Into `x`, back out with one escape in each case, and a query. -/
theorem deny_survives_walk :
    Policy.decide true
    [denyAdmin, ⟨.allow, [], none⟩] "/x/%2e%2E/admin/users?next=/public".toList 0 =
      .deny .explicitDeny :=
  deny_survives adminUsers (.single rewrites_walk) spelled_walk
    (Or.inr ⟨"next=/public".toList, rfl⟩) List.mem_cons_self rfl rfl (by decide +kernel)
    (Or.inr ⟨"users".toList, by decide⟩)

end OpenBerat.Policy
