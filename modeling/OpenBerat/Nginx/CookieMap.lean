/-
**The cookie header an upstream gets.**

nginx takes the session cookie out of the header with four regular expressions, one for each place
it can stand in (`cookieMap`); a header none of them matches is passed on as it is. `sessionCookie`
splits and trims instead.

* `removes_of_rule`: a match takes one pair of the family away and leaves the others.
* `exists_rule`: a pair of the family is matched where its name stands right before the `=`.
* `stripped_iff`: the upstream gets the other pairs and nothing of the session exactly when every
  name of the family does.
-/

import OpenBerat.Family
import OpenBerat.Lib.Regex

namespace OpenBerat.Nginx

open Lib (Regex)
open Lib.Regex (Takes fullMatch)

/-- The named groups of the map. -/
inductive Group
  | head
  | tail
  | head2
  | tail2
  deriving DecidableEq

/-! ### PCRE's classes -/

/-- `\d` -/
def digit (char : Char) : Bool :=
  48 ≤ char.toNat && char.toNat ≤ 57

/-- `\s` -/
def space (char : Char) : Bool :=
  9 ≤ char.toNat && char.toNat ≤ 13 || char.toNat == 32

/-- `.` -/
def dot (char : Char) : Bool :=
  char != '\n'

/-- `$` -/
def atEnd (rest : Str) : Bool :=
  rest = [] || rest = ['\n']

/-! ### The map -/

/-- `_oauth2_proxy(?:_\d+)?=[^;]*` -/
def session : Regex Char Group :=
  .seq (.literal cookieName) <|
    .seq (.opt (.seq (.literal ['_']) (.seq (.one digit) (.many false digit)))) <|
      .seq (.literal ['=']) (.many false (· != ';'))

/-- `;\s*` -/
def separator : Regex Char Group :=
  .seq (.literal [';']) (.many false space)

/-- What a match is replaced by: the text of a group. -/
def captured (name : Group) (groups : List (Group × Str)) : Str :=
  ((groups.find? (·.1 = name)).map Prod.snd).getD []

/-- `map $http_cookie $upstream_cookie`, in its order. -/
def cookieMap : List (Regex Char Group × (List (Group × Str) → Str)) :=
  [(session, fun _ => []),
    (.seq session (.seq separator (.group .tail (.many false dot))), captured .tail),
    (.seq (.group .head (.many true dot)) (.seq separator session), captured .head),
    (.seq (.group .head2 (.many true dot))
        (.seq separator (.seq session (.seq separator (.group .tail2 (.many false dot))))),
      fun groups => captured .head2 groups ++ "; ".toList ++ captured .tail2 groups)]

/-- `$upstream_cookie` -/
def upstreamCookie (httpCookie : Str) : Str :=
  (cookieMap.findSome? fun rule => (fullMatch atEnd rule.1 httpCookie).map rule.2).getD httpCookie

/-! ### What the expressions match -/

/-- Printable ASCII, spaces and tabs. -/
def Readable (header : Str) : Prop :=
  ∀ char ∈ header, char = '\t' ∨ 32 ≤ char.toNat ∧ char.toNat < 127

instance (header : Str) : Decidable (Readable header) :=
  List.decidableBAll _ header

theorem familyName_iff {name : Str} :
    familyName name = true ↔ name = cookieName ∨
      ∃ digits, name = cookieName ++ '_' :: digits ∧ digits ≠ [] ∧
        ∀ char ∈ digits, digit char = true := by
  unfold familyName
  rw [Bool.or_eq_true, decide_eq_true_eq, isChunk_iff]
  refine or_congr_right (exists_congr fun digits =>
    and_congr_right fun _ => and_congr_right fun _ => ?_)
  constructor
  · intro all char member
    obtain ⟨low, high⟩ := digit_of_all all char member
    unfold digit
    rw [decide_eq_true low, decide_eq_true high]
    rfl
  · intro all
    rw [List.all_eq_true]
    intro byte member
    obtain ⟨char, inside, encoded⟩ := List.mem_flatMap.mp member
    have bounds := all char inside
    unfold digit at bounds
    rw [Bool.and_eq_true, decide_eq_true_eq, decide_eq_true_eq] at bounds
    rw [Lib.encodeChar_ascii (by omega), List.mem_singleton] at encoded
    have code : byte.toNat = char.toNat := by
      rw [encoded, UInt8.toNat_ofNat']
      omega
    unfold isAsciiDigit
    refine decide_eq_true ⟨?_, ?_⟩
    · show 48 ≤ byte.toNat
      omega
    · show byte.toNat ≤ 57
      omega

/-- The number of a further piece of the cookie, or nothing. -/
theorem takes_number {taken : Str} {groups : List (Group × Str)} :
    Takes (.opt (.seq (.literal ['_']) (.seq (.one digit) (.many false digit)))) taken groups ↔
      groups = [] ∧ familyName (cookieName ++ taken) = true := by
  constructor
  · rintro (takes | ⟨rfl, rfl⟩)
    · obtain ⟨_, rfl, _, more, _, _, rfl, rfl, ⟨⟨char, admitted, rfl⟩, rfl⟩, digits, rfl⟩ :=
        Regex.takes_literal_seq.mp takes
      exact ⟨rfl, familyName_iff.mpr (Or.inr ⟨char :: more, rfl, List.cons_ne_nil _ _,
        List.forall_mem_cons.mpr ⟨admitted, digits⟩⟩)⟩
    · exact ⟨rfl, familyName_iff.mpr (Or.inl (List.append_nil _))⟩
  · rintro ⟨rfl, family⟩
    rcases familyName_iff.mp family with same | ⟨digits, same, some, all⟩
    · exact Or.inr ⟨List.append_right_eq_self.mp same, rfl⟩
    · obtain ⟨char, more, rfl⟩ := List.exists_cons_of_ne_nil some
      obtain ⟨admitted, digits⟩ := List.forall_mem_cons.mp all
      refine Or.inl (Regex.takes_literal_seq.mpr ⟨char :: more, List.append_cancel_left same, ?_⟩)
      exact ⟨[char], more, [], [], rfl, rfl, ⟨⟨char, admitted, rfl⟩, rfl⟩, digits, rfl⟩

theorem takes_session {taken : Str} {groups : List (Group × Str)} :
    Takes session taken groups ↔ groups = [] ∧ ∃ name value, familyName name = true ∧
      ';' ∉ value ∧ taken = name ++ '=' :: value := by
  constructor
  · intro takes
    obtain ⟨_, rfl, number, _, _, _, rfl, rfl, first, second⟩ := Regex.takes_literal_seq.mp takes
    obtain ⟨rfl, family⟩ := takes_number.mp first
    obtain ⟨value, rfl, all, rfl⟩ := Regex.takes_literal_seq.mp second
    refine ⟨rfl, cookieName ++ number, value, family, ?_, (List.append_assoc ..).symm⟩
    exact fun member => absurd (all _ member) (by decide)
  · rintro ⟨rfl, name, value, family, free, rfl⟩
    obtain ⟨number, rfl⟩ : ∃ number, name = cookieName ++ number := by
      rcases familyName_iff.mp family with rfl | ⟨digits, rfl, _, _⟩
      · exact ⟨[], (List.append_nil _).symm⟩
      · exact ⟨'_' :: digits, rfl⟩
    refine Regex.takes_literal_seq.mpr ⟨number ++ '=' :: value, List.append_assoc .., number,
      '=' :: value, [], [], rfl, rfl, takes_number.mpr ⟨rfl, family⟩, ?_⟩
    refine Regex.takes_literal_seq.mpr ⟨value, rfl, fun char member => ?_, rfl⟩
    refine bne_iff_ne.mpr ?_
    rintro rfl
    exact free member

theorem takes_separator {taken : Str} {groups : List (Group × Str)} :
    Takes separator taken groups ↔ groups = [] ∧ ∃ blank, (∀ char ∈ blank, space char = true) ∧
      taken = ';' :: blank := by
  constructor
  · intro takes
    obtain ⟨blank, rfl, all, rfl⟩ := Regex.takes_literal_seq.mp takes
    exact ⟨rfl, blank, all, rfl⟩
  · rintro ⟨rfl, blank, all, rfl⟩
    exact Regex.takes_literal_seq.mpr ⟨blank, rfl, all, rfl⟩

/-- A separator and what follows it. -/
theorem takes_separator_seq {next : Regex Char Group} {taken : Str} {groups : List (Group × Str)} :
    Takes (.seq separator next) taken groups ↔ ∃ blank rest, (∀ char ∈ blank, space char = true) ∧
      taken = ';' :: (blank ++ rest) ∧ Takes next rest groups := by
  constructor
  · rintro ⟨_, rest, _, _, rfl, rfl, first, second⟩
    obtain ⟨rfl, blank, white, rfl⟩ := takes_separator.mp first
    exact ⟨blank, rest, white, rfl, second⟩
  · rintro ⟨blank, rest, white, rfl, takes⟩
    exact ⟨';' :: blank, rest, [], groups, rfl, rfl, takes_separator.mpr ⟨rfl, blank, white, rfl⟩,
      takes⟩

/-! ### One cookie taken out -/

/-- A cookie of the family with its name right before the `=`. -/
def IsSession (cookie : Str) : Prop :=
  ∃ blank name value, (∀ char ∈ blank, space char = true) ∧ familyName name = true ∧ ';' ∉ value ∧
    cookie = blank ++ (name ++ '=' :: value)

/-- A header with one such cookie among its others, and a header with the others only. -/
def Removes (header output : Str) : Prop :=
  ∃ front cookie back, IsSession cookie ∧ header.splitOn ';' = front ++ cookie :: back ∧
    pairs output = front.filterMap cookiePair ++ back.filterMap cookiePair

theorem white_of_space {blank : Str} (all : ∀ char ∈ blank, space char = true) :
    ∀ char ∈ blank, isWhitespace char = true := by
  intro char member
  have listed := all char member
  unfold space at listed
  unfold isWhitespace
  simp only [Bool.or_eq_true] at listed ⊢
  tauto

theorem free_of_isSession {cookie : Str} (own : IsSession cookie) : ';' ∉ cookie := by
  obtain ⟨blank, name, value, white, family, free, rfl⟩ := own
  rw [List.mem_append, List.mem_append, List.mem_cons]
  rintro (member | member | same | member)
  · exact absurd (white _ member) (by decide)
  · exact (plain_of_familyName family _ member).2.1 rfl
  · exact absurd same (by decide)
  · exact free member

/-- What such a cookie is to `session_cookie`. -/
theorem cookiePair_of_isSession {cookie : Str} (own : IsSession cookie) :
    ∃ pair, cookiePair cookie = some pair ∧ isFamily pair = true := by
  obtain ⟨blank, name, value, white, family, _, rfl⟩ := own
  have plain := plain_of_familyName family
  refine ⟨(name, value), ?_, family⟩
  rw [cookiePair_blank (white_of_space white)]
  unfold cookiePair
  rw [splitOnce_append fun member => (plain _ member).1 rfl, Option.map_some,
    trim_of_free fun char member => (plain char member).2.2]

theorem splitOn_of_free {cookie : Str} (free : ';' ∉ cookie) (rest : Str) :
    (cookie ++ ';' :: rest).splitOn ';' = cookie :: rest.splitOn ';' := by
  rw [List.splitOn_append_cons_self, List.splitOn_eq_singleton free]
  rfl

theorem isSession_blank {blank cookie : Str} (white : ∀ char ∈ blank, space char = true)
    (own : IsSession cookie) : IsSession (blank ++ cookie) := by
  obtain ⟨more, name, value, also, family, free, rfl⟩ := own
  refine ⟨blank ++ more, name, value, ?_, family, free, (List.append_assoc ..).symm⟩
  exact fun char member => (List.mem_append.mp member).elim (white char) (also char)

theorem isSession_of_takes {taken : Str} {groups : List (Group × Str)}
    (takes : Takes session taken groups) : groups = [] ∧ IsSession taken := by
  obtain ⟨rfl, name, value, family, free, rfl⟩ := takes_session.mp takes
  exact ⟨rfl, [], name, value, (fun _ member => nomatch member), family, free, rfl⟩

theorem removes_alone {cookie : Str} (own : IsSession cookie) : Removes cookie [] :=
  ⟨[], cookie, [], own, List.splitOn_eq_singleton (free_of_isSession own), rfl⟩

theorem removes_first {cookie blank tail : Str} (own : IsSession cookie)
    (white : ∀ char ∈ blank, space char = true) :
    Removes (cookie ++ ';' :: (blank ++ tail)) tail := by
  refine ⟨[], cookie, (blank ++ tail).splitOn ';', own, splitOn_of_free (free_of_isSession own) _,
    ?_⟩
  rw [← pairs_blank (white_of_space white)]
  rfl

theorem removes_last {head cookie : Str} (own : IsSession cookie) :
    Removes (head ++ ';' :: cookie) head := by
  refine ⟨head.splitOn ';', cookie, [], own, ?_, (List.append_nil _).symm⟩
  rw [List.splitOn_append_cons_self, List.splitOn_eq_singleton (free_of_isSession own)]

theorem removes_between {head cookie blank tail : Str} (own : IsSession cookie)
    (white : ∀ char ∈ blank, space char = true) :
    Removes (head ++ ';' :: (cookie ++ ';' :: (blank ++ tail))) (head ++ "; ".toList ++ tail) := by
  refine ⟨head.splitOn ';', cookie, (blank ++ tail).splitOn ';', own, ?_, ?_⟩
  · rw [List.splitOn_append_cons_self, splitOn_of_free (free_of_isSession own)]
  · have single : ∀ char ∈ [' '], isWhitespace char = true := by
      intro char member
      rw [List.mem_singleton.mp member]
      decide
    rw [show head ++ "; ".toList ++ tail = head ++ ';' :: ([' '] ++ tail) from by
      rw [List.append_assoc]; rfl]
    rw [pairs_append, pairs_blank single, ← pairs_blank (white_of_space white) tail]
    rfl

/-- **A match takes one session cookie away.** -/
theorem removes_of_rule {header : Str} (readable : Readable header)
    {rule : Regex Char Group × (List (Group × Str) → Str)} (member : rule ∈ cookieMap)
    {groups : List (Group × Str)} (found : fullMatch atEnd rule.1 header = some groups) :
    Removes header (rule.2 groups) := by
  obtain ⟨taken, rest, rfl, last, takes⟩ := Regex.takes_of_fullMatch found
  have none : rest = [] := by
    unfold atEnd at last
    rw [Bool.or_eq_true, decide_eq_true_eq, decide_eq_true_eq] at last
    refine last.resolve_right ?_
    rintro rfl
    rcases readable '\n' (List.mem_append_right _ (List.mem_singleton_self _)) with same | ⟨low, _⟩
    · exact absurd same (by decide)
    · exact absurd low (by decide)
  subst none
  rw [List.append_nil]
  unfold cookieMap at member
  rw [List.mem_cons, List.mem_cons, List.mem_cons, List.mem_singleton] at member
  rcases member with rfl | rfl | rfl | rfl
  · exact removes_alone (isSession_of_takes takes).2
  · obtain ⟨own, _, _, _, rfl, rfl, first, second⟩ := takes
    obtain ⟨rfl, isOwn⟩ := isSession_of_takes first
    obtain ⟨blank, tail, white, rfl, _, rfl, _, rfl⟩ := takes_separator_seq.mp second
    exact removes_first isOwn white
  · obtain ⟨head, _, _, _, rfl, rfl, ⟨_, rfl, _, rfl⟩, first⟩ := takes
    obtain ⟨blank, own, white, rfl, second⟩ := takes_separator_seq.mp first
    obtain ⟨rfl, isOwn⟩ := isSession_of_takes second
    exact removes_last (isSession_blank white isOwn)
  · obtain ⟨head, _, _, _, rfl, rfl, ⟨_, rfl, _, rfl⟩, first⟩ := takes
    obtain ⟨blank, _, white, rfl, own, _, _, _, rfl, rfl, second, third⟩ :=
      takes_separator_seq.mp first
    obtain ⟨rfl, isOwn⟩ := isSession_of_takes second
    obtain ⟨more, tail, also, rfl, _, rfl, _, rfl⟩ := takes_separator_seq.mp third
    have removes :=
      @removes_between head (blank ++ own) more tail (isSession_blank white isOwn) also
    rw [List.append_assoc] at removes
    exact removes

/-! ### One cookie found -/

/-- A piece of a header, with what is in front of it and behind it. -/
theorem around {front back : List Str} {header cookie : Str}
    (cut : header.splitOn ';' = front ++ cookie :: back) :
    ∃ before behind, header = before ++ (cookie ++ behind) ∧
      (before = [] ∨ ∃ head, before = head ++ [';']) ∧
        (behind = [] ∨ ∃ tail, behind = ';' :: tail) := by
  have whole := Lib.rooted_splitOn ';' header
  rw [cut, Lib.rooted_append, Lib.rooted_cons] at whole
  have after : Lib.rooted ';' back = [] ∨ ∃ tail, Lib.rooted ';' back = ';' :: tail := by
    cases back with
    | nil => exact Or.inl rfl
    | cons first back => exact Or.inr ⟨_, rfl⟩
  cases front with
  | nil =>
    rw [Lib.rooted_nil, List.nil_append, List.cons.injEq] at whole
    exact ⟨[], Lib.rooted ';' back, whole.2.symm, Or.inl rfl, after⟩
  | cons first front =>
    rw [Lib.rooted_cons, List.cons_append, List.cons.injEq] at whole
    refine ⟨(first ++ Lib.rooted ';' front) ++ [';'], Lib.rooted ';' back, ?_, Or.inr ⟨_, rfl⟩,
      after⟩
    rw [← whole.2]
    simp only [List.append_assoc, List.cons_append, List.nil_append]

/-- A trimmed text starts with no white space. -/
theorem dropWhile_of_trim {text : Str} (trimmed : trim text = text) :
    text.dropWhile isWhitespace = text := by
  have right : text.rdropWhile isWhitespace = text := by
    refine (List.rdropWhile_prefix isWhitespace text).eq_of_length_le ?_
    have shorter :=
      (List.dropWhile_sublist isWhitespace (l := text.rdropWhile isWhitespace)).length_le
    unfold trim at trimmed
    rwa [trimmed] at shorter
  unfold trim at trimmed
  rwa [right] at trimmed

theorem takes_of_isSession {cookie : Str} (own : IsSession cookie) :
    ∃ blank inner, (∀ char ∈ blank, space char = true) ∧ cookie = blank ++ inner ∧
      Takes session inner [] := by
  obtain ⟨blank, name, value, white, family, free, rfl⟩ := own
  exact ⟨blank, name ++ '=' :: value, white, rfl,
    takes_session.mpr ⟨rfl, name, value, family, free, rfl⟩⟩

theorem takes_dots {reluctant : Bool} {name : Group} {text : Str}
    (readable : ∀ char ∈ text, char ≠ '\n') :
    Takes (.group name (.many reluctant dot)) text [(name, text)] :=
  ⟨[], rfl, fun char member => bne_iff_ne.mpr (readable char member), rfl⟩

/-- **A session cookie of the header is found**, by the rule for its place. -/
theorem exists_rule {header cookie : Str} (readable : Readable header)
    (trimmed : header.dropWhile isWhitespace = header) (own : IsSession cookie)
    (member : cookie ∈ header.splitOn ';') :
    ∃ rule ∈ cookieMap, (fullMatch atEnd rule.1 header).isSome = true := by
  obtain ⟨front, back, cut⟩ := List.append_of_mem member
  obtain ⟨before, behind, rfl, first, last⟩ := around cut
  obtain ⟨blank, inner, white, rfl, takes⟩ := takes_of_isSession own
  have lines : ∀ char ∈ before ++ (blank ++ inner ++ behind), char ≠ '\n' := by
    rintro char member rfl
    rcases readable '\n' member with same | ⟨low, _⟩
    · exact absurd same (by decide)
    · exact absurd low (by decide)
  have ends : atEnd [] = true := rfl
  have ending : ∀ name, ∀ tail, (∀ char ∈ tail, char ≠ '\n') →
      Takes (.seq separator (.group name (.many false dot))) (';' :: tail) [(name, tail)] :=
    fun name tail all => takes_separator_seq.mpr
      ⟨[], tail, (fun _ member => nomatch member), rfl, takes_dots all⟩
  rcases first with rfl | ⟨head, rfl⟩
  · have bare : blank = [] := by
      cases blank with
      | nil => rfl
      | cons char blank =>
        have cut := white_of_space white char List.mem_cons_self
        rw [List.nil_append, List.cons_append, List.cons_append,
          List.dropWhile_cons_of_pos cut] at trimmed
        have short :=
          (List.dropWhile_sublist (l := blank ++ inner ++ behind) isWhitespace).length_le
        rw [trimmed, List.length_cons] at short
        omega
    subst bare
    rcases last with rfl | ⟨tail, rfl⟩
    · refine ⟨_, List.mem_cons_self, ?_⟩
      have found := Regex.isSome_fullMatch takes ends
      rwa [List.append_nil] at found ⊢
    · refine ⟨_, List.mem_cons_of_mem _ List.mem_cons_self, ?_⟩
      have whole : Takes (.seq session (.seq separator (.group .tail (.many false dot))))
          (inner ++ ';' :: tail) [(.tail, tail)] :=
        ⟨inner, ';' :: tail, [], _, rfl, rfl, takes,
          ending .tail tail fun char member => lines char (by simp [member])⟩
      have found := Regex.isSome_fullMatch whole ends
      rwa [List.append_nil] at found
  · have start : ∀ name, Takes (.group name (.many true dot)) head [(name, head)] :=
      fun _ => takes_dots fun char member => lines char (by simp [member])
    rcases last with rfl | ⟨tail, rfl⟩
    · refine ⟨_, List.mem_cons_of_mem _ (List.mem_cons_of_mem _ List.mem_cons_self), ?_⟩
      have whole : Takes (.seq (.group .head (.many true dot)) (.seq separator session))
          (head ++ ';' :: (blank ++ inner)) [(.head, head)] :=
        ⟨head, _, [_], [], rfl, rfl, start .head,
          takes_separator_seq.mpr ⟨blank, inner, white, rfl, takes⟩⟩
      have found := Regex.isSome_fullMatch whole ends
      simpa using found
    · refine ⟨_, List.mem_cons_of_mem _ (List.mem_cons_of_mem _ (List.mem_cons_of_mem _
        List.mem_cons_self)), ?_⟩
      have behind : Takes (.seq session (.seq separator (.group .tail2 (.many false dot))))
          (inner ++ ';' :: tail) [(.tail2, tail)] :=
        ⟨inner, _, [], _, rfl, rfl, takes,
          ending .tail2 tail fun char member => lines char (by simp [member])⟩
      have whole : Takes (.seq (.group .head2 (.many true dot)) (.seq separator
          (.seq session (.seq separator (.group .tail2 (.many false dot))))))
          (head ++ ';' :: (blank ++ (inner ++ ';' :: tail))) [(.head2, head), (.tail2, tail)] :=
        ⟨head, _, [_], [_], rfl, rfl, start .head2,
          takes_separator_seq.mpr ⟨blank, _, white, rfl, behind⟩⟩
      have found := Regex.isSome_fullMatch whole ends
      simpa using found

/-! ### The two parsers -/

/-- A name of the family, where the cookie has one, ends right before the `=`. -/
def NameTouches (cookie : Str) : Prop :=
  ∀ name value, splitOnce '=' cookie = some (name, value) → familyName (trim name) = true →
    name.rdropWhile isWhitespace = name

/-- No session cookie is left, and every other cookie is, in order. -/
def Stripped (header output : Str) : Prop :=
  (∀ pair ∈ pairs output, isFamily pair = false) ∧
    ((pairs header).filter fun pair => !isFamily pair).Sublist (pairs output)

instance (cookie : Str) : Decidable (NameTouches cookie) :=
  decidable_of_iff (∀ parts ∈ splitOnce '=' cookie, familyName (trim parts.1) = true →
    parts.1.rdropWhile isWhitespace = parts.1)
    ⟨fun all name value found => all (name, value) found, fun all _ found => all _ _ found⟩

instance (header output : Str) : Decidable (Stripped header output) :=
  inferInstanceAs (Decidable (_ ∧ _))

theorem mem_of_mem_splitOn {header cookie : Str} (member : cookie ∈ header.splitOn ';')
    {char : Char} (inside : char ∈ cookie) : char ∈ header := by
  obtain ⟨front, back, cut⟩ := List.append_of_mem member
  obtain ⟨before, behind, rfl, _⟩ := around cut
  exact List.mem_append_right _ (List.mem_append_left _ inside)

theorem space_of_white {char : Char} (white : isWhitespace char = true)
    (readable : char = '\t' ∨ 32 ≤ char.toNat ∧ char.toNat < 127) : space char = true := by
  rcases readable with rfl | ⟨low, high⟩
  · decide
  · unfold isWhitespace at white
    unfold space
    simp only [Bool.or_eq_true, Bool.and_eq_true, decide_eq_true_eq, beq_iff_eq] at white ⊢
    omega

/-- A name that touches its `=` is all the family needs. -/
theorem isSession_of_touches {header cookie name value : Str} (readable : Readable header)
    (member : cookie ∈ header.splitOn ';') (found : splitOnce '=' cookie = some (name, value))
    (family : familyName (trim name) = true) (touches : name.rdropWhile isWhitespace = name) :
    IsSession cookie := by
  obtain ⟨rfl, _⟩ := splitOnce_eq_some.mp found
  have trimmed : trim name = name.dropWhile isWhitespace := by
    unfold trim
    rw [touches]
  refine ⟨name.takeWhile isWhitespace, trim name, value, fun char inside => ?_, family, ?_, ?_⟩
  · refine space_of_white (List.mem_takeWhile_imp inside) (readable char ?_)
    exact mem_of_mem_splitOn member
      (List.mem_append_left _ ((List.takeWhile_prefix _).subset inside))
  · exact fun inside => Lib.not_mem_of_mem_splitOn member
      (List.mem_append_right _ (List.mem_cons_of_mem _ inside))
  · rw [trimmed, ← List.append_assoc, List.takeWhile_append_dropWhile]

theorem touches_of_isSession {cookie : Str} (own : IsSession cookie) : NameTouches cookie := by
  obtain ⟨blank, name, value, white, family, _, rfl⟩ := own
  intro other rest found _
  have plain := plain_of_familyName family
  have free : '=' ∉ blank ++ name := by
    intro member
    rcases List.mem_append.mp member with member | member
    · exact absurd (white _ member) (by decide)
    · exact (plain _ member).1 rfl
  rw [← List.append_assoc, splitOnce_append free, Option.some.injEq, Prod.mk.injEq] at found
  rw [← found.1, List.rdropWhile_eq_self_iff]
  intro some
  have nonempty : name ≠ [] := by
    rintro rfl
    exact absurd family (by decide)
  rw [List.getLast_append_of_ne_nil _ nonempty, (plain _ (List.getLast_mem nonempty)).2.2]
  exact Bool.false_ne_true

theorem cookiePair_family {cookie : Str} {pair : Str × Str} (found : cookiePair cookie = some pair)
    (family : isFamily pair = true) :
    ∃ name value, splitOnce '=' cookie = some (name, value) ∧ familyName (trim name) = true := by
  obtain ⟨⟨name, value⟩, shown, rfl⟩ := Option.map_eq_some_iff.mp found
  exact ⟨name, value, shown, family⟩

/-- With one session cookie at most, taking it away is what stripping is. -/
theorem stripped_of_removes {header output : Str}
    (one : ((pairs header).filter isFamily).length ≤ 1) (removes : Removes header output) :
    Stripped header output ∧ ∀ cookie ∈ header.splitOn ';', NameTouches cookie := by
  obtain ⟨front, cookie, back, own, cut, left⟩ := removes
  obtain ⟨pair, shown, family⟩ := cookiePair_of_isSession own
  have whole : pairs header = front.filterMap cookiePair ++ pair :: back.filterMap cookiePair := by
    unfold pairs
    rw [cut, List.filterMap_append, List.filterMap_cons_some shown]
  rw [whole, List.filter_append, List.filter_cons_of_pos family, List.length_append,
    List.length_cons] at one
  have others : ∀ other ∈ pairs output, isFamily other = false := by
    have none : (pairs output).filter isFamily = [] := by
      rw [left, List.filter_append, List.append_eq_nil_iff, ← List.length_eq_zero_iff,
        ← List.length_eq_zero_iff]
      omega
    intro other member
    rw [List.filter_eq_nil_iff] at none
    exact Bool.not_eq_true _ ▸ none other member
  refine ⟨⟨others, ?_⟩, fun other member name value found named => ?_⟩
  · rw [whole, left, List.filter_append, List.filter_cons_of_neg (by simp [family]),
      ← List.filter_append]
    exact List.filter_sublist
  · have rest : other = cookie ∨ other ∈ front ∨ other ∈ back := by
      rw [cut, List.mem_append, List.mem_cons] at member
      tauto
    rcases rest with rfl | inside
    · exact touches_of_isSession own name value found named
    · exfalso
      have second : cookiePair other = some (trim name, value) := by
        unfold cookiePair
        rw [found]
        rfl
      have listed : (trim name, value) ∈ pairs output := by
        rw [left, List.mem_append, List.mem_filterMap, List.mem_filterMap]
        exact inside.imp (fun member => ⟨other, member, second⟩) fun member =>
          ⟨other, member, second⟩
      have clean := others _ listed
      unfold isFamily at clean
      rw [named] at clean
      cases clean

/-- **The map agrees with `session_cookie`** exactly when no white space stands between the name of
a session cookie and its `=`. -/
theorem stripped_iff {header : Str} (readable : Readable header) (trimmed : trim header = header)
    (single : sessionCookie (some header) ≠ .error .ambiguous) :
    Stripped header (upstreamCookie header) ↔
      ∀ cookie ∈ header.splitOn ';', NameTouches cookie := by
  have one : ((pairs header).filter isFamily).length ≤ 1 := by
    by_contra many
    refine single ?_
    rw [sessionCookie_eq]
    exact if_pos (Nat.lt_of_not_ge many)
  cases first : cookieMap.findSome? fun rule => (fullMatch atEnd rule.1 header).map rule.2 with
  | some output =>
    have same : upstreamCookie header = output := by
      unfold upstreamCookie
      rw [first]
      rfl
    obtain ⟨rule, member, rendered⟩ := List.exists_of_findSome?_eq_some first
    obtain ⟨groups, found, rfl⟩ := Option.map_eq_some_iff.mp rendered
    obtain ⟨stripped, touch⟩ := stripped_of_removes one (removes_of_rule readable member found)
    rw [same]
    exact iff_of_true stripped touch
  | none =>
    have same : upstreamCookie header = header := by
      unfold upstreamCookie
      rw [first]
      rfl
    rw [same]
    constructor
    · intro stripped cookie member name value found family
      have pair : (trim name, value) ∈ pairs header := by
        refine List.mem_filterMap.mpr ⟨cookie, member, ?_⟩
        unfold cookiePair
        rw [found]
        rfl
      have clean := stripped.1 _ pair
      unfold isFamily at clean
      rw [family] at clean
      cases clean
    · intro touch
      refine ⟨fun pair member => ?_, List.filter_sublist⟩
      by_contra family
      rw [Bool.not_eq_false] at family
      obtain ⟨cookie, inside, shown⟩ := List.mem_filterMap.mp member
      obtain ⟨name, value, found, named⟩ := cookiePair_family shown family
      have own := isSession_of_touches readable inside found named
        (touch cookie inside name value found named)
      obtain ⟨rule, listed, matched⟩ := exists_rule readable (dropWhile_of_trim trimmed) own inside
      have missed := List.findSome?_eq_none_iff.mp first rule listed
      rw [Option.map_eq_none_iff] at missed
      rw [missed] at matched
      cases matched

/-- A chunk between an application's cookies. -/
theorem stripped_between : Stripped "a=1; _oauth2_proxy_0=v;b=2".toList
    (upstreamCookie "a=1; _oauth2_proxy_0=v;b=2".toList) :=
  (@stripped_iff "a=1; _oauth2_proxy_0=v;b=2".toList (by decide +kernel) (by decide +kernel)
    (by decide +kernel)).mpr (by decide +kernel)

/-- **A space before the `=`**, and the session cookie goes to the upstream. -/
theorem loose_passes : Readable "_oauth2_proxy =v".toList ∧
    trim "_oauth2_proxy =v".toList = "_oauth2_proxy =v".toList ∧
    sessionCookie (some "_oauth2_proxy =v".toList) = .ok (some "v".toList) ∧
    upstreamCookie "_oauth2_proxy =v".toList = "_oauth2_proxy =v".toList ∧
    ¬ Stripped "_oauth2_proxy =v".toList (upstreamCookie "_oauth2_proxy =v".toList) := by
  decide +kernel

end OpenBerat.Nginx
