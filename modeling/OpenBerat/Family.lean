/-
**The cookies of a header, and the session family.**

A Cookie header is a list of name and value pairs. `sessionCookie` is a question about the pairs of
the session family only (`sessionCookie_eq`): two of them are ambiguous, and the value is the last
one's of the cookie's own name.

* `pairs_append`, `pairs_blank`: the pairs behind a separator, and behind white space.
-/

import OpenBerat.Cookie

namespace OpenBerat

/-- The name and the value of one cookie of a header, nothing where there is no `=`. -/
def cookiePair (cookie : Str) : Option (Str × Str) :=
  (splitOnce '=' cookie).map fun parts => (trim parts.1, parts.2)

/-- The pairs of a Cookie header. -/
def pairs (header : Str) : List (Str × Str) :=
  (header.splitOn ';').filterMap cookiePair

/-- The session cookie's own name, or a chunk's. -/
def familyName (name : Str) : Bool :=
  name = cookieName || isChunk name

/-- A pair of the session family. -/
def isFamily (pair : Str × Str) : Bool :=
  familyName pair.1

/-- `session_cookie` on one pair. -/
def scanPair (scan : CookieScan) (pair : Str × Str) : CookieScan :=
  if pair.1 = cookieName then ⟨some pair.2, scan.seen + 1⟩
  else if isChunk pair.1 then ⟨scan.found, scan.seen + 1⟩
  else scan

theorem scanCookie_eq (scan : CookieScan) (cookie : Str) :
    scanCookie scan cookie = (cookiePair cookie).elim scan (scanPair scan) := by
  unfold scanCookie cookiePair
  cases splitOnce '=' cookie with
  | none => rfl
  | some parts => rfl

theorem foldl_scanCookie (cookies : List Str) (scan : CookieScan) :
    cookies.foldl scanCookie scan = (cookies.filterMap cookiePair).foldl scanPair scan := by
  induction cookies generalizing scan with
  | nil => rfl
  | cons cookie cookies ih =>
    rw [List.foldl_cons, ih, scanCookie_eq]
    cases found : cookiePair cookie with
    | none => rw [List.filterMap_cons_none found, Option.elim_none]
    | some pair => rw [List.filterMap_cons_some found, List.foldl_cons, Option.elim_some]

/-- Only the family counts. -/
theorem foldl_scanPair (list : List (Str × Str)) (scan : CookieScan) :
    list.foldl scanPair scan = (list.filter isFamily).foldl scanPair scan ∧
    (list.foldl scanPair scan).seen =
      scan.seen + (list.filter isFamily).length := by
  induction list generalizing scan with
  | nil => exact ⟨rfl, rfl⟩
  | cons pair list ih =>
    rw [List.foldl_cons]
    by_cases family : isFamily pair = true
    · rw [List.filter_cons_of_pos family, List.foldl_cons, List.length_cons]
      obtain ⟨same, seen⟩ := ih (scanPair scan pair)
      refine ⟨same, ?_⟩
      have one : (scanPair scan pair).seen = scan.seen + 1 := by
        unfold isFamily familyName at family
        unfold scanPair
        by_cases own : pair.1 = cookieName
        · rw [if_pos own]
        · rw [if_neg own]
          rw [decide_eq_false own, Bool.false_or] at family
          rw [if_pos family]
      rw [seen, one]
      omega
    · rw [List.filter_cons_of_neg family]
      have skipped : scanPair scan pair = scan := by
        rw [isFamily, familyName, Bool.or_eq_true, decide_eq_true_eq, not_or] at family
        unfold scanPair
        rw [if_neg family.1, if_neg family.2]
      rw [skipped]
      exact ih scan

/-- **What `sessionCookie` answers** depends on the pairs of the family. -/
theorem sessionCookie_eq (header : Str) :
    sessionCookie (some header) =
      let family := (pairs header).filter isFamily
      if family.length > 1 then .error .ambiguous
      else .ok (family.foldl scanPair ⟨none, 0⟩).found := by
  obtain ⟨same, seen⟩ := foldl_scanPair (pairs header) ⟨none, 0⟩
  rw [Nat.zero_add] at seen
  unfold sessionCookie
  rw [Option.getD_some, foldl_scanCookie]
  show (if ((pairs header).foldl scanPair ⟨none, 0⟩).seen > 1 then _ else _) = _
  rw [seen]
  dsimp only
  rw [← same]
  rfl

/-! ### Pairs and text -/

theorem pairs_append (front rest : Str) :
    pairs (front ++ ';' :: rest) = pairs front ++ pairs rest := by
  unfold pairs
  rw [List.splitOn_append_cons_self, List.filterMap_append]

theorem pairs_of_free {cookie : Str} (free : ';' ∉ cookie) :
    pairs cookie = (cookiePair cookie).toList := by
  unfold pairs
  rw [List.splitOn_eq_singleton free]
  cases found : cookiePair cookie with
  | none => rw [List.filterMap_cons_none found, Option.toList_none, List.filterMap_nil]
  | some pair => rw [List.filterMap_cons_some found, Option.toList_some, List.filterMap_nil]

theorem splitOnce_append {name : Str} (free : '=' ∉ name) (value : Str) :
    splitOnce '=' (name ++ '=' :: value) = some (name, value) := by
  have passes : ∀ char ∈ name, (char != '=') = true := by
    intro char member
    refine bne_iff_ne.mpr ?_
    rintro rfl
    exact free member
  have before : (name ++ '=' :: value).takeWhile (· != '=') = name := by
    rw [List.takeWhile_append_of_pos passes]
    exact List.append_nil name
  have behind : (name ++ '=' :: value).dropWhile (· != '=') = '=' :: value := by
    rw [List.dropWhile_append_of_pos passes]
    rfl
  unfold splitOnce
  rw [if_pos (List.mem_append_right _ List.mem_cons_self), before, behind]
  rfl

/-- A cookie with a `=` is the name, the `=` and the value. -/
theorem splitOnce_eq_some {cookie name value : Str} :
    splitOnce '=' cookie = some (name, value) ↔ cookie = name ++ '=' :: value ∧ '=' ∉ name := by
  constructor
  · intro found
    by_cases member : '=' ∈ cookie
    · obtain ⟨before, behind, rfl, free⟩ := List.eq_append_cons_of_mem member
      rw [splitOnce_append free] at found
      cases found
      exact ⟨rfl, free⟩
    · unfold splitOnce at found
      rw [if_neg member] at found
      cases found
  · rintro ⟨rfl, free⟩
    exact splitOnce_append free value

theorem trim_blank {blank : Str} (white : ∀ char ∈ blank, isWhitespace char = true) (text : Str) :
    trim (blank ++ text) = trim text := by
  unfold trim List.rdropWhile
  rw [List.reverse_append, List.dropWhile_append]
  by_cases empty : (text.reverse.dropWhile isWhitespace).isEmpty = true
  · have all : blank.reverse.dropWhile isWhitespace = [] := by
      rw [List.dropWhile_eq_nil_iff]
      exact fun char member => white char (List.mem_reverse.mp member)
    rw [if_pos empty, all, List.isEmpty_iff.mp empty]
  · rw [if_neg empty, List.reverse_append, List.reverse_reverse, List.dropWhile_append_of_pos white]

/-- White space in front of a cookie does not matter. -/
theorem cookiePair_blank {blank : Str} (white : ∀ char ∈ blank, isWhitespace char = true)
    (cookie : Str) : cookiePair (blank ++ cookie) = cookiePair cookie := by
  have free : '=' ∉ blank := fun member => absurd (white _ member) (by decide)
  unfold cookiePair
  cases found : splitOnce '=' cookie with
  | none =>
    have absent : '=' ∉ blank ++ cookie := by
      intro member
      unfold splitOnce at found
      rw [if_pos ((List.mem_append.mp member).resolve_left free)] at found
      cases found
    unfold splitOnce
    rw [if_neg absent]
  | some parts =>
    obtain ⟨name, value⟩ := parts
    obtain ⟨rfl, inName⟩ := splitOnce_eq_some.mp found
    have whole : splitOnce '=' (blank ++ (name ++ '=' :: value)) = some (blank ++ name, value) := by
      rw [← List.append_assoc]
      exact splitOnce_append (fun member => (List.mem_append.mp member).elim free inName) value
    rw [whole]
    show some (trim (blank ++ name), value) = some (trim name, value)
    rw [trim_blank white]

theorem pairs_blank {blank : Str} (white : ∀ char ∈ blank, isWhitespace char = true) (text : Str) :
    pairs (blank ++ text) = pairs text := by
  have free : ';' ∉ blank := fun member => absurd (white _ member) (by decide)
  by_cases member : ';' ∈ text
  · obtain ⟨first, rest, rfl, inFirst⟩ := List.eq_append_cons_of_mem member
    have whole : ';' ∉ blank ++ first := fun member => (List.mem_append.mp member).elim free inFirst
    rw [← List.append_assoc, pairs_append, pairs_append, pairs_of_free whole, pairs_of_free inFirst,
      cookiePair_blank white]
  · have whole : ';' ∉ blank ++ text := fun inside => (List.mem_append.mp inside).elim free member
    rw [pairs_of_free whole, pairs_of_free member, cookiePair_blank white]

/-! ### Names of the family -/

theorem isChunk_iff {name : Str} :
    isChunk name = true ↔ ∃ digits, name = cookieName ++ '_' :: digits ∧ digits ≠ [] ∧
      (asBytes digits).all isAsciiDigit = true := by
  unfold isChunk stripPrefix
  constructor
  · intro chunk
    split at chunk
    · cases chunk
    · rename_i digits found
      obtain ⟨rest, first, second⟩ := Option.bind_eq_some_iff.mp found
      split at first
      · rename_i start
        obtain ⟨tail, rfl⟩ := start
        split at second
        · rename_i underscore
          rw [List.drop_left] at first
          obtain rfl := Option.some.inj first
          obtain ⟨last, rfl⟩ := underscore
          rw [show (['_'] ++ last).drop ['_'].length = last from rfl] at second
          obtain rfl := Option.some.inj second
          rw [Bool.and_eq_true, Bool.not_eq_true', List.isEmpty_eq_false_iff] at chunk
          exact ⟨last, rfl, chunk⟩
        · cases second
      · cases first
  · rintro ⟨digits, rfl, some, all⟩
    rw [if_pos (List.prefix_append _ _), List.drop_left]
    rw [Option.bind_some, if_pos ⟨digits, rfl⟩]
    show (!digits.isEmpty && (asBytes digits).all isAsciiDigit) = true
    rw [all, Bool.and_true, Bool.not_eq_true', List.isEmpty_eq_false_iff]
    exact some

/-- The characters of a chunk's number are ASCII digits. -/
theorem digit_of_all {digits : Str} (all : (asBytes digits).all isAsciiDigit = true) :
    ∀ char ∈ digits, 48 ≤ char.toNat ∧ char.toNat ≤ 57 := by
  have bounds : ∀ byte, isAsciiDigit byte = true → 48 ≤ byte.toNat ∧ byte.toNat ≤ 57 :=
    fun byte digit => of_decide_eq_true digit
  intro char member
  have low : ∀ byte, isAsciiDigit byte = true → byte.toNat < 0x80 := by
    intro byte digit
    have limits := bounds byte digit
    omega
  obtain ⟨byte, digit, code⟩ := ascii_of_all low all char member
  rw [← code]
  exact bounds byte digit

/-- Letters, digits and underscores. -/
theorem plain_of_familyName {name : Str} (family : familyName name = true) :
    ∀ char ∈ name, char ≠ '=' ∧ char ≠ ';' ∧ isWhitespace char = false := by
  have checked : (cookieName.all fun char =>
      char != '=' && char != ';' && !isWhitespace char) = true := by decide
  have own : ∀ char ∈ cookieName, char ≠ '=' ∧ char ≠ ';' ∧ isWhitespace char = false := by
    intro char member
    have each := List.all_eq_true.mp checked char member
    rw [Bool.and_eq_true, Bool.and_eq_true, bne_iff_ne, bne_iff_ne, Bool.not_eq_true'] at each
    exact ⟨each.1.1, each.1.2, each.2⟩
  intro char member
  unfold familyName at family
  rw [Bool.or_eq_true, decide_eq_true_eq] at family
  rcases family with rfl | chunk
  · exact own char member
  · obtain ⟨digits, rfl, _, all⟩ := isChunk_iff.mp chunk
    rcases List.mem_append.mp member with inName | inRest
    · exact own char inName
    · rcases List.mem_cons.mp inRest with rfl | inDigits
      · decide
      · obtain ⟨low, high⟩ := digit_of_all all char inDigits
        refine ⟨?_, ?_, ?_⟩
        · rintro rfl
          exact absurd high (by decide)
        · rintro rfl
          exact absurd high (by decide)
        · unfold isWhitespace
          simp only [Bool.or_eq_false_iff, Bool.and_eq_false_iff, decide_eq_false_iff_not,
            beq_eq_false_iff_ne]
          omega

theorem trim_of_free {text : Str} (free : ∀ char ∈ text, isWhitespace char = false) :
    trim text = text := by
  have right : text.rdropWhile isWhitespace = text := by
    rw [List.rdropWhile_eq_self_iff]
    intro some
    rw [free _ (List.getLast_mem some)]
    exact Bool.false_ne_true
  unfold trim
  rw [right]
  cases text with
  | nil => rfl
  | cons char text => rw [List.dropWhile_cons_of_neg (by simp [free char List.mem_cons_self])]

end OpenBerat
