/-
**Reading a configuration file of nested directives.**

A file is words separated by blanks; a directive ends with a semicolon or opens a block. A word may
be quoted, a backslash protects the next character, `#` between words starts a comment, and `${` is
no opening brace. `readChar` is the reader one character at a time, `nest` puts the blocks together.

* `exec_append`: a text is read part by part.
* `reads_word`: a word of plain characters is read as it is.
* `nest_items`, `read_of_exec`: what a list of directives is read from.
-/

import Mathlib.Data.List.Basic
import OpenBerat.Lib.Run

namespace OpenBerat.Lib.Conf

/-! ### Words -/

/-- What stands between two words, and ends a word that is not quoted. -/
def blank (char : Char) : Bool :=
  char = ' ' || char = '\t' || char = '\r' || char = '\n'

/-- A word without the backslashes that protect something. -/
def unescape : List Char → List Char
  | '\\' :: '"' :: rest => '"' :: unescape rest
  | '\\' :: '\'' :: rest => '\'' :: unescape rest
  | '\\' :: '\\' :: rest => '\\' :: unescape rest
  | '\\' :: 't' :: rest => '\t' :: unescape rest
  | '\\' :: 'r' :: rest => '\r' :: unescape rest
  | '\\' :: 'n' :: rest => '\n' :: unescape rest
  | char :: rest => char :: unescape rest
  | [] => []

/-- Where the reader is: between words, in a comment, in a word, or behind a closing quote. -/
inductive Mode
  | gap
  | comment
  | word (raw : List Char) (quote : Option Char) (escaped dollar : Bool)
  | after
  deriving DecidableEq

/-- The words of the directive so far. -/
structure Reading where
  args : List (List Char)
  mode : Mode
  deriving DecidableEq

/-- A directive without a block, the head of a block, and its end. -/
inductive Item
  | simple (words : List (List Char))
  | opening (words : List (List Char))
  | closing
  deriving DecidableEq

/-- A character between words. -/
def start (args : List (List Char)) (char : Char) : Option (Reading × List Item) :=
  if blank char then some (⟨args, .gap⟩, [])
  else if char = ';' then if args = [] then none else some (⟨[], .gap⟩, [.simple args])
  else if char = '{' then if args = [] then none else some (⟨[], .gap⟩, [.opening args])
  else if char = '}' then if args = [] then some (⟨[], .gap⟩, [.closing]) else none
  else if char = '#' then some (⟨args, .comment⟩, [])
  else if char = '\\' then some (⟨args, .word [char] none true false⟩, [])
  else if char = '"' ∨ char = '\'' then some (⟨args, .word [] (some char) false false⟩, [])
  else some (⟨args, .word [char] none false (char = '$')⟩, [])

/-- A character of a word that is not protected. -/
def inWord (args : List (List Char)) (raw : List Char) (quote : Option Char) (char : Char) :
    Option (Reading × List Item) :=
  if char = '\\' then some (⟨args, .word (raw ++ [char]) quote true false⟩, [])
  else if char = '$' then some (⟨args, .word (raw ++ [char]) quote false true⟩, [])
  else
    match quote with
    | some mark =>
      if char = mark then some (⟨args ++ [unescape raw], .after⟩, [])
      else some (⟨args, .word (raw ++ [char]) quote false false⟩, [])
    | none =>
      if blank char then some (⟨args ++ [unescape raw], .gap⟩, [])
      else if char = ';' then some (⟨[], .gap⟩, [.simple (args ++ [unescape raw])])
      else if char = '{' then some (⟨[], .gap⟩, [.opening (args ++ [unescape raw])])
      else some (⟨args, .word (raw ++ [char]) quote false false⟩, [])

/-- One character, with the items it completes; nothing where the file is broken. -/
def readChar (reading : Reading) (char : Char) : Option (Reading × List Item) :=
  match reading.mode with
  | .gap => start reading.args char
  | .comment => some (⟨reading.args, if char = '\n' then .gap else .comment⟩, [])
  | .word raw quote true dollar =>
    some (⟨reading.args, .word (raw ++ [char]) quote false dollar⟩, [])
  | .word raw quote false dollar =>
    if char = '{' ∧ dollar = true
      then some (⟨reading.args, .word (raw ++ [char]) quote false true⟩, [])
    else inWord reading.args raw quote char
  | .after =>
    if blank char then some (⟨reading.args, .gap⟩, [])
    else if char = ';' then some (⟨[], .gap⟩, [.simple reading.args])
    else if char = '{' then some (⟨[], .gap⟩, [.opening reading.args])
    else if char = ')' then start reading.args char
    else none

/-! ### Blocks -/

/-- A line of words, or a block of directives under one. -/
inductive Directive
  | simple (words : List (List Char))
  | block (words : List (List Char)) (body : List Directive)

/-- The directives between the blocks that are still open, each with its head and what stands in
front of it, and those of the innermost one, last first. -/
def nest : List Item → List (List (List Char) × List Directive) → List Directive →
    Option (List Directive)
  | [], [], inner => some inner.reverse
  | [], _ :: _, _ => none
  | .simple words :: items, opened, inner => nest items opened (.simple words :: inner)
  | .opening words :: items, opened, inner => nest items ((words, inner) :: opened) []
  | .closing :: _, [], _ => none
  | .closing :: items, (words, outer) :: opened, inner =>
    nest items opened (.block words inner.reverse :: outer)

/-- The directives of a file, nothing where it cannot be read. -/
def read (text : List Char) : Option (List Directive) :=
  match exec readChar ⟨[], .gap⟩ text with
  | some (⟨[], .gap⟩, items) => nest items [] []
  | some (⟨[], .comment⟩, items) => nest items [] []
  | _ => none

mutual

/-- How a directive is written. -/
def Directive.items : Directive → List Item
  | .simple words => [.simple words]
  | .block words body => .opening words :: (allItems body ++ [.closing])

/-- The items of some directives, in order. -/
def allItems : List Directive → List Item
  | [] => []
  | directive :: rest => directive.items ++ allItems rest

end

mutual

theorem nest_items (directive : Directive) (rest : List Item)
    (opened : List (List (List Char) × List Directive)) (inner : List Directive) :
    nest (directive.items ++ rest) opened inner = nest rest opened (directive :: inner) := by
  cases directive with
  | simple words => rfl
  | block words body =>
    rw [Directive.items, List.cons_append, nest, List.append_assoc, nest_allItems body,
      List.append_nil, List.singleton_append, nest, List.reverse_reverse]

/-- **The blocks are put together again.** -/
theorem nest_allItems (directives : List Directive) (rest : List Item)
    (opened : List (List (List Char) × List Directive)) (inner : List Directive) :
    nest (allItems directives ++ rest) opened inner =
      nest rest opened (directives.reverse ++ inner) := by
  cases directives with
  | nil => rfl
  | cons directive directives =>
    rw [allItems, List.append_assoc, nest_items directive, nest_allItems directives,
      List.reverse_cons, List.append_assoc, List.singleton_append]

end

/-- **A text with the items of some directives** is read as these. -/
theorem read_of_exec {text : List Char} {directives : List Directive}
    (reads : exec readChar ⟨[], .gap⟩ text = some (⟨[], .gap⟩, allItems directives)) :
    read text = some directives := by
  have whole := nest_allItems directives [] [] []
  rw [List.append_nil, List.append_nil, nest, List.reverse_reverse] at whole
  unfold read
  rw [reads]
  exact whole

/-! ### Plain words -/

/-- The characters that mean something between words or in one. -/
def special : List Char :=
  [' ', '\t', '\r', '\n', ';', '{', '}', '#', '\\', '"', '\'']

/-- A character that is nothing but itself, wherever it stands. -/
def plain (char : Char) : Bool :=
  !special.contains char

/-- A class without the special characters. -/
theorem plain_of_class {admits : Char → Bool} (excluded : special.all (!admits ·) = true)
    {char : Char} (admitted : admits char = true) : plain char = true := by
  unfold plain
  rw [Bool.not_eq_true', List.contains_eq_mem, decide_eq_false_iff_not]
  intro member
  have refused := List.all_eq_true.mp excluded char member
  rw [admitted] at refused
  cases refused

theorem plain_spec {char : Char} (plainly : plain char = true) :
    blank char = false ∧ char ≠ ';' ∧ char ≠ '{' ∧ char ≠ '}' ∧ char ≠ '#' ∧ char ≠ '\\' ∧
      char ≠ '"' ∧ char ≠ '\'' := by
  unfold plain special at plainly
  simp only [Bool.not_eq_true', List.contains_eq_mem, decide_eq_false_iff_not, List.mem_cons,
    List.not_mem_nil, or_false, not_or] at plainly
  unfold blank
  simp only [Bool.or_eq_false_iff, decide_eq_false_iff_not]
  tauto

theorem unescape_of_plain {word : List Char} (plainly : ∀ char ∈ word, plain char = true) :
    unescape word = word := by
  induction word with
  | nil => rfl
  | cons char word ih =>
    have here := plain_spec (plainly char List.mem_cons_self)
    rw [unescape, ih fun other member => plainly other (List.mem_cons_of_mem _ member)]
    all_goals
      intro _ same
      exact absurd same here.2.2.2.2.2.1

theorem readChar_plain {args : List (List Char)} {raw : List Char} {dollar : Bool} {char : Char}
    (plainly : plain char = true) :
    readChar ⟨args, .word raw none false dollar⟩ char =
      some (⟨args, .word (raw ++ [char]) none false (char = '$')⟩, []) := by
  obtain ⟨notBlank, semicolon, brace, _, _, backslash, _⟩ := plain_spec plainly
  unfold readChar
  dsimp only
  rw [if_neg fun both => brace both.1]
  unfold inWord
  rw [if_neg backslash]
  by_cases sigil : char = '$'
  · rw [if_pos sigil, decide_eq_true sigil]
  · rw [if_neg sigil]
    dsimp only
    rw [notBlank, if_neg Bool.false_ne_true, if_neg semicolon, if_neg brace, decide_eq_false sigil]

theorem start_plain {args : List (List Char)} {char : Char} (plainly : plain char = true) :
    readChar ⟨args, .gap⟩ char = some (⟨args, .word [char] none false (char = '$')⟩, []) := by
  obtain ⟨notBlank, semicolon, brace, closing, sharp, backslash, double, single⟩ :=
    plain_spec plainly
  unfold readChar
  dsimp only
  unfold start
  rw [notBlank, if_neg Bool.false_ne_true, if_neg semicolon, if_neg brace, if_neg closing,
    if_neg sharp, if_neg backslash, if_neg fun either => either.elim double single]

theorem exec_plain {args : List (List Char)} {word raw : List Char} {dollar : Bool}
    (plainly : ∀ char ∈ word, plain char = true) :
    ∃ last, exec readChar ⟨args, .word raw none false dollar⟩ word =
      some (⟨args, .word (raw ++ word) none false last⟩, []) := by
  induction word generalizing raw dollar with
  | nil => exact ⟨dollar, by rw [List.append_nil]; rfl⟩
  | cons char word ih =>
    obtain ⟨last, reads⟩ := @ih (raw ++ [char]) (char = '$')
      fun other member => plainly other (List.mem_cons_of_mem _ member)
    refine ⟨last, ?_⟩
    rw [exec_cons (readChar_plain (plainly char List.mem_cons_self)) reads, List.append_assoc,
      List.singleton_append, List.append_nil]

/-- **A plain word and the semicolon behind it.** -/
theorem reads_word {args : List (List Char)} {word : List Char} (some : word ≠ [])
    (plainly : ∀ char ∈ word, plain char = true) :
    exec readChar ⟨args, .gap⟩ (word ++ [';']) =
      .some (⟨[], .gap⟩, [.simple (args ++ [word])]) := by
  obtain ⟨char, rest, rfl⟩ := List.exists_cons_of_ne_nil some
  obtain ⟨last, reads⟩ := @exec_plain args rest [char] (char = '$')
    fun other member => plainly other (List.mem_cons_of_mem _ member)
  have ends : exec readChar ⟨args, .word (char :: rest) none false last⟩ [';'] =
      .some (⟨[], .gap⟩, [.simple (args ++ [char :: rest])]) := by
    have word := unescape_of_plain plainly
    have closes : readChar ⟨args, .word (char :: rest) none false last⟩ ';' =
        .some (⟨[], .gap⟩, [.simple (args ++ [unescape (char :: rest)])]) := by
      unfold readChar
      dsimp only
      rw [if_neg fun both => absurd both.1 (by decide)]
      rfl
    rw [word] at closes
    exact exec_cons closes rfl
  rw [List.cons_append]
  exact exec_cons (start_plain (plainly char List.mem_cons_self)) (exec_append reads ends)

end OpenBerat.Lib.Conf
