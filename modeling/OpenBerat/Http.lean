/-
**Header values.**

A header value is a byte list. The one thing the backend asks of the HTTP library is its text view
`to_str`, which the library documents: it succeeds exactly when every byte is visible ASCII or a
tab. `HeaderText` carries that contract, `HeaderText.documented` inhabits it.

* `HeaderText.toStr_asBytes`: on a UTF-8 value the text view is the text, or nothing as soon as one
  character is not visible ASCII.
-/

import OpenBerat.Text

namespace OpenBerat

/-- The bytes of a header value. -/
abbrev HeaderValue := Bytes

/-- Visible ASCII, or a tab. -/
def visible (byte : UInt8) : Bool :=
  byte = 9 ∨ 32 ≤ byte.toNat ∧ byte.toNat < 127

/-- The characters whose encoding is visible. -/
def visibleChar (char : Char) : Bool :=
  char = '\t' ∨ 32 ≤ char.toNat ∧ char.toNat < 127

/-- `HeaderValue::to_str`, with the contract the library documents. -/
structure HeaderText where
  toStr : HeaderValue → Option Str
  isSome_iff : ∀ value, (toStr value).isSome = true ↔ ∀ byte ∈ value, visible byte = true
  asBytes_eq : ∀ value text, toStr value = some text → asBytes text = value

theorem visible_encodeChar (char : Char) :
    (∀ byte ∈ String.utf8EncodeChar char, visible byte = true) ↔ visibleChar char = true := by
  by_cases ascii : char.toNat < 0x80
  · have code : (UInt8.ofNat char.toNat).toNat = char.toNat := by
      rw [UInt8.toNat_ofNat']
      omega
    have tab : UInt8.ofNat char.toNat = 9 ↔ char = '\t' := by
      rw [← UInt8.toNat_inj, code, ← Char.toNat_inj]
      rfl
    rw [Lib.encodeChar_ascii ascii]
    simp only [List.mem_singleton, forall_eq, visible, visibleChar, decide_eq_true_eq, tab, code]
  · obtain ⟨byte, rest, shape⟩ := List.exists_cons_of_ne_nil (Lib.encodeChar_ne_nil char)
    have wide := Lib.encodeChar_wide (Nat.not_lt.mp ascii) byte (shape ▸ List.mem_cons_self)
    refine iff_of_false (fun all => ?_) (fun seen => ?_)
    · have seen := all byte (shape ▸ List.mem_cons_self)
      unfold visible at seen
      rcases of_decide_eq_true seen with rfl | ⟨_, below⟩
      · exact absurd wide (by decide)
      · omega
    · unfold visibleChar at seen
      rcases of_decide_eq_true seen with rfl | ⟨_, below⟩
      · exact absurd ascii (by decide)
      · omega

/-- Every character is visible, so the text view of a header value is the text. -/
def Readable (text : Str) : Prop :=
  ∀ char ∈ text, visibleChar char = true

instance (text : Str) : Decidable (Readable text) :=
  decidable_of_iff (text.all visibleChar = true) List.all_eq_true

theorem visible_asBytes (text : Str) :
    (∀ byte ∈ asBytes text, visible byte = true) ↔ Readable text := by
  unfold asBytes Lib.utf8 Readable
  simp only [List.mem_flatMap, forall_exists_index, and_imp]
  constructor
  · exact fun all char member => (visible_encodeChar char).mp fun byte => all byte char member
  · exact fun all byte char member => (visible_encodeChar char).mpr (all char member) byte

namespace HeaderText

/-- The library as documented. -/
def documented : HeaderText where
  toStr value := if value.all visible then fromUtf8 value else none
  isSome_iff value := by
    constructor
    · intro found
      by_contra hidden
      rw [if_neg fun all => hidden (List.all_eq_true.mp all)] at found
      cases found
    · intro all
      rw [if_pos (List.all_eq_true.mpr all)]
      have decodes : ∀ bytes : Bytes, (∀ byte ∈ bytes, visible byte = true) →
          (Lib.fromUtf8 bytes).isSome = true := by
        intro bytes
        induction bytes with
        | nil => exact fun _ => rfl
        | cons byte rest ih =>
          intro seen
          have low : byte.toNat < 0x80 := by
            have head := seen byte List.mem_cons_self
            unfold visible at head
            rcases of_decide_eq_true head with rfl | ⟨_, below⟩
            · decide
            · omega
          have valid : byte.toNat.isValidChar := Or.inl (by omega)
          have small : (Char.ofNat byte.toNat).toNat = byte.toNat := by
            rw [Char.ofNat, dif_pos valid]
            rfl
          rw [Lib.fromUtf8_one low, Lib.pushChecked, if_pos, Option.isSome_map]
          · exact ih fun later member => seen later (List.mem_cons_of_mem _ member)
          · rw [Lib.encodeChar_ascii (by rw [small]; exact low), small, UInt8.ofNat_toNat]
      exact decodes value all
  asBytes_eq value text found := by
    by_cases all : value.all visible = true
    · rw [if_pos all] at found
      exact Lib.fromUtf8_eq_some.mp found
    · rw [if_neg all] at found
      cases found

variable (http : HeaderText)

/-- **The text view of a UTF-8 value.** -/
theorem toStr_asBytes (text : Str) :
    http.toStr (asBytes text) = if Readable text then some text else none := by
  have readable := http.isSome_iff (asBytes text)
  rw [visible_asBytes] at readable
  cases found : http.toStr (asBytes text) with
  | none =>
    rw [if_neg fun all => ?_]
    have some := readable.mpr all
    rw [found] at some
    cases some
  | some shown =>
    have same : shown = text := Lib.utf8_injective (http.asBytes_eq _ _ found)
    rw [if_pos (readable.mp (by rw [found]; rfl)), same]

/-- A value that is not empty has no empty text. -/
theorem ne_nil_of_toStr {value : HeaderValue} {text : Str} (found : http.toStr value = some text)
    (named : value ≠ []) : text ≠ [] := by
  rintro rfl
  exact named (http.asBytes_eq value [] found).symm

/-- `value.to_str().unwrap_or_default()`. -/
def text (value : HeaderValue) : Str :=
  (http.toStr value).getD []

theorem text_asBytes (text : Str) :
    http.text (asBytes text) = if Readable text then text else [] := by
  unfold HeaderText.text
  rw [http.toStr_asBytes]
  split <;> rfl

end HeaderText

/-- The verified identity, as the headers nginx lifts off a 200. -/
structure Identity where
  sub : HeaderValue
  username : HeaderValue
  email : HeaderValue
  groups : HeaderValue
  deriving DecidableEq

/-- `split(',')` and the empty names dropped. -/
def groupNames (header : Str) : List Str :=
  (header.splitOn ',').filter fun name => !name.isEmpty

theorem mem_groupNames {header name : Str} :
    name ∈ groupNames header ↔ name ∈ header.splitOn ',' ∧ name ≠ [] := by
  unfold groupNames
  rw [List.mem_filter]
  simp

/-- Comma-free nonempty names come back out of the joined header. -/
theorem groupNames_join {names : List Str} (legal : ∀ name ∈ names, name ≠ [] ∧ ',' ∉ name) :
    groupNames (join ',' names) = names := by
  by_cases none : names = []
  · subst none
    rfl
  · unfold groupNames join
    rw [List.splitOn_intercalate ',' (fun name member => (legal name member).2) none,
      List.filter_eq_self]
    intro name member
    simpa using (legal name member).1

end OpenBerat
