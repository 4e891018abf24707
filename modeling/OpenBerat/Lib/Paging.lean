/-
**Reading an ordered table in parts.**

A table is read by pages, each the first rows below the last key received, highest keys first, while
rows come in above that key and rows go away anywhere (`Scanned`); or it is read by windows, each
from one bound to the next.

* `Scanned.write`, `Scanned.receive`: what holds of the rows received is kept by writes and by a
  page.
* `Scanned.complete`: a short page is the last one.
* `Scanned.length_le`: how long short pages can fail to come.
* `existsUnique_window`: a row is in one window.
-/

import Mathlib.Data.List.Perm.Subperm
import Mathlib.Order.Lattice
import Mathlib.Tactic.Common

namespace OpenBerat.Lib

section Pages

variable {ρ κ : Type} [LinearOrder κ] (key : ρ → κ)

/-- Highest keys first, and no key twice. -/
def Descending (rows : List ρ) : Prop :=
  rows.Pairwise fun first second => key second < key first

/-- The row's key is below the last one of the rows, if there is one. -/
def Below (received : List ρ) (row : ρ) : Prop :=
  ∀ last ∈ received.getLast?, key row < key last

/-- A page of a table: so many rows of those below the last key received, the highest ones. -/
structure IsPage (limit : Nat) (table received page : List ρ) : Prop where
  descending : Descending key page
  inside : ∀ row ∈ page, row ∈ table ∧ Below key received row
  missed : ∀ row ∈ table, Below key received row → row ∉ page →
    page.length = limit ∧ ∀ shown ∈ page, key row < key shown

/-- What has been received of the rows there were at first, those gone left out of account. -/
structure Scanned (base table : List ρ) (gone : ρ → Prop) (received : List ρ) : Prop where
  descending : Descending key received
  known : ∀ row ∈ received, row ∈ base
  old : ∀ row ∈ table, Below key received row → row ∈ base
  covered : ∀ row ∈ base, ¬ gone row → row ∈ received ∨ row ∈ table ∧ Below key received row

variable {key}

theorem Descending.nodup {rows : List ρ} (descending : Descending key rows) : rows.Nodup :=
  descending.imp fun {first second} below same => by
    subst same
    exact lt_irrefl _ below

/-- Rows in descending order whose keys are different. -/
theorem descending_of_pairwise {rows : List ρ} (nodup : (rows.map key).Nodup)
    (sorted : rows.Pairwise fun first second => key second ≤ key first) : Descending key rows := by
  have different := List.pairwise_map.mp nodup
  exact sorted.imp₂ (fun _ _ below other => lt_of_le_of_ne below (Ne.symm other)) different

/-- The last row has the lowest key. -/
theorem Descending.last_le {rows : List ρ} (descending : Descending key rows) {row last : ρ}
    (member : row ∈ rows) (found : last ∈ rows.getLast?) : key last ≤ key row := by
  obtain ⟨front, rfl⟩ := List.getLast?_eq_some_iff.mp found
  rcases List.mem_append.mp member with inside | same
  · exact ((List.pairwise_append.mp descending).2.2 row inside last (List.mem_singleton_self _)).le
  · rw [List.mem_singleton.mp same]

/-- **The first rows of an ordered table are a page.** -/
theorem isPage_take {limit : Nat} {table received sorted : List ρ}
    (rows : ∀ row, row ∈ sorted ↔ row ∈ table ∧ Below key received row)
    (descending : Descending key sorted) :
    IsPage key limit table received (sorted.take limit) := by
  refine ⟨List.Pairwise.sublist (List.take_sublist limit sorted) descending, fun row member => ?_,
    fun row listed below missing => ?_⟩
  · exact (rows row).mp (List.mem_of_mem_take member)
  · have member := (rows row).mpr ⟨listed, below⟩
    rw [← List.take_append_drop limit sorted] at member descending
    have behind := (List.mem_append.mp member).resolve_left missing
    refine ⟨?_, fun shown inside =>
      (List.pairwise_append.mp descending).2.2 shown inside row behind⟩
    have more := List.length_pos_of_mem behind
    rw [List.length_drop] at more
    rw [List.length_take]
    omega

variable {limit : Nat} {base table received page : List ρ} {gone : ρ → Prop}

/-- Nothing received yet. -/
theorem scanned_start (rows : List ρ) (gone : ρ → Prop) : Scanned key rows rows gone [] := by
  refine ⟨.nil, fun _ member => ?_, fun _ member _ => member, fun row member _ => ?_⟩
  · cases member
  · exact Or.inr ⟨member, fun _ none => nomatch none⟩

/-- **Writes**: rows come in above the last key only, and those that go are counted as gone. -/
theorem Scanned.write {table' : List ρ} {gone' : ρ → Prop}
    (scanned : Scanned key base table gone received)
    (fresh : ∀ row ∈ table', row ∈ table ∨ ¬ Below key received row)
    (lost : ∀ row ∈ table, ¬ gone' row → row ∈ table')
    (more : ∀ row, gone row → gone' row) : Scanned key base table' gone' received := by
  refine ⟨scanned.descending, scanned.known, fun row member below => ?_, fun row member stays => ?_⟩
  · exact scanned.old row ((fresh row member).resolve_right fun above => above below) below
  · have before := scanned.covered row member fun already => stays (more _ already)
    exact before.imp_right fun ⟨listed, below⟩ => ⟨lost row listed stays, below⟩

/-- What is below a page is below what came before it. -/
theorem IsPage.below_of_append (isPage : IsPage key limit table received page) {row : ρ}
    (below : Below key (received ++ page) row) : Below key received row := by
  intro last found
  cases final : page.getLast? with
  | none =>
    rw [List.getLast?_eq_none_iff.mp final, List.append_nil] at below
    exact below last found
  | some lowest =>
    have inside := (isPage.inside lowest (List.mem_of_getLast? final)).2 last found
    have under := below lowest (by rw [List.getLast?_append, final]; rfl)
    exact under.trans inside

/-- **A page**: everything down to its last key has been received. -/
theorem Scanned.receive (scanned : Scanned key base table gone received)
    (isPage : IsPage key limit table received page) :
    Scanned key base table gone (received ++ page) := by
  refine ⟨?_, fun row member => ?_, fun row member below => ?_, fun row member stays => ?_⟩
  · refine List.pairwise_append.mpr ⟨scanned.descending, isPage.descending, ?_⟩
    intro earlier before later inside
    have found := List.getLast?_eq_some_getLast (List.ne_nil_of_mem before)
    exact ((isPage.inside later inside).2 _ found).trans_le
      (scanned.descending.last_le before found)
  · rcases List.mem_append.mp member with before | inside
    · exact scanned.known row before
    · obtain ⟨listed, below⟩ := isPage.inside row inside
      exact scanned.old row listed below
  · exact scanned.old row member (isPage.below_of_append below)
  · rcases scanned.covered row member stays with before | ⟨listed, below⟩
    · exact Or.inl (List.mem_append_left _ before)
    · by_cases shown : row ∈ page
      · exact Or.inl (List.mem_append_right _ shown)
      · refine Or.inr ⟨listed, fun last found => ?_⟩
        cases final : page.getLast? with
        | none =>
          rw [List.getLast?_eq_none_iff.mp final, List.append_nil] at found
          exact below last found
        | some lowest =>
          rw [List.getLast?_append, final] at found
          cases found
          exact (isPage.missed row listed below shown).2 last (List.mem_of_getLast? final)

/-- **A short page is the last one**: every row that there was and that is not gone is received. -/
theorem Scanned.complete (scanned : Scanned key base table gone received)
    (isPage : IsPage key limit table received page) (short : page.length < limit) {row : ρ}
    (member : row ∈ base) (stays : ¬ gone row) : row ∈ received ++ page := by
  rcases scanned.covered row member stays with before | ⟨listed, below⟩
  · exact List.mem_append_left _ before
  · by_contra missing
    have full := (isPage.missed row listed below fun inside =>
      missing (List.mem_append_right _ inside)).1
    omega

/-- No more rows are received than there were. -/
theorem Scanned.length_le (scanned : Scanned key base table gone received) :
    received.length ≤ base.length :=
  (List.subperm_of_subset scanned.descending.nodup fun row member =>
    scanned.known row member).length_le

end Pages

section Windows

variable {τ : Type} [LinearOrder τ] {bound : Nat → τ} {count : Nat}

theorem le_of_steps (steps : ∀ index < count, bound index ≤ bound (index + 1)) {first second : Nat}
    (before : first ≤ second) (inside : second ≤ count) : bound first ≤ bound second := by
  induction before with
  | refl => exact le_refl _
  | @step second _ ih => exact (ih (by omega)).trans (steps second (by omega))

/-- **Windows that follow on each other** have what is between the first bound and the last in one
of them. -/
theorem existsUnique_window (steps : ∀ index < count, bound index ≤ bound (index + 1)) {point : τ}
    (first : bound 0 ≤ point) (last : point < bound count) :
    ∃! index, index < count ∧ bound index ≤ point ∧ point < bound (index + 1) := by
  induction count with
  | zero => exact absurd last (not_lt.mpr first)
  | succ count ih =>
    have earlier : ∀ {index}, index < count → bound (index + 1) ≤ bound count :=
      fun inside => le_of_steps steps inside (by omega)
    by_cases before : point < bound count
    · obtain ⟨index, ⟨inside, within⟩, unique⟩ :=
        ih (fun index inside => steps index (by omega)) before
      refine ⟨index, ⟨by omega, within⟩, ?_⟩
      rintro other ⟨listed, began, ends⟩
      refine unique other ⟨?_, began, ends⟩
      by_contra beyond
      obtain rfl : other = count := by omega
      exact absurd before (not_lt.mpr began)
    · refine ⟨count, ⟨by omega, not_lt.mp before, last⟩, ?_⟩
      rintro other ⟨listed, _, ends⟩
      by_contra different
      exact before (ends.trans_le (earlier (by omega)))

end Windows

end OpenBerat.Lib
