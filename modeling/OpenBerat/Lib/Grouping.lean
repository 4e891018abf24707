/-
**Grouping an ordered stream by its blocks.**

`groupAdjacent key` folds a stream of rows and compares each row with the last block only. On a
stream that is ordered so that rows of one key stand together this is grouping:

* `groupAdjacent_grouped`: no key has two blocks, a block holds exactly the rows of its key, in
  stream order, and every row is in a block.
* `distinctOn` keeps the first row of every key: `find?_distinctOn`.

`Plan` is an order left to somebody else, and `leftJoin` the relational left join, with
`leftJoin_filter` for the rows of one left element.
-/

import Mathlib.Data.List.Induction
import Mathlib.Data.List.Nodup
import Mathlib.Tactic.Common

namespace OpenBerat.Lib

/-- An order nobody promised: the elements of a list, arranged somehow. -/
structure Plan (ρ : Type) where
  arrange : List ρ → List ρ
  perm : ∀ rows, (arrange rows).Perm rows

/-- The order as it stands. -/
def Plan.table (ρ : Type) : Plan ρ :=
  ⟨id, List.Perm.refl⟩

section Blocks

variable {ρ κ : Type} [DecidableEq κ]

/-- A nonempty block of rows. -/
structure Block (ρ : Type) where
  first : ρ
  rest : List ρ

/-- The rows of a block, in the order of the stream. -/
def Block.members (block : Block ρ) : List ρ :=
  block.first :: block.rest

/-- The row goes to the last block if it has its key, and opens a block otherwise. -/
def pushRow (key : ρ → κ) (blocks : List (Block ρ)) (row : ρ) : List (Block ρ) :=
  match blocks.getLast? with
  | none => blocks ++ [⟨row, []⟩]
  | some block =>
    if key block.first = key row then blocks.dropLast ++ [⟨block.first, block.rest ++ [row]⟩]
    else blocks ++ [⟨row, []⟩]

/-- The blocks of a stream. -/
def groupAdjacent (key : ρ → κ) (rows : List ρ) : List (Block ρ) :=
  rows.foldl (pushRow key) []

theorem groupAdjacent_concat (key : ρ → κ) (rows : List ρ) (row : ρ) :
    groupAdjacent key (rows ++ [row]) = pushRow key (groupAdjacent key rows) row := by
  unfold groupAdjacent
  rw [List.foldl_append]
  rfl

/-- The order keeps rows of one key together: it is transitive, and two rows are tied exactly when
they have one key. -/
structure Separates (key : ρ → κ) (le : ρ → ρ → Bool) (rows : List ρ) : Prop where
  trans : ∀ first second third, le first second = true → le second third = true →
    le first third = true
  tied : ∀ first ∈ rows, ∀ second ∈ rows, (le first second = true ∧ le second first = true) ↔
    key first = key second

/-- What the fold has established about the rows it has seen. -/
structure Grouped (key : ρ → κ) (rows : List ρ) (blocks : List (Block ρ)) : Prop where
  nodup : (blocks.map fun block => key block.first).Nodup
  members : ∀ block ∈ blocks, block.members = rows.filter fun row => key row = key block.first
  covered : ∀ row ∈ rows, ∃ block ∈ blocks, key block.first = key row
  last : ∀ row, rows.getLast? = some row →
    ∃ block, blocks.getLast? = some block ∧ key block.first = key row

theorem Grouped.first_mem {key : ρ → κ} {rows : List ρ} {blocks : List (Block ρ)}
    (grouped : Grouped key rows blocks) {block : Block ρ} (member : block ∈ blocks) :
    block.first ∈ rows := by
  have inside : block.first ∈ block.members := List.mem_cons_self
  rw [grouped.members block member] at inside
  exact List.mem_of_mem_filter inside

/-- A row of the last block's key joins it. -/
theorem Grouped.extend {key : ρ → κ} {rows : List ρ} {front : List (Block ρ)} {block : Block ρ}
    {row : ρ} (grouped : Grouped key rows (front ++ [block])) (same : key block.first = key row) :
    Grouped key (rows ++ [row]) (front ++ [⟨block.first, block.rest ++ [row]⟩]) := by
  have keys : ((front ++ [Block.mk block.first (block.rest ++ [row])]).map
        fun block => key block.first) =
      (front ++ [block]).map fun block => key block.first := by simp
  refine ⟨keys ▸ grouped.nodup, ?_, ?_, ?_⟩
  · intro other member
    rcases List.mem_append.mp member with member | member
    · have different : key row ≠ key other.first := by
        intro equal
        have nodup := grouped.nodup
        rw [List.map_append, List.nodup_append] at nodup
        exact nodup.2.2 _ (List.mem_map_of_mem member) _ (by simp) (equal.symm.trans same.symm)
      rw [grouped.members other (List.mem_append_left _ member), List.filter_append]
      simp [different]
    · rw [List.mem_singleton] at member
      subst member
      have before := grouped.members block (by simp)
      rw [List.filter_append, ← before]
      simp [Block.members, same]
  · intro seen member
    rcases List.mem_append.mp member with member | member
    · obtain ⟨other, inside, equal⟩ := grouped.covered seen member
      rcases List.mem_append.mp inside with inside | inside
      · exact ⟨other, List.mem_append_left _ inside, equal⟩
      · rw [List.mem_singleton] at inside
        subst inside
        exact ⟨_, List.mem_append_right _ List.mem_cons_self, equal⟩
    · rw [List.mem_singleton] at member
      subst member
      exact ⟨_, List.mem_append_right _ List.mem_cons_self, same⟩
  · intro last found
    rw [List.getLast?_concat, Option.some.injEq] at found
    subst found
    exact ⟨_, List.getLast?_concat, same⟩

/-- A row of a new key opens a block. -/
theorem Grouped.open {key : ρ → κ} {rows : List ρ} {blocks : List (Block ρ)} {row : ρ}
    (grouped : Grouped key rows blocks) (fresh : ∀ block ∈ blocks, key block.first ≠ key row) :
    Grouped key (rows ++ [row]) (blocks ++ [⟨row, []⟩]) := by
  refine ⟨?_, ?_, ?_, ?_⟩
  · rw [List.map_append, List.nodup_append]
    refine ⟨grouped.nodup, List.nodup_singleton _, fun old inside new member => ?_⟩
    obtain ⟨block, member', rfl⟩ := List.mem_map.mp inside
    rw [List.map_singleton, List.mem_singleton] at member
    subst member
    exact fresh block member'
  · intro other member
    rcases List.mem_append.mp member with member | member
    · have different : key row ≠ key other.first := fun equal => fresh other member equal.symm
      rw [grouped.members other member, List.filter_append]
      simp [different]
    · rw [List.mem_singleton] at member
      subst member
      have none : rows.filter (fun seen => key seen = key row) = [] := by
        rw [List.filter_eq_nil_iff]
        intro seen inside equal
        obtain ⟨block, member, keys⟩ := grouped.covered seen inside
        exact fresh block member (keys.trans (of_decide_eq_true equal))
      rw [List.filter_append, none]
      simp [Block.members]
  · intro seen member
    rcases List.mem_append.mp member with member | member
    · obtain ⟨block, inside, equal⟩ := grouped.covered seen member
      exact ⟨block, List.mem_append_left _ inside, equal⟩
    · rw [List.mem_singleton] at member
      subst member
      exact ⟨_, List.mem_append_right _ List.mem_cons_self, rfl⟩
  · intro last found
    rw [List.getLast?_concat, Option.some.injEq] at found
    subst found
    exact ⟨_, List.getLast?_concat, rfl⟩

/-- **On a separating order the fold groups.** A key that comes back would have to pass the block in
between, which the order forbids. -/
theorem groupAdjacent_grouped {key : ρ → κ} {le : ρ → ρ → Bool} {rows : List ρ}
    (separates : Separates key le rows)
    (sorted : rows.Pairwise fun first second => le first second) :
    Grouped key rows (groupAdjacent key rows) := by
  induction rows using List.reverseRecOn with
  | nil => exact ⟨List.nodup_nil, by simp [groupAdjacent], by simp, by simp⟩
  | append_singleton rows row ih =>
    rw [List.pairwise_append] at sorted
    have grouped := ih ⟨separates.trans, fun first firstMem second secondMem =>
      separates.tied first (List.mem_append_left _ firstMem) second
        (List.mem_append_left _ secondMem)⟩ sorted.1
    rw [groupAdjacent_concat, pushRow]
    cases found : (groupAdjacent key rows).getLast? with
    | none =>
      refine grouped.open fun block member => ?_
      rw [List.getLast?_eq_none_iff] at found
      rw [found] at member
      cases member
    | some block =>
      obtain ⟨front, shape⟩ := List.getLast?_eq_some_iff.mp found
      dsimp only
      by_cases same : key block.first = key row
      · rw [if_pos same, shape, List.dropLast_concat]
        exact (shape ▸ grouped).extend same
      · rw [if_neg same]
        refine grouped.open fun other member equal => same ?_
        obtain ⟨lastRow, lastFound⟩ : ∃ last, rows.getLast? = some last := by
          cases last : rows.getLast? with
          | none =>
            rw [List.getLast?_eq_none_iff] at last
            subst last
            cases found
          | some lastRow => exact ⟨lastRow, rfl⟩
        obtain ⟨block', found', runKey⟩ := grouped.last lastRow lastFound
        rw [found, Option.some.injEq] at found'
        subst found'
        obtain ⟨before, rfl⟩ := List.getLast?_eq_some_iff.mp lastFound
        have firstMem := grouped.first_mem member
        have lastMem : lastRow ∈ before ++ [lastRow] := by simp
        have backward : le row other.first = true :=
          ((separates.tied other.first (List.mem_append_left _ firstMem) row (by simp)).mpr equal).2
        have up : le lastRow row = true := sorted.2.2 lastRow lastMem row (by simp)
        rcases List.mem_append.mp firstMem with early | early
        · have forward : le other.first lastRow = true :=
            (List.pairwise_append.mp sorted.1).2.2 _ early lastRow (by simp)
          have down : le row lastRow = true := separates.trans _ _ _ backward forward
          exact runKey.trans ((separates.tied lastRow (List.mem_append_left _ lastMem) row
            (by simp)).mp ⟨up, down⟩)
        · rw [List.mem_singleton] at early
          rw [runKey, ← early, equal]

/-- The first row of every key. -/
def distinctOn (key : ρ → κ) : List ρ → List ρ
  | [] => []
  | row :: rows => row :: (distinctOn key rows).filter fun other => key other ≠ key row

theorem mem_of_mem_distinctOn {key : ρ → κ} {rows : List ρ} {row : ρ}
    (member : row ∈ distinctOn key rows) :
    row ∈ rows := by
  induction rows with
  | nil => cases member
  | cons first rows ih =>
    rcases List.mem_cons.mp member with rfl | later
    · exact List.mem_cons_self
    · exact List.mem_cons_of_mem _ (ih (List.mem_of_mem_filter later))

/-- **The row kept of a key** is the first one. -/
theorem find?_distinctOn (key : ρ → κ) (rows : List ρ) (value : κ) :
    (distinctOn key rows).find? (fun row => key row = value) =
      rows.find? fun row => key row = value := by
  induction rows with
  | nil => rfl
  | cons row rows ih =>
    unfold distinctOn
    rw [List.find?_cons, List.find?_cons]
    by_cases same : key row = value
    · rw [decide_eq_true same]
    · rw [decide_eq_false same]
      dsimp only
      rw [← ih, List.find?_filter]
      -- The row of the value has another key than this one, so the filter keeps it.
      refine congrArg (List.find? · _) (funext fun other => ?_)
      by_cases here : key other = value
      · have different : key other ≠ key row := fun equal => same (equal.symm.trans here)
        rw [decide_eq_true here, decide_eq_true different]
        rfl
      · rw [decide_eq_false here]
        exact decide_eq_false fun both => Bool.false_ne_true both.2

end Blocks

/-- Where a key is unique, the rows of a key are its one row. -/
theorem filter_key_eq_singleton {ρ κ : Type} [DecidableEq κ] {key : ρ → κ} {rows : List ρ} {row : ρ}
    (nodup : (rows.map key).Nodup) (member : row ∈ rows) :
    rows.filter (fun other => key other = key row) = [row] := by
  obtain ⟨before, after, rfl⟩ := List.append_of_mem member
  rw [List.map_append, List.map_cons, List.nodup_append, List.nodup_cons] at nodup
  have left : before.filter (fun other => key other = key row) = [] := by
    rw [List.filter_eq_nil_iff]
    intro other inside same
    exact nodup.2.2 _ (List.mem_map_of_mem inside) _ List.mem_cons_self (of_decide_eq_true same)
  have right : after.filter (fun other => key other = key row) = [] := by
    rw [List.filter_eq_nil_iff]
    intro other inside same
    exact nodup.2.1.1 (of_decide_eq_true same ▸ List.mem_map_of_mem inside)
  rw [List.filter_append, List.filter_cons, if_pos (decide_eq_true rfl), left, right,
    List.nil_append]

section Join

variable {α β : Type}

/-- The rows of one left element: each of its matches, or once nothing. -/
def joinRows (on : α → β → Bool) (right : List β) (a : α) : List (α × Option β) :=
  match right.filter (on a) with
  | [] => [(a, none)]
  | found => found.map fun b => (a, some b)

/-- Each row on the left with the rows on the right that it joins, or with nothing. -/
def leftJoin (on : α → β → Bool) (left : List α) (right : List β) : List (α × Option β) :=
  left.flatMap (joinRows on right)

variable {on : α → β → Bool} {right : List β}

theorem fst_of_mem_joinRows {a : α} {row : α × Option β} (member : row ∈ joinRows on right a) :
    row.1 = a := by
  unfold joinRows at member
  split at member
  · rw [List.mem_singleton] at member
    rw [member]
  · obtain ⟨b, _, rfl⟩ := List.mem_map.mp member
    rfl

theorem joinRows_ne_nil (a : α) : joinRows on right a ≠ [] := by
  unfold joinRows
  split
  · exact List.cons_ne_nil _ _
  · rename_i some
    exact fun none => some (List.map_eq_nil_iff.mp none)

/-- The rows of one left element carry exactly its matches. -/
theorem filterMap_snd_joinRows (a : α) :
    (joinRows on right a).filterMap Prod.snd = right.filter (on a) := by
  unfold joinRows
  split
  · rename_i none
    rw [none]
    rfl
  · simp [List.filterMap_map]

theorem fst_mem_of_mem_leftJoin {left : List α} {row : α × Option β}
    (member : row ∈ leftJoin on left right) : row.1 ∈ left := by
  obtain ⟨a, inside, found⟩ := List.mem_flatMap.mp member
  rwa [fst_of_mem_joinRows found]

/-- Every left element is in the join. -/
theorem exists_mem_leftJoin {left : List α} {a : α} (member : a ∈ left) :
    ∃ row ∈ leftJoin on left right, row.1 = a := by
  obtain ⟨row, rest, shape⟩ := List.exists_cons_of_ne_nil (@joinRows_ne_nil α β on right a)
  have inside : row ∈ joinRows on right a := shape ▸ List.mem_cons_self
  exact ⟨row, List.mem_flatMap.mpr ⟨a, member, inside⟩, fst_of_mem_joinRows inside⟩

/-- **Selecting on the left columns commutes with the join.** -/
theorem leftJoin_filter (left : List α) (test : α → Bool) :
    (leftJoin on left right).filter (fun row => test row.1) =
      leftJoin on (left.filter test) right := by
  unfold leftJoin
  induction left with
  | nil => rfl
  | cons a left ih =>
    rw [List.flatMap_cons, List.filter_append, ih, List.filter_cons]
    have rows : ∀ row ∈ joinRows on right a, test row.1 = test a :=
      fun row member => by rw [fst_of_mem_joinRows member]
    cases passes : test a with
    | true =>
      rw [if_pos rfl, List.flatMap_cons, List.filter_eq_self.mpr fun row member =>
        (rows row member).trans passes]
    | false =>
      rw [if_neg Bool.false_ne_true, List.filter_eq_nil_iff.mpr fun row member => by
        rw [rows row member, passes]; exact Bool.false_ne_true, List.nil_append]

end Join

end OpenBerat.Lib
