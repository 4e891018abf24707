/-
**Audit retention.**

A pass creates the partitions of this month and the next, drops the partitions whose names are below
the cutoff's, and deletes what the default partition holds from before the cutoff. Postgres may fail
every statement, and the chrono crate is known by its documentation.

* `expires_monthName`: what the comparison of the names says about the months.
* `settled_of_completed`, `pass_settled`: after a pass that completes another one removes nothing.
* `recent_kept`: whatever the setting, no pass removes a row of the current month or the last one.
* `retained_iff`: exactly when such a pass leaves exactly the rows that are not before the cutoff.
-/

import Mathlib.Data.Char
import OpenBerat.Lib.Calendar
import OpenBerat.Lib.Grouping
import OpenBerat.Lib.Padded
import OpenBerat.Policy.Decide
import OpenBerat.Text

namespace OpenBerat.Retention

open Lib (Plan padded)
open Lib.Calendar (firstDay monthOf monthOf_lt)

/-! ### The setting -/

/-- `str::parse::<u32>`. -/
def parseU32 (text : Str) : Option UInt32 :=
  let digits := (stripPrefix ['+'] text).getD text
  if digits ≠ [] ∧ digits.all Char.isDigit then
    let value := digits.foldl (fun value digit => 10 * value + (digit.toNat - 48)) 0
    if value < 2 ^ 32 then some (UInt32.ofNat value) else none
  else none

/-- `AUDIT_RETENTION_MONTHS`, nothing where the start is refused. -/
def retentionMonths (value : Option Str) : Option UInt32 :=
  match value.filter fun value => !(trim value).isEmpty with
  | some value => (parseU32 (trim value)).filter fun months => 0 < months
  | none => some 12

/-- A pass never runs with no months. -/
theorem retentionMonths_pos {value : Option Str} {months : UInt32}
    (set : retentionMonths value = some months) : 0 < months := by
  unfold retentionMonths at set
  split at set
  · exact of_decide_eq_true (Option.filter_eq_some_iff.mp set).2
  · obtain rfl := Option.some.inj set
    decide

/-! ### chrono -/

/-- Nanoseconds of a day. -/
def day : Int := 86400 * 1000000000

/-- The crate on dates that are the first of a month, given by `Lib.Calendar`'s number of it. -/
structure Chrono where
  /-- `Utc::now().date_naive().with_day(1)`, where it does not panic. -/
  thisMonth : DateTime → Option Int
  /-- `+ Months::new(_)`, where it does not panic. -/
  add : Int → UInt32 → Option Int
  checkedSubMonths : Int → UInt32 → Option Int
  /-- `format("%Y_%m")`. -/
  yearMonth : Int → Str
  /-- `and_hms_opt(0, 0, 0)` in UTC. -/
  midnight : Int → DateTime

/-- `%Y` has a sign before the year 0 and after the year 9999, and four digits in between. `%m` has
two digits. Dates begin with the year -262143. -/
structure Chrono.Documented (chrono : Chrono) : Prop where
  thisMonth : ∀ now month, chrono.thisMonth now = some month → month = monthOf (now / day)
  add : ∀ month months later, chrono.add month months = some later → later = month + months.toNat
  sub : ∀ month months cutoff, chrono.checkedSubMonths month months = some cutoff →
    cutoff = month - months.toNat
  off : ∀ month months, chrono.checkedSubMonths month months = none →
    month - months.toNat < 12 * -262143
  early : ∀ month < 0, ∃ rest, chrono.yearMonth month = '-' :: rest
  plain : ∀ year < 10000, ∀ month < 12, chrono.yearMonth ((12 * year + month : Nat) : Int) =
    padded 10 Nat.digitChar 4 year ++ '_' :: padded 10 Nat.digitChar 2 (month + 1)
  late : ∀ month ≥ 12 * 10000, ∃ rest, chrono.yearMonth month = '+' :: rest
  midnight : ∀ month, chrono.midnight month = firstDay month * day

/-! ### The table -/

/-- A `timestamptz`, in microseconds. -/
inductive Timestamp
  | negInfinity
  | at (micros : Int)
  | infinity
  deriving DecidableEq

/-- `ts < $1`. -/
def Timestamp.before (bound : Int) : Timestamp → Bool
  | .negInfinity => true
  | .at micros => micros < bound
  | .infinity => false

/-- What is bound for a `DateTime<Utc>`. -/
def bindMicros (instant : DateTime) : Int :=
  instant / 1000

/-- A partition of `audit_event`. -/
structure Partition (Row : Type) where
  relname : Str
  rows : List Row
  deriving DecidableEq

/-- A pattern of as many letters as it has classes. -/
def fits : List (Char → Bool) → Str → Bool
  | [], [] => true
  | admits :: pattern, char :: text => admits char && fits pattern text
  | _, _ => false

/-- `^audit_event_[0-9]{4}_[0-9]{2}$`. -/
def namePattern : List (Char → Bool) :=
  ("audit_event_".toList.map fun letter => (· == letter)) ++
    List.replicate 4 Char.isDigit ++ (· == '_') :: List.replicate 2 Char.isDigit

/-- The partition of the rows without a month of their own. -/
def defaultName : Str := "audit_event_default".toList

/-! ### A pass -/

/-- How a pass ends. -/
inductive Outcome
  | panicked
  | failed
  | completed
  deriving DecidableEq

/-- Which statements succeed. -/
structure Fates where
  created : UInt32 → Bool
  listed : Bool
  dropped : Str → Bool
  deleted : Bool

section Pass

variable {Row : Type} (chrono : Chrono) (ts : Row → Timestamp)

/-- `partition_name`. -/
def partitionName (month : Int) : Str :=
  "audit_event_".toList ++ chrono.yearMonth month

/-- `create table if not exists _ partition of audit_event`. -/
def createPartition (name : Str) (partitions : List (Partition Row)) : List (Partition Row) :=
  if partitions.any fun part => part.relname = name then partitions
  else partitions ++ [⟨name, []⟩]

/-- The loop over the months ahead, and whether it comes through without a panic. -/
def createAhead (fates : Fates) (month : Int) :
    List UInt32 → List (Partition Row) → Bool × List (Partition Row)
  | [], partitions => (true, partitions)
  | ahead :: later, partitions =>
    match chrono.add month ahead with
    | none => (false, partitions)
    | some start =>
      if (chrono.add start 1).isNone then (false, partitions)
      else createAhead fates month later
        (if fates.created ahead then createPartition (partitionName chrono start) partitions
          else partitions)

/-- The condition of the catalog query. -/
def expires (cutoff : Int) (name : Str) : Bool :=
  fits namePattern name && decide (name < partitionName chrono cutoff)

/-- The loop over the expired partitions, and whether every `drop table` succeeds. -/
def dropEach (fates : Fates) : List Str → List (Partition Row) → Bool × List (Partition Row)
  | [], partitions => (true, partitions)
  | name :: names, partitions =>
    if fates.dropped name then dropEach fates names (partitions.filter (·.relname ≠ name))
    else (false, partitions)

/-- `delete from audit_event_default where ts < $1`. -/
def deleteStray (bound : Int) (partitions : List (Partition Row)) : List (Partition Row) :=
  partitions.map fun part =>
    if part.relname = defaultName then
      { part with rows := part.rows.filter fun row => !(ts row).before bound }
    else part

/-- `maintain_audit`: one pass. -/
def maintainAudit (plan : Plan Str) (fates : Fates) (now : DateTime) (months : UInt32)
    (partitions : List (Partition Row)) : Outcome × List (Partition Row) :=
  match chrono.thisMonth now with
  | none => (.panicked, partitions)
  | some month =>
    match createAhead chrono fates month [0, 1] partitions with
    | (false, partitions) => (.panicked, partitions)
    | (true, partitions) =>
      match chrono.checkedSubMonths month months with
      | none => (.completed, partitions)
      | some cutoff =>
        if ¬ fates.listed then (.failed, partitions)
        else
          let names := (partitions.map (·.relname)).filter (expires chrono cutoff)
          match dropEach fates (plan.arrange names) partitions with
          | (false, partitions) => (.failed, partitions)
          | (true, partitions) =>
            if fates.deleted then
              (.completed, deleteStray ts (bindMicros (chrono.midnight cutoff)) partitions)
            else (.failed, partitions)

end Pass

/-! ### What the table holds -/

/-- The name of a partition, by its month. -/
def monthName (month : Nat) : Str :=
  "audit_event_".toList ++ (padded 10 Nat.digitChar 4 (month / 12) ++
    '_' :: padded 10 Nat.digitChar 2 (month % 12 + 1))

/-- The first instant of a month, in microseconds. -/
def monthStart (month : Int) : Int :=
  firstDay month * (86400 * 1000000)

/-- In a month. -/
def Timestamp.Within (month : Int) (stamp : Timestamp) : Prop :=
  ∃ micros, stamp = .at micros ∧ monthStart month ≤ micros ∧ micros < monthStart (month + 1)

section Table

variable {Row : Type} (ts : Row → Timestamp)

/-- The partition of a month whose year has four digits. -/
structure Monthly (month : Nat) (part : Partition Row) : Prop where
  year : month < 12 * 10000
  name : part.relname = monthName month
  rows : ∀ row ∈ part.rows, (ts row).Within month

/-- Partitions of months, and the default partition with any rows. -/
def Partitioned (partitions : List (Partition Row)) : Prop :=
  ∀ part ∈ partitions, part.relname = defaultName ∨ ∃ month, Monthly ts month part

/-- All rows of the table. -/
def allRows (partitions : List (Partition Row)) : List Row :=
  partitions.flatMap (·.rows)

/-- No row and no partition is gone. -/
structure Untouched (before after : List (Partition Row)) : Prop where
  rows : allRows after = allRows before
  names : ∀ part ∈ before, ∃ left ∈ after, left.relname = part.relname

end Table

/-- The month that lies so many months before the current one. -/
def cutoffMonth (now : DateTime) (months : UInt32) : Int :=
  monthOf (now / day) - months.toNat

section Promise

variable {Row : Type} (chrono : Chrono) (ts : Row → Timestamp) (now : DateTime) (months : UInt32)

/-- The cutoff is off the calendar. -/
def Off : Prop :=
  chrono.checkedSubMonths (monthOf (now / day)) months = none

/-- **What a pass that completes is to leave**: exactly the rows that are not before the cutoff, the
default partition and every partition from the cutoff on, everything where the cutoff is off the
calendar, and nothing for another pass in the same month to remove. -/
structure Retained (before after : List (Partition Row)) : Prop where
  rows : ¬ Off chrono now months → allRows after =
    (allRows before).filter fun row => !(ts row).before (monthStart (cutoffMonth now months))
  kept : ∀ part ∈ before, (part.relname = defaultName ∨
    ∃ month : Nat, Monthly ts month part ∧ cutoffMonth now months ≤ month) →
      ∃ left ∈ after, left.relname = part.relname
  off : Off chrono now months → Untouched before after
  again : ∀ plan fates later, monthOf (later / day) = monthOf (now / day) →
    Untouched after (maintainAudit chrono ts plan fates later months after).2

end Promise

/-! ### Names -/

theorem digits_ordered : StrictMonoOn Nat.digitChar (Set.Iio 10) := by
  have each : ∀ digit < 10, ∀ other < 10,
      digit < other → Nat.digitChar digit < Nat.digitChar other := by
    decide
  exact fun digit inside other inside' => each digit inside other inside'

theorem isDigit_of_mem_padded {width number : Nat} {char : Char}
    (member : char ∈ padded 10 Nat.digitChar width number) : char.isDigit = true := by
  obtain ⟨digit, small, rfl⟩ := Lib.mem_padded (by decide) member
  have each : ∀ digit < 10, (Nat.digitChar digit).isDigit = true := by decide
  exact each digit small

theorem zero_le_of_isDigit {char : Char} (digit : char.isDigit = true) : '0' ≤ char :=
  of_decide_eq_true (Bool.and_eq_true_iff.mp digit).1

theorem fits_append {pattern more : List (Char → Bool)} {text rest : Str}
    (same : pattern.length = text.length) :
    fits (pattern ++ more) (text ++ rest) = (fits pattern text && fits more rest) := by
  induction pattern generalizing text with
  | nil =>
    obtain rfl := List.length_eq_zero_iff.mp same.symm
    rfl
  | cons admits pattern ih =>
    cases text with
    | nil => cases same
    | cons char text =>
      show (admits char && fits (pattern ++ more) (text ++ rest)) = _
      rw [ih (Nat.succ.inj same), ← Bool.and_assoc]
      rfl

theorem fits_replicate {admits : Char → Bool} {text : Str}
    (all : ∀ char ∈ text, admits char = true) :
    fits (List.replicate text.length admits) text = true := by
  induction text with
  | nil => rfl
  | cons char text ih =>
    show (admits char && fits (List.replicate text.length admits) text) = true
    rw [all char List.mem_cons_self,
      ih fun other member => all other (List.mem_cons_of_mem _ member)]
    rfl

theorem fits_padded (width number : Nat) :
    fits (List.replicate width Char.isDigit) (padded 10 Nat.digitChar width number) = true := by
  have each := @fits_replicate _ _ fun char => @isDigit_of_mem_padded width number char
  rwa [Lib.length_padded] at each

/-- Behind the common part of the names. -/
theorem fits_name (rest : Str) : fits namePattern ("audit_event_".toList ++ rest) =
    fits (List.replicate 4 Char.isDigit ++ (· == '_') :: List.replicate 2 Char.isDigit) rest := by
  unfold namePattern
  rw [List.append_assoc, fits_append rfl]
  rfl

theorem fits_monthName (month : Nat) : fits namePattern (monthName month) = true := by
  unfold monthName
  rw [fits_name, fits_append (by rw [Lib.length_padded, List.length_replicate]), fits_padded]
  exact fits_padded 2 (month % 12 + 1)

/-- **The names are in the order of the months.** -/
theorem monthName_lt {month other : Nat} (year : month < 12 * 10000) (year' : other < 12 * 10000) :
    monthName month < monthName other ↔ month < other := by
  unfold monthName
  rw [Lib.append_lt_append rfl, Lib.append_lt_append (by rw [Lib.length_padded, Lib.length_padded]),
    List.cons_lt_cons_iff,
    Lib.padded_lt_padded_of_lt digits_ordered (by decide) (by omega) (by omega),
    Lib.padded_inj digits_ordered (by decide) (by omega) (by omega),
    Lib.padded_lt_padded_of_lt digits_ordered (by decide) (by omega) (by omega)]
  have apart : ¬ "audit_event_".toList < "audit_event_".toList := List.lt_irrefl _
  have apart' : ¬ '_' < '_' := by decide
  simp only [apart, apart', false_or, true_and]
  omega

section Names

variable {chrono : Chrono} {cutoff : Int}

theorem partitionName_natCast (documented : chrono.Documented) {month : Nat}
    (year : month < 12 * 10000) : partitionName chrono month = monthName month := by
  have plain := documented.plain (month / 12) (by omega) (month % 12) (Nat.mod_lt _ (by decide))
  rw [Nat.div_add_mod] at plain
  unfold partitionName monthName
  rw [plain]

theorem expires_default : expires chrono cutoff defaultName = false := by
  unfold expires
  rw [show fits namePattern defaultName = false by decide, Bool.false_and]

/-- A sign is no digit. -/
theorem expires_signed {month : Int} {sign : Char} (other : sign.isDigit = false)
    (signed : ∃ rest, chrono.yearMonth month = sign :: rest) :
    expires chrono cutoff (partitionName chrono month) = false := by
  obtain ⟨rest, shape⟩ := signed
  unfold expires partitionName
  rw [fits_name, shape]
  show ((sign.isDigit && _) && _) = false
  rw [other, Bool.false_and, Bool.false_and]

/-- **What the comparison says**: a partition expires with a month before the cutoff's, as long as
the cutoff's year has four digits. -/
theorem expires_monthName (documented : chrono.Documented) {month : Nat}
    (year : month < 12 * 10000) :
    expires chrono cutoff (monthName month) = true ↔
    (month : Int) < cutoff ∧ cutoff < 12 * 10000 := by
  have below : ∀ sign < '0', (∃ rest, chrono.yearMonth cutoff = sign :: rest) →
      ¬ monthName month < partitionName chrono cutoff := by
    rintro sign low ⟨rest, shape⟩ less
    have first : Nat.digitChar (month / 12 / 10 ^ 3 % 10) ∈ padded 10 Nat.digitChar 4
        (month / 12) :=
      List.mem_cons_self
    have high := low.trans_le (zero_le_of_isDigit (isDigit_of_mem_padded first))
    unfold monthName partitionName at less
    rw [shape, Lib.append_lt_append rfl, padded, List.cons_append, List.cons_lt_cons_iff] at less
    rcases less with same | ⟨_, lower | ⟨same, _⟩⟩
    · exact List.lt_irrefl _ same
    · exact lt_asymm lower high
    · exact high.ne same.symm
  unfold expires
  rw [fits_monthName, Bool.true_and, decide_eq_true_iff]
  by_cases signed : cutoff < 0
  · refine iff_of_false (below '-' (by decide) (documented.early cutoff signed)) ?_
    omega
  · by_cases late : 12 * 10000 ≤ cutoff
    · refine iff_of_false (below '+' (by decide) (documented.late cutoff late)) ?_
      omega
    · obtain ⟨other, rfl⟩ := Int.eq_ofNat_of_zero_le (not_lt.mp signed)
      rw [partitionName_natCast documented (by omega), monthName_lt year (by omega)]
      omega

/-- **A month from the cutoff on never expires.** -/
theorem expires_ahead (documented : chrono.Documented) {month : Int} (later : cutoff ≤ month) :
    expires chrono cutoff (partitionName chrono month) = false := by
  by_cases signed : month < 0
  · exact expires_signed rfl (documented.early month signed)
  · by_cases late : 12 * 10000 ≤ month
    · exact expires_signed rfl (documented.late month late)
    · obtain ⟨other, rfl⟩ := Int.eq_ofNat_of_zero_le (not_lt.mp signed)
      rw [partitionName_natCast documented (by omega), Bool.eq_false_iff]
      intro expired
      have before := ((expires_monthName documented (by omega)).mp expired).1
      omega

end Names

/-! ### What a pass does -/

section Steps

variable {Row : Type} {chrono : Chrono} {ts : Row → Timestamp} {fates : Fates}
  {partitions before after : List (Partition Row)} {month cutoff : Int}

/-- Partitions without rows, of a month or later ones. -/
def Ahead (chrono : Chrono) (month : Int) (fresh : List (Partition Row)) : Prop :=
  ∀ part ∈ fresh, part.rows = [] ∧ ∃ ahead : Nat,
    part.relname = partitionName chrono (month + ahead)

theorem createPartition_eq (name : Str) (partitions : List (Partition Row)) :
    createPartition name partitions = partitions ∨
      createPartition name partitions = partitions ++ [⟨name, []⟩] := by
  unfold createPartition
  split
  · exact Or.inl rfl
  · exact Or.inr rfl

/-- **Creating** adds empty partitions. -/
theorem createAhead_eq (documented : chrono.Documented) (months : List UInt32) :
    ∃ fresh, Ahead chrono month fresh ∧
      (createAhead chrono fates month months partitions).2 = partitions ++ fresh := by
  have none : ∃ fresh, Ahead chrono month fresh ∧ partitions = partitions ++ fresh :=
    ⟨[], fun _ member => (nomatch member), (List.append_nil _).symm⟩
  induction months generalizing partitions with
  | nil => exact none
  | cons ahead later ih =>
    unfold createAhead
    cases start : chrono.add month ahead with
    | none => exact none
    | some first =>
      obtain rfl := documented.add _ _ _ start
      dsimp only
      split
      · exact none
      · have created : ∃ fresh, Ahead chrono month fresh ∧ (if fates.created ahead then
            createPartition (partitionName chrono (month + ahead.toNat)) partitions
              else partitions) =
              partitions ++ fresh := by
          split
          · rcases createPartition_eq (partitionName chrono (month + ahead.toNat)) partitions with
              same | more
            · exact ⟨[], fun _ member => (nomatch member), same.trans (List.append_nil _).symm⟩
            · exact ⟨_, List.forall_mem_singleton.mpr ⟨rfl, _, rfl⟩, more⟩
          · exact none
        obtain ⟨fresh, empty, shape⟩ := created
        obtain ⟨more, empty', shape'⟩ := @ih (partitions ++ fresh)
          ⟨[], fun _ member => (nomatch member), (List.append_nil _).symm⟩
        rw [shape]
        exact ⟨fresh ++ more, List.forall_mem_append.mpr ⟨empty, empty'⟩,
          shape'.trans (List.append_assoc _ _ _)⟩

/-- **Dropping** takes away listed partitions, all of them where no statement fails. -/
theorem dropEach_eq (names : List Str) : ∃ gone ⊆ names,
    (dropEach fates names partitions).2 = partitions.filter (·.relname ∉ gone) ∧
      ((dropEach fates names partitions).1 = true → gone = names) := by
  induction names generalizing partitions with
  | nil =>
    refine ⟨[], List.Subset.refl _, (List.filter_eq_self.mpr fun part _ => ?_).symm, fun _ => rfl⟩
    exact decide_eq_true (List.not_mem_nil)
  | cons name names ih =>
    unfold dropEach
    split
    · obtain ⟨gone, listed, left, all⟩ := @ih (partitions.filter (·.relname ≠ name))
      refine ⟨name :: gone, List.cons_subset_cons name listed, ?_, fun done => by rw [all done]⟩
      rw [left, List.filter_filter]
      refine List.filter_congr fun part _ => ?_
      rw [← Bool.decide_and, decide_eq_decide, List.mem_cons, not_or, and_comm]
    · refine ⟨[], List.nil_subset _, (List.filter_eq_self.mpr fun part _ => ?_).symm,
        fun done => nomatch done⟩
      exact decide_eq_true List.not_mem_nil

/-- **Dropping what has expired**, in whatever order. -/
theorem dropExpired_eq {through : Bool} {rest : List (Partition Row)} {plan : Plan Str}
    (dropped : dropEach fates (plan.arrange ((partitions.map (·.relname)).filter
      (expires chrono cutoff))) partitions = (through, rest)) :
    (∃ gone : List Str, (∀ name ∈ gone, expires chrono cutoff name = true) ∧
      rest = partitions.filter (·.relname ∉ gone)) ∧
    (through = true →
      rest = partitions.filter fun part => !expires chrono cutoff part.relname) := by
  obtain ⟨gone, listed, left, all⟩ := @dropEach_eq _ fates partitions (plan.arrange
    ((partitions.map (·.relname)).filter (expires chrono cutoff)))
  rw [dropped] at left all
  have known : ∀ name, name ∈ plan.arrange ((partitions.map (·.relname)).filter
      (expires chrono cutoff)) ↔
        name ∈ partitions.map (·.relname) ∧ expires chrono cutoff name = true :=
    fun name => (plan.perm _).mem_iff.trans List.mem_filter
  refine ⟨⟨gone, fun name member => ((known name).mp (listed member)).2, left⟩, fun done => ?_⟩
  refine left.trans (List.filter_congr fun part member => ?_)
  rw [Bool.eq_iff_iff, decide_eq_true_iff, Bool.not_eq_true', all done, known,
    and_iff_right (List.mem_map_of_mem member), Bool.not_eq_true]

/-- What one pass comes to. -/
inductive Comes (chrono : Chrono) (ts : Row → Timestamp) (months : UInt32) (month : Int)
    (before : List (Partition Row)) : Outcome × List (Partition Row) → Prop
  | early {outcome : Outcome} {fresh : List (Partition Row)} (ahead : Ahead chrono month fresh)
      (off : outcome = .completed → chrono.checkedSubMonths month months = none) :
      Comes chrono ts months month before (outcome, before ++ fresh)
  | failed {fresh : List (Partition Row)} {gone : List Str} (ahead : Ahead chrono month fresh)
      (on : chrono.checkedSubMonths month months ≠ none)
      (expired : ∀ name ∈ gone, expires chrono (month - months.toNat) name = true) :
      Comes chrono ts months month before (.failed, (before ++ fresh).filter (·.relname ∉ gone))
  | completed {fresh : List (Partition Row)} (ahead : Ahead chrono month fresh)
      (on : chrono.checkedSubMonths month months ≠ none) :
      Comes chrono ts months month before (.completed,
        deleteStray ts (monthStart (month - months.toNat))
          ((before ++ fresh).filter fun part =>
            !expires chrono (month - months.toNat) part.relname))

theorem bindMicros_midnight (documented : chrono.Documented) (month : Int) :
    bindMicros (chrono.midnight month) = monthStart month := by
  unfold bindMicros monthStart
  rw [documented.midnight]
  unfold day
  omega

/-- **One pass.** -/
theorem comes (documented : chrono.Documented) (plan : Plan Str) (now : DateTime)
    (months : UInt32) :
    Comes chrono ts months (monthOf (now / day)) before
      (maintainAudit chrono ts plan fates now months before) := by
  unfold maintainAudit
  cases current : chrono.thisMonth now with
  | none =>
    have nothing : before = before ++ [] := (List.append_nil _).symm
    dsimp only
    nth_rewrite 2 [nothing]
    exact .early (fun _ member => nomatch member) (fun same => nomatch same)
  | some month =>
    obtain rfl := documented.thisMonth _ _ current
    obtain ⟨fresh, ahead, shape⟩ :=
      @createAhead_eq _ _ fates before (monthOf (now / day)) documented [0, 1]
    dsimp only
    generalize createAhead chrono fates (monthOf (now / day)) [0, 1] before = made at shape ⊢
    obtain ⟨through, made⟩ := made
    obtain rfl : made = before ++ fresh := shape
    cases through with
    | false => exact .early ahead (fun same => nomatch same)
    | true =>
      dsimp only
      cases sub : chrono.checkedSubMonths (monthOf (now / day)) months with
      | none => exact .early ahead fun _ => sub
      | some cutoff =>
        obtain rfl := documented.sub _ _ _ sub
        have on : chrono.checkedSubMonths (monthOf (now / day)) months ≠ none :=
          sub ▸ Option.some_ne_none _
        dsimp only
        split
        · exact .early ahead (fun same => nomatch same)
        · generalize dropped : dropEach fates _ (before ++ fresh) = result
          obtain ⟨through, rest⟩ := result
          obtain ⟨⟨gone, expired, left⟩, all⟩ := dropExpired_eq dropped
          cases through with
          | false =>
            rw [left]
            exact .failed ahead on expired
          | true =>
            dsimp only
            split
            · rw [all rfl, bindMicros_midnight documented]
              exact .completed ahead on
            · rw [left]
              exact .failed ahead on expired

end Steps

/-! ### What a pass leaves -/

section Leaves

variable {Row : Type} {chrono : Chrono} {ts : Row → Timestamp} {months : UInt32} {now : DateTime}
  {partitions fresh before after : List (Partition Row)} {month cutoff bound : Int}

theorem allRows_append (first second : List (Partition Row)) :
    allRows (first ++ second) = allRows first ++ allRows second :=
  List.flatMap_append

theorem allRows_ahead (ahead : Ahead chrono month fresh) :
    allRows (before ++ fresh) = allRows before := by
  rw [allRows_append]
  have none : allRows fresh = [] :=
    List.flatMap_eq_nil_iff.mpr fun part member => (ahead part member).1
  rw [none, List.append_nil]

theorem untouched_ahead (ahead : Ahead chrono month fresh) : Untouched before (before ++ fresh) :=
  ⟨allRows_ahead ahead, fun part member => ⟨part, List.mem_append_left _ member, rfl⟩⟩

theorem expires_fresh (documented : chrono.Documented) (ahead : Ahead chrono month fresh)
    (later : cutoff ≤ month) : ∀ part ∈ fresh, expires chrono cutoff part.relname = false := by
  intro part member
  obtain ⟨_, many, name⟩ := ahead part member
  rw [name]
  exact expires_ahead documented (by omega)

/-- A partition after the deletion. -/
theorem mem_deleteStray {part : Partition Row} (member : part ∈ deleteStray ts bound partitions) :
    ∃ old ∈ partitions, part.relname = old.relname ∧
      (part.relname = defaultName → ∀ row ∈ part.rows, (ts row).before bound = false) := by
  obtain ⟨old, listed, rfl⟩ := List.mem_map.mp member
  refine ⟨old, listed, ?_⟩
  split
  · refine ⟨rfl, fun _ row kept => ?_⟩
    exact Bool.not_eq_eq_eq_not.mp (List.mem_filter.mp kept).2
  · rename_i other
    exact ⟨rfl, fun same => absurd same other⟩

theorem exists_mem_deleteStray {old : Partition Row} (member : old ∈ partitions) :
    ∃ part ∈ deleteStray ts bound partitions, part.relname = old.relname := by
  refine ⟨_, List.mem_map_of_mem member, ?_⟩
  split
  · rfl
  · rfl

/-- Where there is nothing to delete. -/
theorem deleteStray_eq_self (rows : ∀ part ∈ partitions, part.relname = defaultName →
      ∀ row ∈ part.rows, (ts row).before bound = false) :
    deleteStray ts bound partitions = partitions := by
  unfold deleteStray
  refine (List.map_congr_left fun part member => ?_).trans (List.map_id' _)
  split
  · rename_i stray
    have all : part.rows.filter (fun row => !(ts row).before bound) = part.rows := by
      refine List.filter_eq_self.mpr fun row kept => ?_
      rw [rows part member stray row kept]
      rfl
    rw [all]
  · rfl

theorem deleteStray_cons (part : Partition Row) (partitions : List (Partition Row)) :
    deleteStray ts bound (part :: partitions) =
      deleteStray ts bound [part] ++ deleteStray ts bound partitions :=
  rfl

/-- **The rows that are left**, where names and rows agree on what is before the cutoff. -/
theorem allRows_completed (agree : ∀ part ∈ partitions,
      (part.relname = defaultName ∧ expires chrono cutoff part.relname = false) ∨
      (expires chrono cutoff part.relname = true ∧ ∀ row ∈ part.rows,
        (ts row).before bound = true) ∨
      (expires chrono cutoff part.relname = false ∧ ∀ row ∈ part.rows,
        (ts row).before bound = false)) :
    allRows (deleteStray ts bound
        (partitions.filter fun part => !expires chrono cutoff part.relname)) =
      (allRows partitions).filter fun row => !(ts row).before bound := by
  induction partitions with
  | nil => rfl
  | cons part partitions ih =>
    have rest := ih fun other member => agree other (List.mem_cons_of_mem _ member)
    have single : allRows [part] = part.rows := List.flatMap_singleton _ _
    have both : allRows (part :: partitions) = part.rows ++ allRows partitions := rfl
    rw [both, List.filter_append, ← rest]
    rcases agree part List.mem_cons_self with ⟨stray, stays⟩ | ⟨gone, all⟩ | ⟨stays, none⟩
    · rw [List.filter_cons_of_pos (by rw [stays]; rfl), deleteStray_cons, allRows_append]
      have left : deleteStray ts bound [part] =
          [{ part with rows := part.rows.filter fun row => !(ts row).before bound }] :=
        congrArg (fun part => [part]) (if_pos stray)
      rw [left]
      exact congrArg (· ++ _) (List.flatMap_singleton _ _)
    · rw [List.filter_cons_of_neg (by rw [gone]; decide)]
      refine (congrArg (· ++ _) (List.filter_eq_nil_iff.mpr fun row member => ?_)).symm
      rw [all row member]
      decide
    · rw [List.filter_cons_of_pos (by rw [stays]; rfl), deleteStray_cons, allRows_append,
        deleteStray_eq_self (List.forall_mem_singleton.mpr fun _ => none), single]
      refine (congrArg (· ++ _) (List.filter_eq_self.mpr fun row member => ?_)).symm
      rw [none row member]
      rfl

/-- A row outside the default partition stays with its partition. -/
theorem mem_allRows_completed {part : Partition Row} {row : Row}
    (stays : expires chrono cutoff part.relname = false) (other : part.relname ≠ defaultName)
    (member : part ∈ partitions) (inside : row ∈ part.rows) :
    row ∈ allRows (deleteStray ts bound
      (partitions.filter fun part => !expires chrono cutoff part.relname)) := by
  have kept : part ∈ partitions.filter fun part => !expires chrono cutoff part.relname :=
    List.mem_filter.mpr ⟨member, Bool.not_eq_eq_eq_not.mpr stays⟩
  exact List.mem_flatMap.mpr ⟨part, List.mem_map.mpr ⟨part, kept, if_neg other⟩, inside⟩

/-- Nothing is left for a pass to remove. -/
structure Settled (chrono : Chrono) (ts : Row → Timestamp) (cutoff : Int)
    (partitions : List (Partition Row)) : Prop where
  names : ∀ part ∈ partitions, expires chrono cutoff part.relname = false
  rows : ∀ part ∈ partitions, part.relname = defaultName →
    ∀ row ∈ part.rows, (ts row).before (monthStart cutoff) = false

/-- **After a pass that completes** nothing is left to remove. -/
theorem settled_of_completed : Settled chrono ts cutoff (deleteStray ts (monthStart cutoff)
    (partitions.filter fun part => !expires chrono cutoff part.relname)) := by
  refine ⟨fun part member => ?_, fun part member stray => ?_⟩
  · obtain ⟨old, listed, name, _⟩ := mem_deleteStray member
    rw [name]
    exact Bool.not_eq_eq_eq_not.mp (List.mem_filter.mp listed).2
  · obtain ⟨_, _, _, rows⟩ := mem_deleteStray member
    exact rows stray

/-- **And a pass removes nothing then**, whatever fails. -/
theorem pass_settled (documented : chrono.Documented) (plan : Plan Str) (fates : Fates)
    (settled : Settled chrono ts (cutoffMonth now months) partitions) :
    Untouched partitions (maintainAudit chrono ts plan fates now months partitions).2 := by
  have whole : ∀ {fresh}, Ahead chrono (monthOf (now / day)) fresh → ∀ part ∈ partitions ++ fresh,
      expires chrono (cutoffMonth now months) part.relname = false := by
    intro fresh ahead
    refine List.forall_mem_append.mpr ⟨settled.names, expires_fresh documented ahead ?_⟩
    exact Int.sub_le_self _ (Int.natCast_nonneg _)
  have outcome := @comes _ _ ts fates partitions documented plan now months
  generalize maintainAudit chrono ts plan fates now months partitions = result at outcome ⊢
  cases outcome with
  | early ahead off => exact untouched_ahead ahead
  | @failed fresh gone ahead _ expired =>
    have all : (partitions ++ fresh).filter (·.relname ∉ gone) = partitions ++ fresh := by
      refine List.filter_eq_self.mpr fun part member => decide_eq_true fun listed => ?_
      have stays := whole ahead part member
      have gone : expires chrono (cutoffMonth now months) part.relname = true := expired _ listed
      rw [gone] at stays
      cases stays
    show Untouched partitions ((partitions ++ fresh).filter (·.relname ∉ gone))
    rw [all]
    exact untouched_ahead ahead
  | @completed fresh ahead on =>
    have all : ((partitions ++ fresh).filter fun part =>
        !expires chrono (cutoffMonth now months) part.relname) = partitions ++ fresh := by
      refine List.filter_eq_self.mpr fun part member => ?_
      rw [whole ahead part member]
      rfl
    have same : deleteStray ts (monthStart (cutoffMonth now months)) (partitions ++ fresh) =
        partitions ++ fresh := by
      refine deleteStray_eq_self
        (List.forall_mem_append.mpr ⟨settled.rows, fun part member _ => ?_⟩)
      rw [(ahead part member).1]
      exact fun _ none => nomatch none
    show Untouched partitions (deleteStray ts (monthStart (cutoffMonth now months))
      ((partitions ++ fresh).filter fun part =>
        !expires chrono (cutoffMonth now months) part.relname))
    rw [all, same]
    exact untouched_ahead ahead

/-- Where the cutoff is off the calendar no pass removes anything. -/
theorem pass_off (documented : chrono.Documented) (plan : Plan Str) (fates : Fates)
    (off : Off chrono now months) :
    Untouched partitions (maintainAudit chrono ts plan fates now months partitions).2 := by
  have outcome := @comes _ _ ts fates partitions documented plan now months
  generalize maintainAudit chrono ts plan fates now months partitions = result at outcome ⊢
  cases outcome with
  | early ahead _ => exact untouched_ahead ahead
  | failed _ on _ => exact absurd off on
  | completed _ on => exact absurd off on

end Leaves

/-! ### The promise -/

section Kept

variable {Row : Type} {chrono : Chrono} {ts : Row → Timestamp} {months : UInt32} {now : DateTime}
  {partitions fresh before after : List (Partition Row)} {month cutoff bound : Int}

theorem lt_monthStart {micros : Int} :
    micros < monthStart month ↔ monthOf (micros / (86400 * 1000000)) < month := by
  unfold monthStart
  rw [monthOf_lt, Int.ediv_lt_iff_lt_mul (by decide)]

/-- A timestamp is in the month that its day is in. -/
theorem within_iff {micros : Int} :
    (Timestamp.at micros).Within month ↔ monthOf (micros / (86400 * 1000000)) = month := by
  have bounds : monthStart month ≤ micros ∧ micros < monthStart (month + 1) ↔
      monthOf (micros / (86400 * 1000000)) = month := by
    rw [← not_lt, lt_monthStart, lt_monthStart]
    omega
  rw [← bounds]
  constructor
  · rintro ⟨_, same, inside⟩
    rwa [Timestamp.at.inj same]
  · exact fun inside => ⟨micros, rfl, inside⟩

/-- **The rows of a month** are before the cutoff where the month is. -/
theorem before_of_within {stamp : Timestamp} (within : stamp.Within month) :
    stamp.before (monthStart cutoff) = true ↔ month < cutoff := by
  obtain ⟨micros, rfl, _⟩ := id within
  show decide (micros < monthStart cutoff) = true ↔ _
  rw [decide_eq_true_iff, lt_monthStart, within_iff.mp within]

theorem monthName_ne_default (month : Nat) : monthName month ≠ defaultName := by
  intro same
  have fitting := fits_monthName month
  rw [same] at fitting
  cases fitting

/-- Names and rows agree on a partition of a month, as long as it is empty or the cutoff's year has
four digits. -/
theorem Monthly.agree (documented : chrono.Documented) {index : Nat} {part : Partition Row}
    (monthly : Monthly ts index part) (plain : cutoff < 12 * 10000 ∨ part.rows = []) :
    (expires chrono cutoff part.relname = true ∧
        ∀ row ∈ part.rows, (ts row).before (monthStart cutoff) = true) ∨
      (expires chrono cutoff part.relname = false ∧
        ∀ row ∈ part.rows, (ts row).before (monthStart cutoff) = false) := by
  rcases plain with plain | empty
  · have expired := @expires_monthName _ cutoff documented _ monthly.year
    rw [← monthly.name] at expired
    by_cases earlier : (index : Int) < cutoff
    · refine Or.inl ⟨expired.mpr ⟨earlier, plain⟩, fun row member => ?_⟩
      exact (before_of_within (monthly.rows row member)).mpr earlier
    · refine Or.inr ⟨Bool.eq_false_iff.mpr fun gone => earlier (expired.mp gone).1,
        fun row member => Bool.eq_false_iff.mpr fun gone => ?_⟩
      exact earlier ((before_of_within (monthly.rows row member)).mp gone)
  · rw [empty]
    cases expires chrono cutoff part.relname with
    | true => exact Or.inl ⟨rfl, fun _ member => nomatch member⟩
    | false => exact Or.inr ⟨rfl, fun _ member => nomatch member⟩

/-- **What survives**: the default partition and the partitions from the cutoff on. -/
theorem not_expires_of_kept (documented : chrono.Documented) {part : Partition Row}
    (kept : part.relname = defaultName ∨ ∃ month : Nat, Monthly ts month part ∧ cutoff ≤ month) :
    expires chrono cutoff part.relname = false := by
  rcases kept with stray | ⟨index, monthly, later⟩
  · rw [stray]
    exact expires_default
  · rw [monthly.name]
    refine Bool.eq_false_iff.mpr fun gone => ?_
    have earlier := ((expires_monthName documented monthly.year).mp gone).1
    omega

/-- A row from the cutoff on stays, wherever the pass stops. -/
theorem mem_allRows_of_late (documented : chrono.Documented) (plan : Plan Str) (fates : Fates)
    (partitioned : Partitioned ts before) {row : Row} (inside : row ∈ allRows before)
    (within : (ts row).Within month) (late : cutoffMonth now months ≤ month) :
    row ∈ allRows (maintainAudit chrono ts plan fates now months before).2 := by
  obtain ⟨part, member, held⟩ := List.mem_flatMap.mp inside
  have stays : expires chrono (cutoffMonth now months) part.relname = false := by
    refine @not_expires_of_kept _ _ ts _ documented part ((partitioned part member).imp_right ?_)
    rintro ⟨index, monthly⟩
    refine ⟨index, monthly, ?_⟩
    obtain ⟨micros, same, _⟩ := id within
    have here := monthly.rows row held
    rw [same] at within here
    rw [← within_iff.mp here, within_iff.mp within]
    exact late
  have kept : (ts row).before (monthStart (cutoffMonth now months)) = false :=
    Bool.eq_false_iff.mpr fun gone => absurd ((before_of_within within).mp gone) (not_lt.mpr late)
  have outcome := @comes _ _ ts fates before documented plan now months
  generalize maintainAudit chrono ts plan fates now months before = result at outcome ⊢
  cases outcome with
  | early ahead _ =>
    show row ∈ allRows (before ++ _)
    rwa [allRows_ahead ahead]
  | @failed fresh gone ahead _ expired =>
    refine List.mem_flatMap.mpr ⟨part, List.mem_filter.mpr ⟨List.mem_append_left _ member, ?_⟩,
      held⟩
    refine decide_eq_true fun listed => ?_
    have leaves : expires chrono (cutoffMonth now months) part.relname = true := expired _ listed
    rw [leaves] at stays
    cases stays
  | @completed fresh ahead _ =>
    have listed : part ∈ (before ++ fresh).filter fun part =>
        !expires chrono (cutoffMonth now months) part.relname :=
      List.mem_filter.mpr ⟨List.mem_append_left _ member, Bool.not_eq_eq_eq_not.mpr stays⟩
    refine List.mem_flatMap.mpr ⟨_, List.mem_map_of_mem listed, ?_⟩
    split
    · refine List.mem_filter.mpr ⟨held, Bool.not_eq_eq_eq_not.mpr ?_⟩
      exact kept
    · exact held

/-- **Whatever setting the start accepts**, no pass removes a row of the current month or of the
month before it. -/
theorem recent_kept {value : Option Str} (set : retentionMonths value = some months)
    (documented : chrono.Documented) (plan : Plan Str) (fates : Fates)
    (partitioned : Partitioned ts before) {row : Row} (inside : row ∈ allRows before)
    (within : (ts row).Within month) (recent : monthOf (now / day) - 1 ≤ month) :
    row ∈ allRows (maintainAudit chrono ts plan fates now months before).2 := by
  refine mem_allRows_of_late documented plan fates partitioned inside within ?_
  have some : 0 < months.toNat := UInt32.lt_iff_toNat_lt.mp (retentionMonths_pos set)
  unfold cutoffMonth
  omega

/-- **Retention, exactly**: a pass that completes leaves what it is to leave if and only if the
cutoff is in a year before 10000, or no partition of a month holds a row. From the year 10000 on the
name that the others are compared with has a sign in front of its year, and every digit is behind
that. -/
theorem retained_iff (chrono : Chrono) (documented : chrono.Documented) {Row : Type}
    (ts : Row → Timestamp) (plan : Plan Str) (fates : Fates) (now : DateTime) (months : UInt32)
    (before after : List (Partition Row)) (partitioned : Partitioned ts before)
    (completes : maintainAudit chrono ts plan fates now months before = (.completed, after)) :
    Retained chrono ts now months before after ↔
      cutoffMonth now months < 12 * 10000 ∨
        ∀ part ∈ before, part.relname ≠ defaultName → part.rows = [] := by
  have outcome := @comes _ _ ts fates before documented plan now months
  rw [completes] at outcome
  cases outcome with
  | early ahead off =>
    have far := documented.off _ _ (off rfl)
    refine iff_of_true ⟨fun on => absurd (off rfl) on, fun part member _ => ?_, fun _ =>
      untouched_ahead ahead, fun plan fates later same => ?_⟩ (Or.inl (far.trans (by decide)))
    · exact ⟨part, List.mem_append_left _ member, rfl⟩
    · refine pass_off documented plan fates ?_
      unfold Off
      rw [same]
      exact off rfl
  | @completed fresh ahead on =>
    constructor
    · intro retained
      by_contra neither
      rw [not_or, not_lt] at neither
      obtain ⟨late, full⟩ := neither
      push Not at full
      obtain ⟨part, member, other, some⟩ := full
      obtain ⟨index, monthly⟩ := (partitioned part member).resolve_left other
      obtain ⟨row, inside⟩ := List.exists_mem_of_ne_nil _ some
      have stays : expires chrono (cutoffMonth now months) part.relname = false := by
        rw [monthly.name, Bool.eq_false_iff]
        exact fun gone =>
          absurd ((expires_monthName documented monthly.year).mp gone).2 (not_lt.mpr late)
      have left := @mem_allRows_completed _ _ ts _ _ (monthStart (cutoffMonth now months)) _ _ stays
        other (List.mem_append_left fresh member) inside
      have rows := retained.rows on
      unfold cutoffMonth at left rows
      rw [rows, List.mem_filter] at left
      have early : (ts row).before (monthStart (monthOf (now / day) - months.toNat)) = true :=
        (before_of_within (monthly.rows row inside)).mpr
          ((Int.ofNat_lt.mpr monthly.year).trans_le late)
      have gone := left.2
      rw [early] at gone
      cases gone
    · intro plain
      refine ⟨fun _ => ?_, fun part member kept => ?_, fun off => absurd off on,
        fun plan fates later same => ?_⟩
      · refine (allRows_completed fun part member => ?_).trans (congrArg _ (allRows_ahead ahead))
        rcases List.mem_append.mp member with old | new
        · refine (partitioned part old).imp (fun stray => ⟨stray, stray ▸ expires_default⟩) ?_
          rintro ⟨index, monthly⟩
          exact monthly.agree documented (plain.imp id fun empty =>
            empty part old (monthly.name ▸ monthName_ne_default index))
        · refine Or.inr (Or.inr ⟨expires_fresh documented ahead
            (Int.sub_le_self _ (Int.natCast_nonneg _)) part new, ?_⟩)
          rw [(ahead part new).1]
          exact fun _ none => nomatch none
      · refine exists_mem_deleteStray (List.mem_filter.mpr ⟨List.mem_append_left _ member, ?_⟩)
        exact Bool.not_eq_eq_eq_not.mpr (not_expires_of_kept documented kept)
      · have same : cutoffMonth later months = cutoffMonth now months := by
          unfold cutoffMonth
          rw [same]
        refine pass_settled documented plan fates ?_
        rw [same]
        exact settled_of_completed

end Kept

/-! ### Two clock readings -/

/-- A year outside the four digits, as `%Y` has it. -/
def signedYear (year : Int) : Str :=
  let digits := Nat.toDigits 10 year.natAbs
  (if year < 0 then '-' else '+') :: (List.replicate (4 - digits.length) '0' ++ digits)

/-- The crate. `Utc::now()` panics before 1970, and dates end with the year 262142. -/
def gregorian : Chrono where
  thisMonth now :=
    if 0 ≤ now ∧ monthOf (now / day) < 12 * 262143 then some (monthOf (now / day)) else none
  add month months :=
    if month + months.toNat < 12 * 262143 then some (month + months.toNat) else none
  checkedSubMonths month months :=
    if 12 * -262143 ≤ month - months.toNat then some (month - months.toNat) else none
  yearMonth month := (if 0 ≤ month ∧ month < 12 * 10000 then
      padded 10 Nat.digitChar 4 (month / 12).toNat else signedYear (month / 12)) ++
    '_' :: padded 10 Nat.digitChar 2 (month % 12 + 1).toNat
  midnight month := firstDay month * day

theorem documented_gregorian : gregorian.Documented where
  thisMonth now month shown := by
    obtain ⟨_, same⟩ := Option.ite_none_right_eq_some.mp shown
    exact (Option.some.inj same).symm
  add month months later shown := by
    obtain ⟨_, same⟩ := Option.ite_none_right_eq_some.mp shown
    exact (Option.some.inj same).symm
  sub month months cutoff shown := by
    obtain ⟨_, same⟩ := Option.ite_none_right_eq_some.mp shown
    exact (Option.some.inj same).symm
  off month months none := by
    by_contra inside
    have some : gregorian.checkedSubMonths month months = some _ := if_pos (not_lt.mp inside)
    rw [none] at some
    cases some
  early month before := by
    have year : month / 12 < 0 := by omega
    have outside : ¬ (0 ≤ month ∧ month < 12 * 10000) := by omega
    unfold gregorian signedYear
    dsimp only
    rw [if_neg outside, if_pos year]
    exact ⟨_, rfl⟩
  plain year small month inside := by
    have bounds : 0 ≤ ((12 * year + month : Nat) : Int) ∧
        ((12 * year + month : Nat) : Int) < 12 * 10000 := by
      omega
    have first : (((12 * year + month : Nat) : Int) / 12).toNat = year := by omega
    have second : (((12 * year + month : Nat) : Int) % 12 + 1).toNat = month + 1 := by omega
    unfold gregorian
    dsimp only
    rw [if_pos bounds, first, second]
  late month after := by
    have year : ¬ month / 12 < 0 := by omega
    have outside : ¬ (0 ≤ month ∧ month < 12 * 10000) := by omega
    unfold gregorian signedYear
    dsimp only
    rw [if_neg outside, if_neg year]
    exact ⟨_, rfl⟩
  midnight month := rfl

namespace Clock

/-- Every statement succeeds but those that create a partition. -/
def fates : Fates :=
  ⟨fun _ => false, true, fun _ => true, true⟩

/-- The first instant of a month, on the clock. -/
def reading (month : Int) : DateTime :=
  firstDay month * day

/-- September 2026 has a row, and so has the default partition. -/
def table : List (Partition Timestamp) :=
  [⟨defaultName, [.at (monthStart (12 * 2019 + 5))]⟩,
    ⟨"audit_event_2026_09".toList, [.at (monthStart (12 * 2026 + 8))]⟩]

theorem partitioned : Partitioned id table := by
  refine List.forall_mem_cons.mpr
    ⟨Or.inl rfl, List.forall_mem_singleton.mpr (Or.inr ⟨12 * 2026 + 8, ?_⟩)⟩
  exact ⟨by decide, by decide, List.forall_mem_singleton.mpr (within_iff.mpr (by decide +kernel))⟩

end Clock

open Clock in
/-- **In the year 10001** a row of September 2026 is still there after a pass that keeps one
month. -/
theorem kept_in_10001 : ∃ after, Partitioned id table ∧
    maintainAudit gregorian id (Plan.table Str) fates (reading (12 * 10001)) 1 table =
      (.completed, after) ∧
    ¬ Retained gregorian id (reading (12 * 10001)) 1 table after := by
  refine ⟨[⟨defaultName, []⟩, ⟨"audit_event_2026_09".toList, [.at (monthStart (12 * 2026 + 8))]⟩],
    partitioned, by decide +kernel, fun retained => ?_⟩
  have off : ¬ Off gregorian (reading (12 * 10001)) 1 := by
    unfold Off
    decide +kernel
  exact absurd (retained.rows off) (by decide +kernel)

open Clock in
/-- In October 2027 the same pass drops the partition. -/
theorem retained_in_2027 :
    Retained gregorian id (reading (12 * 2027 + 9)) 12 table [⟨defaultName, []⟩] :=
  (retained_iff gregorian documented_gregorian id (Plan.table Str) fates
    (reading (12 * 2027 + 9)) 12
    table _ partitioned (by decide +kernel)).mpr (Or.inl (by decide +kernel))

end OpenBerat.Retention
