import Cadence.Proofs.DateText.Scale
import Cadence.Proofs.Rule.Times

/-!
# Faults of rules

A rule without blanks in its values is evaluated, or refused for a stated reason, unless the date of its end or
a number of its clock is beyond what can be reckoned with. Nothing else of its parts leads to a fault.
-/

namespace Cadence

open Text

namespace RuleSpec

variable {today : Stamp} {spec : RuleSpec} {key : RuleKey} {value : Text} {f : Fault}

theorem readable_ne_fault {α : Type} {key value : Text} {o : Option α} : readable key value o ≠ .error (.fault f) := by
  cases o <;> exact nofun

/-- Only the date of the end is read with a fault. -/
theorem until_of_set_fault (failed : spec.set today key.name value = .error (.fault f)) :
    key = .until ∧ finishOf today RuleKey.until.name value = .error (.fault f) := by
  unfold set at failed
  rw [RuleKey.ofName?_name] at failed
  have noFault : ∀ {α : Type} {o : Option α} {g : α → RuleSpec},
      (readable key.name value o).map g ≠ .error (.fault f) := fun failed => readable_ne_fault (map_eq_error.mp failed)
  cases key with
  | «until» => exact ⟨rfl, map_eq_error.mp failed⟩
  | freq | count | interval | byDay | byMonthDay | byMonth | byHour | byMinute | bySecond | bySetPos | byWeekNo
  | byYearDay | weekStart => exact absurd failed noFault

theorem until_of_add_fault {part : RuleKey × Text} (upper : Upper part.2)
    (failed : spec.add today (RuleText.partText part) = .error (.fault f)) :
    part.1 = .until ∧ finishOf today RuleKey.until.name part.2 = .error (.fault f) := by
  have name := RuleKey.marks_name part.1
  rw [add, RuleText.partText, splitOn_append name.2.1] at failed
  obtain ⟨value, others, split⟩ := List.exists_cons_of_ne_nil (splitOn_ne_nil '=' part.2)
  rw [split] at failed
  cases others with
  | cons _ _ => cases failed
  | nil =>
    have whole := joinWith_splitOn '=' part.2
    rw [split] at whole
    obtain rfl : value = part.2 := whole
    simp only [(RuleKey.upper_name part.1).upper_eq, upper.upper_eq] at failed
    exact until_of_set_fault failed

/-- The line of a rule is read with a fault only if the date of its end is. -/
theorem until_of_read_fault {r : RuleText} (areRead : RuleText.AreRead r.parts) (nonempty : r.inOrder RuleKey.all ≠ [])
    (failed : read today (RuleText.line r.body) = .error (.fault f)) :
    ∃ value, r.get? .until = some value ∧ finishOf today RuleKey.until.name value = .error (.fault f) := by
  unfold read at failed
  rcases bind_eq_error.mp failed with failed | ⟨body, named, failed⟩
  · unfold partsText at failed
    split at failed
    · cases failed
    · split at failed <;> cases failed
    · cases failed
  · obtain ⟨rfl, -⟩ := RuleText.partsText_line named
    rw [RuleText.splitOn_body areRead.semicolon nonempty] at failed
    obtain ⟨piece, member, before, failed⟩ := exists_of_foldlM_error failed
    obtain ⟨part, listed, rfl⟩ := List.mem_map.mp member
    have got := (RuleText.mem_inOrder.mp listed).2
    obtain ⟨isUntil, failed⟩ := until_of_add_fault (areRead.upper part (RuleText.mem_of_get? got)) failed
    exact ⟨part.2, isUntil ▸ got, failed⟩

end RuleSpec

namespace Schedule

variable {spec : RuleSpec} {start : Stamp} {f : Fault}

/-- A time of day is a fault where a number does not fit a machine word. -/
theorem timeOfDay_fault {hour minute second : Int} (failed : timeOfDay hour minute second = .error (.fault f)) :
    ¬ (fitsWord hour = true ∧ fitsWord minute = true ∧ fitsWord second = true) := by
  rintro ⟨hours, minutes, seconds⟩
  unfold timeOfDay at failed
  rw [hours, minutes, seconds] at failed
  simp only [Bool.and_self, Bool.not_true, Bool.false_eq_true, if_false] at failed
  split at failed
  · cases failed
  · split at failed
    · cases failed
    · split at failed
      · split at failed <;> cases failed
      · cases failed

theorem timesOf_ne_fault {hours minutes seconds : List Int} (hour : ∀ n ∈ hours, fitsWord n = true)
    (minute : ∀ n ∈ minutes, fitsWord n = true) (second : ∀ n ∈ seconds, fitsWord n = true) :
    timesOf hours minutes seconds ≠ .error (.fault f) := by
  intro failed
  obtain ⟨⟨h, m, s⟩, member, failed⟩ := exists_of_mapM_error failed
  simp only [List.mem_flatMap, List.mem_map, Prod.mk.injEq] at member
  obtain ⟨h, hourMember, m, minuteMember, s, secondMember, rfl, rfl, rfl⟩ := member
  exact timeOfDay_fault failed ⟨hour h hourMember, minute m minuteMember, second s secondMember⟩

theorem clockList_ne_fault {given : Option (List Int)} {first base every : Nat} {own longer : Bool} :
    clockList given first base every own longer ≠ .error (.fault f) := by
  intro failed
  unfold clockList at failed
  cases given with
  | none => cases failed
  | some numbers =>
    have failed := map_eq_error.mp failed
    split at failed
    · unfold reachable at failed
      dsimp only at failed
      split at failed <;> cases failed
    · cases failed

/-- The numbers that are worked out fit a machine word if those that are given do. -/
theorem fitsWord_of_clockList {given : Option (List Int)} {first base every : Nat} {own longer : Bool} {found : List Int}
    (words : ∀ n ∈ given.getD [], fitsWord n = true) (clock : first < 60)
    (worked : clockList given first base every own longer = .ok found) : ∀ n ∈ found, fitsWord n = true := by
  rw [clockList_eq_ok worked]
  cases given with
  | none =>
    intro n member
    dsimp only at member
    split at member
    · rw [List.mem_singleton.mp member, fitsWord, Bool.and_eq_true]
      exact ⟨decide_eq_true (by omega), decide_eq_true (by omega)⟩
    · cases member
  | some numbers =>
    intro n member
    have member := mem_sortedSet.mp member
    split at member
    · exact words n (List.mem_filter.mp member).1
    · exact words n member

/-- A rule is a fault as its times of day are, which are worked out from its numbers of the clock. -/
theorem exists_times_of_fault (failed : Schedule.of spec start = .error (.fault f)) : ∃ hours minutes seconds,
    (∃ every own longer, clockList spec.hours start.clock.hour 24 every own longer = .ok hours) ∧
    (∃ every own longer, clockList spec.minutes start.clock.minute 60 every own longer = .ok minutes) ∧
    (∃ every own longer, clockList spec.seconds start.clock.second 60 every own longer = .ok seconds) ∧
    timesOf hours minutes seconds = .error (.fault f) := by
  unfold Schedule.of at failed
  cases named : spec.frequency with
  | none =>
    rw [named] at failed
    cases failed
  | some frequency =>
    rw [named] at failed
    dsimp only at failed
    split at failed
    · cases failed
    · split at failed
      · cases failed
      · rcases bind_eq_error.mp failed with failed | ⟨hours, hoursWorked, failed⟩
        · exact absurd failed clockList_ne_fault
        · rcases bind_eq_error.mp failed with failed | ⟨minutes, minutesWorked, failed⟩
          · exact absurd failed clockList_ne_fault
          · rcases bind_eq_error.mp failed with failed | ⟨seconds, secondsWorked, failed⟩
            · exact absurd failed clockList_ne_fault
            · split at failed
              · cases failed
              · rcases bind_eq_error.mp failed with failed | ⟨times, -, failed⟩
                · exact ⟨hours, minutes, seconds, ⟨_, _, _, hoursWorked⟩, ⟨_, _, _, minutesWorked⟩, ⟨_, _, _, secondsWorked⟩, failed⟩
                · cases failed

/-- A rule whose numbers of the clock fit a machine word comes to a schedule, or is refused for a stated reason. -/
theorem of_ne_fault (hours : ∀ n ∈ spec.hours.getD [], fitsWord n = true) (minutes : ∀ n ∈ spec.minutes.getD [], fitsWord n = true)
    (seconds : ∀ n ∈ spec.seconds.getD [], fitsWord n = true) : Schedule.of spec start ≠ .error (.fault f) := by
  obtain ⟨hour, minute, second, -⟩ := start.clock.valid
  intro failed
  obtain ⟨hourList, minuteList, secondList, ⟨_, _, _, hoursWorked⟩, ⟨_, _, _, minutesWorked⟩, ⟨_, _, _, secondsWorked⟩, failed⟩ :=
    exists_times_of_fault failed
  exact timesOf_ne_fault (fitsWord_of_clockList hours (by omega) hoursWorked) (fitsWord_of_clockList minutes minute minutesWorked)
    (fitsWord_of_clockList seconds second secondsWorked) failed

/-- The only fault that a time of day can be is a number out of range. -/
theorem range_of_timesOf {hours minutes seconds : List Int} (failed : timesOf hours minutes seconds = .error (.fault f)) :
    f = .range := by
  obtain ⟨⟨h, m, s⟩, -, failed⟩ := exists_of_mapM_error failed
  dsimp only at failed
  unfold timeOfDay at failed
  repeat' split at failed
  all_goals cases failed
  rfl

end Schedule

/-! ### Rules that can be reckoned with -/

namespace RuleText

variable {r : RuleText} {today start : Stamp} {f : Fault}

/-- A rule without blanks in its values, the date of whose end can be reckoned with: none of its numbers has more than
    nine digits, and it names no weekday. -/
structure IsReckonable (r : RuleText) : Prop where
  noBlank : ∀ part ∈ r.parts, NoBlank part.2
  finish : ∀ value, r.get? .until = some value →
    ∀ token ∈ DateToken.tokens value, IsShort 9 token ∧ FreeForm.weekday? token = none

/-- The hours, minutes and seconds that a rule names fit a machine word. -/
def HasWords (r : RuleText) : Prop := ∀ key ∈ [RuleKey.byHour, .byMinute, .bySecond], ∀ n ∈ r.integers key, fitsWord n = true

theorem IsReckonable.inOrder (reckonable : r.IsReckonable) (start : Option Stamp) :
    IsReckonable { parts := r.inOrder RuleKey.all, start } where
  noBlank part member := reckonable.noBlank part (mem_of_get? (mem_inOrder.mp member).2)
  finish value got := reckonable.finish value ((sameParts_inOrder r start .until).symm.trans got)

theorem HasWords.inOrder (words : r.HasWords) (start : Option Stamp) : HasWords { parts := r.inOrder RuleKey.all, start } := by
  intro key member n listed
  rw [(sameParts_inOrder r start).integers_eq key] at listed
  exact words key member n listed

theorem IsImportable.hasWords (importable : r.IsImportable) : r.HasWords := by
  intro key member n listed
  have foreign : key.isImportable = false := by
    have all : ∀ key ∈ [RuleKey.byHour, .byMinute, .bySecond], key.isImportable = false := by decide
    exact all key member
  rw [RuleText.integers, RuleText.value, importable key foreign] at listed
  cases listed

theorem finishOf_ne_fault {key value : Text} (short : ∀ token ∈ DateToken.tokens value, IsShort 9 token ∧ FreeForm.weekday? token = none) :
    RuleSpec.finishOf today key value ≠ .error (.fault f) := by
  have year : today.day.year ≤ lastYear := today.day.valid.2.1
  have reckonable : ∀ token ∈ DateToken.tokens value, IsShort 28 token := fun t member => (short t member).1.mono (by decide)
  intro failed
  unfold RuleSpec.finishOf at failed
  split at failed
  · cases failed
  · rename_i read
    exact FreeForm.readZoned_ne_offScale year short (map_eq_error.mp read)
  · rename_i read
    exact FreeForm.readZoned_ne_offPrecision reckonable (map_eq_error.mp read)
  · cases failed

/-- An end whose numbers can be reckoned with is a fault only where it is out of range. -/
theorem range_of_finishOf {key value : Text} (short : ∀ token ∈ DateToken.tokens value, IsShort 28 token)
    (failed : RuleSpec.finishOf today key value = .error (.fault f)) : f = .range := by
  unfold RuleSpec.finishOf at failed
  split at failed
  · cases failed
  · cases failed
    rfl
  · rename_i read
    exact absurd (map_eq_error.mp read) (FreeForm.readZoned_ne_offPrecision short)
  · cases failed

/-- A rule is evaluated, or refused for a stated reason, or else it is a fault as the date of its end or its times are. -/
theorem stated_or_fault_of_recurrenceFrom {e : Failure} (areRead : AreRead r.parts) (checked : r.check = .ok ())
    (noBlank : ∀ part ∈ r.parts, NoBlank part.2) (failed : r.recurrenceFrom today start = .error e) :
    e.isRule = true ∨ ∃ f, e = .fault f ∧
      ((∃ value, r.get? .until = some value ∧ RuleSpec.finishOf today RuleKey.until.name value = .error (.fault f)) ∨
        ∃ spec, RuleSpec.Says today r spec ∧ Schedule.of spec start = .error (.fault f)) := by
  have nonempty := inOrder_ne_nil_of_check checked
  unfold recurrenceFrom at failed
  split at failed
  · cases failed
  · cases failed
    exact .inl rfl
  · rename_i f read
    cases failed
    refine .inr ⟨f, rfl, ?_⟩
    rw [read_line_of_noBlank noBlank areRead.upper] at read
    rcases bind_eq_error.mp (map_eq_error.mp read) with read | ⟨spec, spoken, made⟩
    · exact .inl (RuleSpec.until_of_read_fault areRead nonempty read)
    · have plain := areRead.arePlain_of_read noBlank nonempty spoken
      rw [RuleSpec.read_line plain nonempty] at spoken
      exact .inr ⟨spec, RuleSpec.ofParts_eq_ok_iff_said.mp spoken, made⟩

/-- A rule that can be reckoned with is evaluated, or refused for a stated reason. -/
theorem isRule_of_recurrenceFrom {e : Failure} (areRead : AreRead r.parts) (checked : r.check = .ok ()) (reckonable : r.IsReckonable)
    (words : r.HasWords) (failed : r.recurrenceFrom today start = .error e) : e.isRule = true := by
  rcases stated_or_fault_of_recurrenceFrom areRead checked reckonable.noBlank failed with stated | ⟨f, rfl, ⟨value, got, failed⟩ | ⟨spec, said, made⟩⟩
  · exact stated
  · exact absurd failed (finishOf_ne_fault (reckonable.finish value got))
  · refine absurd made (Schedule.of_ne_fault ?_ ?_ ?_)
    · rw [← integers_eq said.hours]
      exact words .byHour (by decide)
    · rw [← integers_eq said.minutes]
      exact words .byMinute (by decide)
    · rw [← integers_eq said.seconds]
      exact words .bySecond (by decide)

end RuleText

end Cadence
