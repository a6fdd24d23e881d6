import Cadence.Proofs.Rule.Aligned
import Cadence.Proofs.Rule.Spelled

/-!
# Rule texts that can be used

What the checks of a rule text make sure of is what the readers of its parts rely on: each number and each
weekday is read, and is in range. Months and days of the month are refused together exactly if no day of the
calendar is in one of the months on one of the days.
-/

namespace Cadence

open Text

namespace RuleText

variable {r : RuleText} {s : Text}

/-- The parts of a rule are there and can be read to the end: none of its readers meets a text that it cannot read, and
    all that they give is in range. -/
structure IsUsable (r : RuleText) : Prop where
  frequency : r.has .freq = true
  once : (r.parts.map (·.1)).Nodup
  nonempty : ∀ part ∈ r.parts, part.2 ≠ []
  interval : ∀ value, r.get? .interval = some value → readInt? value = some r.interval
  positive : 1 ≤ r.interval
  weekdays : (nonEmptyItems (r.value .byDay)).mapM weekdayItem? = some r.weekdays
  positions : ∀ item ∈ r.weekdays, ∀ n, item.1 = some n → 1 ≤ n.natAbs ∧ n.natAbs ≤ 53
  months : (nonEmptyItems (r.value .byMonth)).mapM readInt? = some (r.integers .byMonth)
  ofYear : ∀ month ∈ r.integers .byMonth, 1 ≤ month ∧ month ≤ 12
  monthDays : (nonEmptyItems (r.value .byMonthDay)).mapM readInt? = some (r.integers .byMonthDay)
  ofMonth : ∀ n ∈ r.integers .byMonthDay, 1 ≤ n.natAbs ∧ n.natAbs ≤ 31

/-- A day is in one of the months of a rule, on one of its days of the month, which are counted from the last day if they
    are negative. -/
def FallsOn (r : RuleText) (d : Day) : Prop :=
  (d.month : Int) ∈ r.integers .byMonth ∧
    ∃ n ∈ r.integers .byMonthDay, n = d.day ∨ n = d.day - daysInMonth d.year d.month - 1

/-! ### What the checks make sure of -/

/-- A list each of whose items is read is read to the end. -/
theorem mapM?_eq_filterMap {α β : Type} {read : α → Option β} {l : List α} (each : ∀ a ∈ l, ∃ b, read a = some b) :
    l.mapM read = some (l.filterMap read) := by
  induction l with
  | nil => rfl
  | cons a l ih =>
    obtain ⟨b, first⟩ := each a List.mem_cons_self
    rw [List.mapM_cons, first, ih fun a' member => each a' (List.mem_cons_of_mem a member), List.filterMap_cons_some first]
    rfl

/-- Each number of a list that has been checked is read. -/
theorem mapM_of_checkNumbers {key : RuleKey} {limit : Nat} {signed : Bool} (checked : r.checkNumbers key limit signed = .ok ()) :
    (nonEmptyItems (r.value key)).mapM readInt? = some (r.integers key) := by
  refine mapM?_eq_filterMap fun item listed => ?_
  have one := forM_eq_ok.mp checked item listed
  split at one
  · cases one
  · rename_i n short
    exact ⟨n, readInt?_of_shortInt? short⟩

/-- Each item of a weekday list that has been checked is read. -/
theorem mapM_of_checkWeekdays (checked : r.checkWeekdays = .ok ()) :
    (nonEmptyItems (r.value .byDay)).mapM weekdayItem? = some r.weekdays := by
  refine mapM?_eq_filterMap fun token listed => ?_
  have one := forM_eq_ok.mp checked token listed
  unfold checkWeekday at one
  cases read : weekdayItem? token with
  | none =>
    rw [read] at one
    cases one
  | some item => exact ⟨item, rfl⟩

theorem readInt?_of_checkInterval (checked : r.checkInterval = .ok ()) {value : Text} (found : r.get? .interval = some value) :
    readInt? value = some r.interval := by
  unfold checkInterval at checked
  unfold interval
  rw [found] at checked ⊢
  dsimp only at checked ⊢
  split at checked
  · cases checked
  · cases read : readInt? value with
    | none =>
      rw [read] at checked
      cases checked
    | some n => rfl

theorem IsChecked.isUsable (checked : r.IsChecked) (areRead : AreRead r.parts) : r.IsUsable where
  frequency := checked.frequency
  once := areRead.nodup
  nonempty := areRead.nonempty
  interval _ := readInt?_of_checkInterval checked.interval
  positive := one_le_interval checked.interval
  weekdays := mapM_of_checkWeekdays checked.weekdays
  positions _ listed _ := bounds_of_checkWeekdays checked.weekdays listed
  months := mapM_of_checkNumbers checked.months
  ofYear month listed := by
    obtain ⟨one, limit, sign⟩ := bounds_of_checkNumbers checked.months listed
    have positive := sign.resolve_right Bool.false_ne_true
    omega
  monthDays := mapM_of_checkNumbers checked.monthDays
  ofMonth n listed := by
    obtain ⟨one, limit, -⟩ := bounds_of_checkNumbers checked.monthDays listed
    exact ⟨one, limit⟩

/-! ### Days in months -/

/-- The months and days of a rule meet in a leap year if they meet at all. -/
theorem fallsInMonth_iff (usable : r.IsUsable) :
    fallsInMonth (r.integers .byMonth) (r.integers .byMonthDay) = true ↔ ∃ d, r.FallsOn d := by
  simp only [fallsInMonth, List.any_eq_true, decide_eq_true_eq]
  constructor
  · rintro ⟨month, ofYear, n, ofMonth, short⟩
    obtain ⟨first, last⟩ := usable.ofYear month ofYear
    obtain ⟨one, -⟩ := usable.ofMonth n ofMonth
    let day : Nat := if 0 < n then n.natAbs else daysInMonth 2000 month.toNat + 1 - n.natAbs
    have bounds : 1 ≤ day ∧ day ≤ daysInMonth 2000 month.toNat := by
      simp only [day]
      split <;> omega
    refine ⟨⟨2000, month.toNat, day, by decide, by decide, by omega, by omega, bounds⟩, ?_, n, ofMonth, ?_⟩
    · rwa [Int.toNat_of_nonneg (by omega)]
    · simp only [day]
      split <;> omega
  · rintro ⟨d, ofYear, n, ofMonth, counted⟩
    have bounds := d.day_bounds
    have longest := daysInMonth_le_leap d.year d.month
    refine ⟨d.month, ofYear, n, ofMonth, ?_⟩
    rw [Int.toNat_natCast]
    rcases counted with rfl | rfl <;> omega

/-! ### Texts that are read or refused -/

theorem Lines.add_ne_neverInMonth {l : Lines} {line : Text} : l.add line ≠ .error .neverInMonth := by
  have addBody {body : Text} : l.addBody body ≠ .error .neverInMonth := by
    unfold Lines.addBody
    split <;> nofun
  unfold Lines.add
  dsimp only
  split
  · nofun
  · split
    · rw [Ne, map_eq_error]
      unfold moment
      split <;> nofun
    · split
      · exact addBody
      · split
        · exact addBody
        · nofun

theorem addPart_ne_neverInMonth {parts : List (RuleKey × Text)} {chunk : Text} : addPart parts chunk ≠ .error .neverInMonth := by
  unfold addPart
  split
  · nofun
  · split
    · nofun
    · dsimp only
      split
      · nofun
      · split
        · nofun
        · split <;> nofun

/-- A text whose days are never in its months has parts that pass all checks but the last. -/
theorem exists_of_neverInMonth (refused : parse s = .error (.inl .neverInMonth)) :
    ∃ r : RuleText, spelling s = r.parts.map named ∧ AreRead r.parts ∧ r.check = .error (.inl .neverInMonth) := by
  unfold parse at refused
  split at refused
  · cases refused
  · rcases bind_eq_error.mp refused with refused | ⟨lines, given, refused⟩
    · obtain ⟨line, -, l, failed⟩ := exists_of_foldlM_error (mapError_inl_eq_error.mp refused)
      exact absurd failed Lines.add_ne_neverInMonth
    · cases body : lines.body with
      | none =>
        rw [body] at refused
        cases refused
      | some line =>
        rw [body] at refused
        rcases bind_eq_error.mp refused with refused | ⟨parts, read, refused⟩
        · obtain ⟨chunk, -, parts, failed⟩ := exists_of_foldlM_error (mapError_inl_eq_error.mp refused)
          exact absurd failed addPart_ne_neverInMonth
        · have found := mapError_eq_ok.mp read
          refine ⟨{ parts, start := lines.start }, spelling_of_lines (mapError_eq_ok.mp given) body found, areRead_partsOf found, ?_⟩
          rcases bind_eq_error.mp refused with refused | ⟨-, -, refused⟩
          · exact refused
          · cases refused

theorem parse_eq_error_of_read {flaw : RuleFlaw} (refused : RuleText.read (.text s) = .error (.badRule (.text s) flaw)) :
    parse s = .error (.inl flaw) := by
  unfold RuleText.read at refused
  dsimp only at refused
  split at refused
  · cases refused
  · rename_i parsed
    cases refused
    exact parsed
  · cases refused

/-- A text is read to parts that can be used, and some day falls on its days and months if it gives both. A text that is
    refused for them has parts that could be used, but no day falls on them. -/
theorem isUsable_of_read (s : Text) :
    (∀ r, RuleText.read (.text s) = .ok r → spelling s = r.parts.map named ∧ r.IsUsable ∧
      (r.integers .byMonth ≠ [] → r.integers .byMonthDay ≠ [] → ∃ d, r.FallsOn d)) ∧
    (RuleText.read (.text s) = .error (.badRule (.text s) .neverInMonth) → ∃ r : RuleText, spelling s = r.parts.map named ∧
      r.IsUsable ∧ r.integers .byMonth ≠ [] ∧ r.integers .byMonthDay ≠ [] ∧ ∀ d, ¬ r.FallsOn d) := by
  constructor
  · intro r read
    obtain ⟨checked, last⟩ := isChecked_of_check (check_of_read read) (.inl rfl)
    have usable := checked.isUsable (areRead_of_read read)
    refine ⟨spelling_of_read read, usable, fun months days => (fallsInMonth_iff usable).mp ?_⟩
    have passed := mapError_eq_ok.mp last
    unfold checkMonthDays at passed
    simpa [months, days] using passed
  · intro refused
    obtain ⟨r, spelled, areRead, failed⟩ := exists_of_neverInMonth (parse_eq_error_of_read refused)
    obtain ⟨checked, last⟩ := isChecked_of_check failed (.inr rfl)
    have usable := checked.isUsable areRead
    have missed := mapError_inl_eq_error.mp last
    unfold checkMonthDays at missed
    dsimp only at missed
    split at missed
    · cases missed
    · rename_i given
      simp only [Bool.or_eq_true, not_or, List.isEmpty_iff] at given
      obtain ⟨⟨months, days⟩, apart⟩ := given
      exact ⟨r, spelled, usable, months, days, fun d falls => apart ((fallsInMonth_iff usable).mpr ⟨d, falls⟩)⟩

/-- The 29th day from the end of February is its first day in a leap year; neither April nor June has 31 days. -/
theorem isUsable_of_read_months :
    let leapDays : Text := "FREQ=YEARLY;BYMONTH=2,4;BYMONTHDAY=-29,31".toList
    let noDays : Text := "FREQ=YEARLY;BYMONTH=4,6;BYMONTHDAY=-31,31".toList
    (∃ r, RuleText.read (.text leapDays) = .ok r ∧ r.IsUsable ∧ ∃ d, r.FallsOn d) ∧
      RuleText.read (.text noDays) = .error (.badRule (.text noDays) .neverInMonth) ∧
      ∃ r : RuleText, spelling noDays = r.parts.map named ∧ r.IsUsable ∧ ∀ d, ¬ r.FallsOn d := by
  intro leapDays noDays
  have refused : RuleText.read (.text noDays) = .error (.badRule (.text noDays) .neverInMonth) := rfl
  obtain ⟨_, usable, falls⟩ := (isUsable_of_read leapDays).1 { parts := _ } rfl
  obtain ⟨r, spelled, usable', -, -, never⟩ := (isUsable_of_read noDays).2 refused
  exact ⟨⟨_, rfl, usable, falls (by decide) (by decide)⟩, refused, r, spelled, usable', never⟩

end RuleText

end Cadence
