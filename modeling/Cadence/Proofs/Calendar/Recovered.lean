import Cadence.Proofs.Rule.Built

/-!
# Days recovered from their positions

The days of a month with one weekday, in order. A day stands among them at its ordinal, and it is the last one
when the month ends within a week. So a day is found again by its month, its weekday and its position, and no
two days of a month go by the same text.
-/

namespace Cadence

namespace Day

variable {d e : Day} {year month first count : Nat} {w : Weekday} {p : Int} {t : Text}

/-! ### The days of a month with a weekday -/

/-- The days of a month with a weekday, in order, among so many days from the day `first` on. -/
def weekdaysFrom (year month : Nat) (w : Weekday) (first count : Nat) : List Day :=
  ((List.range' first count).filterMap (of? year month)).filter (·.weekday = w)

/-- The days of a month with a weekday, in order. -/
def onWeekday (year month : Nat) (w : Weekday) : List Day := weekdaysFrom year month w 1 (daysInMonth year month)

/-- The day of a month with a weekday at a position, counted back from the last day when it is negative. -/
def atPosition? (year month : Nat) (w : Weekday) : Int → Option Day
  | .ofNat 0 => none
  | .ofNat (k + 1) => (onWeekday year month w)[k]?
  | .negSucc k => (onWeekday year month w).reverse[k]?

theorem mem_weekdaysFrom : e ∈ weekdaysFrom year month w first count ↔
    (e.year = year ∧ e.month = month ∧ e.weekday = w) ∧ first ≤ e.day ∧ e.day < first + count := by
  simp only [weekdaysFrom, List.mem_filter, List.mem_filterMap, List.mem_range'_1, of?_eq_some, decide_eq_true_eq]
  constructor
  · rintro ⟨⟨k, within, hy, hm, rfl⟩, hw⟩
    exact ⟨⟨hy, hm, hw⟩, within⟩
  · rintro ⟨⟨hy, hm, hw⟩, within⟩
    exact ⟨⟨e.day, within, hy, hm, rfl⟩, hw⟩

theorem mem_onWeekday : e ∈ onWeekday year month w ↔ e.year = year ∧ e.month = month ∧ e.weekday = w := by
  rw [onWeekday, mem_weekdaysFrom, and_iff_left_iff_imp]
  rintro ⟨rfl, rfl, -⟩
  have bounds := e.day_bounds
  omega

theorem weekdaysFrom_append (year month : Nat) (w : Weekday) (first m n : Nat) :
    weekdaysFrom year month w first m ++ weekdaysFrom year month w (first + m) n =
      weekdaysFrom year month w first (m + n) := by
  unfold weekdaysFrom
  rw [← List.filter_append, ← List.filterMap_append, ← List.range'_append, Nat.one_mul]

theorem weekdaysFrom_self (d : Day) : weekdaysFrom d.year d.month d.weekday d.day 1 = [d] := by
  have found : of? d.year d.month d.day = some d := of?_eq_some.mpr ⟨rfl, rfl, rfl⟩
  simp [weekdaysFrom, found]

/-- Up to a day, the days with its weekday end with the day itself. -/
theorem weekdaysFrom_upTo (d : Day) : weekdaysFrom d.year d.month d.weekday 1 d.day =
    weekdaysFrom d.year d.month d.weekday 1 (d.day - 1) ++ [d] := by
  have bounds := d.day_bounds
  have split := weekdaysFrom_append d.year d.month d.weekday 1 (d.day - 1) 1
  rw [show 1 + (d.day - 1) = d.day by omega, weekdaysFrom_self, Nat.sub_add_cancel bounds.1] at split
  exact split.symm

theorem length_weekdaysFrom (d : Day) : (weekdaysFrom d.year d.month d.weekday 1 d.day).length = d.weekdayOrdinal := by
  unfold weekdaysFrom weekdayOrdinal
  rw [← List.countP_eq_length_filter, List.countP_filterMap, List.range'_eq_map_range, List.countP_map]
  apply List.countP_congr
  intro k _
  rw [Function.comp_apply, Nat.add_comm]
  cases of? d.year d.month (k + 1) <;> rfl

/-- The ordinal is one more than the number of earlier days of the month with the weekday. -/
theorem length_earlier (d : Day) :
    (weekdaysFrom d.year d.month d.weekday 1 (d.day - 1)).length + 1 = d.weekdayOrdinal := by
  rw [← length_weekdaysFrom, weekdaysFrom_upTo, List.length_append, List.length_singleton]

/-- A day between the earlier and the later days of its month with its weekday. -/
theorem onWeekday_eq (d : Day) : onWeekday d.year d.month d.weekday =
    weekdaysFrom d.year d.month d.weekday 1 (d.day - 1) ++ [d] ++
      weekdaysFrom d.year d.month d.weekday (1 + d.day) (daysInMonth d.year d.month - d.day) := by
  have bounds := d.day_bounds
  rw [← weekdaysFrom_upTo, weekdaysFrom_append, onWeekday, Nat.add_sub_cancel' bounds.2]

theorem later_eq_nil (ends : daysInMonth d.year d.month < d.day + 7) :
    weekdaysFrom d.year d.month d.weekday (1 + d.day) (daysInMonth d.year d.month - d.day) = [] := by
  rw [List.eq_nil_iff_forall_not_mem]
  intro e member
  obtain ⟨⟨hy, hm, hw⟩, within⟩ := mem_weekdaysFrom.mp member
  have weeks := (weekday_eq_inMonth hy hm).mp hw
  omega

/-- The day a week later, when the month does not end before. -/
theorem exists_later (goesOn : d.day + 7 ≤ daysInMonth d.year d.month) :
    ∃ e ∈ onWeekday d.year d.month d.weekday, d.before e := by
  obtain ⟨e, found, number⟩ := d.exists_inMonth (show 1 ≤ d.day + 7 by omega) goesOn
  obtain ⟨hy, hm, hd⟩ := of?_eq_some.mp found
  have hw : e.weekday = d.weekday := (weekday_eq_inMonth hy hm).mpr (by omega)
  refine ⟨e, mem_onWeekday.mpr ⟨hy, hm, hw⟩, ?_⟩
  simp only [before, decide_eq_true_eq]
  omega

/-! ### The day at a position -/

theorem atPosition?_last (ends : daysInMonth d.year d.month < d.day + 7) :
    atPosition? d.year d.month d.weekday (-1) = some d := by
  show (onWeekday d.year d.month d.weekday).reverse[0]? = some d
  rw [← List.head?_eq_getElem?, List.head?_reverse, onWeekday_eq, later_eq_nil ends, List.append_nil, List.getLast?_concat]

theorem atPosition?_weekdayOrdinal (d : Day) : atPosition? d.year d.month d.weekday d.weekdayOrdinal = some d := by
  rw [← length_earlier]
  show (onWeekday d.year d.month d.weekday)[(weekdaysFrom d.year d.month d.weekday 1 (d.day - 1)).length]? = some d
  rw [onWeekday_eq, List.getElem?_append_left (by simp), List.getElem?_concat_length]

theorem atPosition?_of_weekdayPosition? (placed : d.weekdayPosition? = some p) :
    atPosition? d.year d.month d.weekday p = some d := by
  obtain ⟨-, rfl⟩ := weekdayPosition?_eq_some.mp placed
  split
  case isTrue ends => exact atPosition?_last ends
  case isFalse => exact atPosition?_weekdayOrdinal d

example : (atPosition? 2024 2 .thursday (-1)).map (·.day) = some 29 := by decide

/-- A position other than the last one is one of the first four, and a later day follows. -/
theorem followed_of_weekdayPosition? (placed : d.weekdayPosition? = some p) (counted : p ≠ -1) :
    (1 ≤ p ∧ p ≤ 4) ∧ ∃ e ∈ onWeekday d.year d.month d.weekday, d.before e := by
  obtain ⟨-, rfl⟩ := weekdayPosition?_eq_some.mp placed
  have goesOn : d.day + 7 ≤ daysInMonth d.year d.month := by
    refine Nat.le_of_not_lt fun ends => counted ?_
    rw [if_pos ends]
  have longest := daysInMonth_le d.year d.month
  refine ⟨?_, exists_later goesOn⟩
  rw [if_neg (Nat.not_lt.mpr goesOn), weekdayOrdinal_eq]
  omega

theorem eq_of_positionText? (hy : e.year = d.year) (hm : e.month = d.month) (text : d.positionText? = some t)
    (text' : e.positionText? = some t) : e = d := by
  obtain ⟨p, placed, rfl⟩ := Option.map_eq_some_iff.mp text
  obtain ⟨q, placed', same⟩ := Option.map_eq_some_iff.mp text'
  have read := weekdayItem?_placedText p (RuleFields.mem_monthPositions placed) _ d.weekday.mem_all
  have read' := weekdayItem?_placedText q (RuleFields.mem_monthPositions placed') _ e.weekday.mem_all
  -- Read as an item of a rule, the text gives back the weekday and the position of either day.
  have items : RuleText.weekdayItem? (placedText e.weekday q) = RuleText.weekdayItem? (placedText d.weekday p) :=
    congrArg RuleText.weekdayItem? same
  rw [read, read'] at items
  obtain ⟨rfl, hw⟩ : q = p ∧ e.weekday = d.weekday := by simpa using items
  have found := atPosition?_of_weekdayPosition? placed'
  rw [hy, hm, hw, atPosition?_of_weekdayPosition? placed] at found
  exact (Option.some.inj found).symm

/-! ### Days with a week after them -/

/-- The day a week before the last one. -/
def weekBeforeLast : Day := ⟨9999, 12, 24, by decide⟩

theorem ordinal_weekBeforeLast : weekBeforeLast.ordinal + 7 = lastOrdinal := by decide

theorem isSome_addDays?_seven : (d.addDays? 7).isSome ↔ d.ordinal ≤ weekBeforeLast.ordinal := by
  have last := ordinal_weekBeforeLast
  constructor
  · intro ahead
    obtain ⟨next, found⟩ := Option.isSome_iff_exists.mp ahead
    have number := addDays?_eq_some.mp found
    have inside := next.ordinal_le_last
    omega
  · intro upTo
    obtain ⟨next, found⟩ := exists_ofOrdinal? (show 1 ≤ d.ordinal + 7 by omega) (by omega)
    have number := ordinal_of_ofOrdinal? found
    exact Option.isSome_iff_exists.mpr ⟨next, addDays?_eq_some.mpr (by omega)⟩

/-- A day with a week after it is recovered from its weekday and its position: the last day of the month with
    the weekday, or one of the first four with a later one after it. The text of weekday and position tells the
    days of a month apart. -/
theorem weekdayPosition_recovers (ahead : (d.addDays? 7).isSome) :
    d.weekdayOrdinal = (d.day - 1) / 7 + 1 ∧
      (∃ p, d.weekdayPosition? = some p ∧ (p = -1 ∨ 1 ≤ p ∧ p ≤ 4) ∧
        atPosition? d.year d.month d.weekday p = some d ∧
        (p ≠ -1 → ∃ e ∈ onWeekday d.year d.month d.weekday, d.before e)) ∧
      ∀ e : Day, e.year = d.year → e.month = d.month → e.positionText? = d.positionText? → e = d := by
  have upTo := isSome_addDays?_seven.mp ahead
  have last := ordinal_weekBeforeLast
  obtain ⟨p, placed⟩ := exists_weekdayPosition? (show d.ordinal + 7 ≤ lastOrdinal by omega)
  have followed := followed_of_weekdayPosition? placed
  refine ⟨d.weekdayOrdinal_eq, ⟨p, placed, ?_, atPosition?_of_weekdayPosition? placed, fun counted => (followed counted).2⟩, ?_⟩
  · by_cases counted : p = -1
    · exact .inl counted
    · exact .inr (followed counted).1
  · intro e hy hm same
    have text : d.positionText? = some (placedText d.weekday p) := Option.map_eq_some_iff.mpr ⟨p, placed, rfl⟩
    exact eq_of_positionText? hy hm text (same.trans text)

/-- The last day with a week after it is the fourth Friday of its month, and there is a fifth. -/
theorem weekdayPosition_recovers_weekBeforeLast : (weekBeforeLast.addDays? 7).isSome ∧
    weekBeforeLast.weekdayOrdinal = (24 - 1) / 7 + 1 ∧ weekBeforeLast.weekdayPosition? = some 4 ∧
    atPosition? 9999 12 .friday 4 = some weekBeforeLast ∧
    (∃ e ∈ onWeekday 9999 12 .friday, weekBeforeLast.before e) ∧
    ∀ e : Day, e.year = 9999 → e.month = 12 → e.positionText? = weekBeforeLast.positionText? → e = weekBeforeLast := by
  have ahead : (weekBeforeLast.addDays? 7).isSome := isSome_addDays?_seven.mpr (Nat.le_refl _)
  have friday : weekBeforeLast.weekday = .friday := by decide
  have fourth : weekBeforeLast.weekdayPosition? = some 4 := by decide
  obtain ⟨ordinal, ⟨p, placed, -, found, later⟩, apart⟩ := weekdayPosition_recovers ahead
  obtain rfl : p = 4 := Option.some.inj (placed.symm.trans fourth)
  exact ⟨ahead, ordinal, fourth, friday ▸ found, friday ▸ later (by decide), apart⟩

end Day

end Cadence
