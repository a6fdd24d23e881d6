import Cadence.Proofs.DateText.Components

/-!
# A time of day behind a date

A date in numbers is read as the same day with a time of day behind it as without one. An ISO date is no longer one
when a time of day follows a blank: it is read as a date in numbers with the year in front, so that in a format that
writes the day before the month its two other numbers change places, unless the last one is above 12.
-/

namespace Cadence

open Text NumericDate

variable {s t written : Text} {time : Text × Text × Text} {d : NumericDate} {format : LocaleFormat} {stamp : Stamp}

/-! ### The text -/

theorem NumericDate.exists_trimRight (s : Text) : ∃ gap, Blanks gap ∧ s = trimRight s ++ gap := by
  refine ⟨(s.reverse.takeWhile isBlank).reverse, fun c member => ?_, ?_⟩
  · exact List.all_eq_true.mp List.all_takeWhile c (List.mem_reverse.mp member)
  · rw [trimRight, ← List.reverse_append, List.takeWhile_append_dropWhile, List.reverse_reverse]

theorem NumericDate.IsClock.noBlank (isClock : IsClock s time) : NoBlank s := by
  have colon : isBlank ':' = false := by decide
  cases isClock with
  | minutes hour minute => exact hour.noBlank.append (minute.noBlank.cons colon)
  | seconds hour minute second => exact hour.noBlank.append ((minute.noBlank.append (second.noBlank.cons colon)).cons colon)

/-- A time of day that is added behind a blank follows what the text has between its ends. -/
theorem exists_trim_timed (isClock : IsClock written time) (some : trim t ≠ []) :
    ∃ gap, Blanks gap ∧ gap ≠ [] ∧ trim (t ++ ' ' :: written) = trim t ++ (gap ++ written) := by
  obtain ⟨lead, blanks, parts⟩ := exists_blanks t
  obtain ⟨gap, blanks', parts'⟩ := exists_trimRight (trimLeft t)
  have space : isBlank ' ' = true := by decide
  have written_ne : written ≠ [] := by
    obtain ⟨c, rest, -, rfl⟩ := isClock.exists_cons
    exact List.cons_ne_nil c rest
  have trimmed : IsTrimmed (trim t ++ ((gap ++ [' ']) ++ written)) :=
    (isTrimmed_trim t).joined isClock.noBlank.isTrimmed some written_ne _
  have whole : t ++ ' ' :: written = lead ++ (trim t ++ ((gap ++ [' ']) ++ written)) := by
    calc t ++ ' ' :: written = (lead ++ trimLeft t) ++ ' ' :: written := by rw [← parts]
      _ = (lead ++ (trim t ++ gap)) ++ ' ' :: written := by rw [trim, ← parts']
      _ = _ := by simp
  refine ⟨gap ++ [' '], List.forall_mem_append.mpr ⟨blanks', List.forall_mem_singleton.mpr space⟩, by simp, ?_⟩
  calc trim (t ++ ' ' :: written) = trim (trim t ++ ((gap ++ [' ']) ++ written)) := by
        rw [whole, trim, trimLeft_blanks blanks]
        rfl
    _ = _ := trimmed.trim_eq

theorem Iso.noBlank_of_hasForm (form : hasForm s = true) : NoBlank s := by
  unfold hasForm at form
  split at form
  · rename_i y₁ y₂ y₃ y₄ m₁ m₂ d₁ d₂ rest
    simp only [List.all_cons, List.all_nil, Bool.and_true, Bool.and_eq_true] at form
    obtain ⟨⟨h₁, h₂, h₃, h₄, h₅, h₆, h₇, h₈⟩, tail⟩ := form
    have hyphen : isBlank '-' = false := by decide
    have noBlank : NoBlank rest := by
      split at tail
      · exact nofun
      · rename_i time
        rw [Bool.and_eq_true, Bool.not_eq_true', Bool.not_eq_true', List.any_eq_false] at tail
        exact NoBlank.cons (by decide) fun c member => Bool.eq_false_iff.mpr (tail.2 c member)
      · cases tail
    exact .cons (isBlank_of_isDecimal h₁) <| .cons (isBlank_of_isDecimal h₂) <| .cons (isBlank_of_isDecimal h₃) <|
      .cons (isBlank_of_isDecimal h₄) <| .cons hyphen <| .cons (isBlank_of_isDecimal h₅) <| .cons (isBlank_of_isDecimal h₆) <|
      .cons hyphen <| .cons (isBlank_of_isDecimal h₇) <| .cons (isBlank_of_isDecimal h₈) noBlank
  · cases form

/-- A text with a blank in it is no ISO date. -/
theorem Iso.ofText?_timed {gap : Text} (blanks : Blanks gap) (some : gap ≠ []) (lead rest : Text) :
    ofText? (lead ++ (gap ++ rest)) = none := by
  obtain ⟨c, gap, rfl⟩ := List.exists_cons_of_ne_nil some
  refine if_neg fun form => ?_
  have clear := noBlank_of_hasForm form c (by simp)
  rw [blanks c List.mem_cons_self] at clear
  cases clear

/-! ### Three numbers and a time of day -/

/-- The numbers of a date with those of a time of day in place of their own. -/
def NumericDate.timed (d : NumericDate) (time : Text × Text × Text) : NumericDate :=
  { d with hour := time.1, minute := time.2.1, secondOfMinute := time.2.2 }

theorem NumericDate.Writes.timed {gap : Text} (writes : Writes s d []) (blanks : Blanks gap) (isClock : IsClock written time) :
    Writes (s ++ (gap ++ written)) (d.timed time) (gap ++ written) := by
  obtain ⟨link, link', isLink, isLink', rfl⟩ := writes.text
  exact ⟨writes.first, writes.second, writes.third, ⟨link, link', isLink, isLink', by simp [NumericDate.timed]⟩,
    .clock (.blanks blanks) isClock⟩

/-- A date in numbers with a time of day behind it is read as these numbers and this time of day. -/
theorem NumericDate.Writes.ofText?_timed {gap : Text} (writes : Writes s d []) (blanks : Blanks gap) (some : gap ≠ [])
    (isClock : IsClock written time) : ofText? (s ++ (gap ++ written)) = .some (d.timed time) := by
  refine (writes.timed blanks isClock).ofText?_eq fun c first => ?_
  obtain ⟨b, gap, rfl⟩ := List.exists_cons_of_ne_nil some
  obtain rfl := Option.some.inj first
  exact isDecimal_of_isBlank (blanks b List.mem_cons_self)

/-- Read so, the text is the day that its numbers are. -/
theorem DateText.read_timed {currentYear : Nat} {gap : Text} (writes : Writes (trim t) d []) (blanks : Blanks gap)
    (some : gap ≠ []) (isClock : IsClock written time) (trimmed : trim (t ++ ' ' :: written) = trim t ++ (gap ++ written))
    (made : (d.timed time).stamp? format = .some stamp) :
    read currentYear (.ok format) (t ++ ' ' :: written) = .ok stamp := by
  have notIso : Iso.ofText? (trim (t ++ ' ' :: written)) = none := trimmed ▸ Iso.ofText?_timed blanks some _ _
  have numbers : NumericDate.ofText? (trim (t ++ ' ' :: written)) = .some (d.timed time) :=
    trimmed ▸ writes.ofText?_timed blanks some isClock
  rw [read_of_numbers notIso numbers, made, Option.elim_some]

/-! ### The day and the time of day -/

/-- What numbers without a time of day stand for they stand for with one too, at that time. -/
theorem NumericDate.stamp?_timed {clock : Clock} (made : d.stamp? format = some stamp)
    (valid : Clock.of? (size time.1) (size time.2.1) (size time.2.2) 0 = some clock) :
    (d.timed time).stamp? format = some { stamp with clock } := by
  unfold stamp? at made ⊢
  obtain ⟨⟨year, a, b⟩, split, made⟩ := Option.bind_eq_some_iff.mp made
  obtain ⟨⟨day, month⟩, divided, made⟩ := Option.bind_eq_some_iff.mp made
  have split' : (d.timed time).splitYear? format = some (year, a, b) := split
  have clocked : Clock.of? (size (d.timed time).hour) (size (d.timed time).minute) (size (d.timed time).secondOfMinute) 0 =
    some clock := valid
  have zone := Stamp.zone_of_of? made
  have found := Day.of?_eq_some.mpr (Stamp.day_of_of? made)
  simp only [split', divided, Option.bind_eq_bind, Option.bind_some, Stamp.of?, clocked, found]
  rw [← zone]

/-- An ISO date without a time of day is its year, its month and its day with hyphens between them. -/
theorem Iso.exists_of_ofText? (iso : ofText? s = some stamp) (dateOnly : s.length = 10) : ∃ d : NumericDate,
    d.Writes s [] ∧ d.first.length = 4 ∧ d.second.length = 2 ∧ d.third.length = 2 ∧
      size d.first = stamp.day.year ∧ size d.second = stamp.day.month ∧ size d.third = stamp.day.day := by
  unfold ofText? at iso
  split at iso
  · rename_i form
    unfold hasForm at form
    split at form
    · rename_i y₁ y₂ y₃ y₄ m₁ m₂ d₁ d₂ rest
      obtain rfl : rest = [] := by simpa using dateOnly
      simp only [List.all_cons, List.all_nil, Bool.and_true, Bool.and_eq_true] at form
      obtain ⟨h₁, h₂, h₃, h₄, h₅, h₆, h₇, h₈⟩ := form
      have empty : Blanks [] := nofun
      have hyphen : IsLink ['-'] := .mk empty rfl empty
      unfold read? at iso
      split at iso
      · cases iso
      · obtain ⟨year, hyear, iso⟩ := Option.bind_eq_some_iff.mp iso
        obtain ⟨month, hmonth, iso⟩ := Option.bind_eq_some_iff.mp iso
        obtain ⟨number, hday, iso⟩ := Option.bind_eq_some_iff.mp iso
        obtain ⟨day, found, iso⟩ := Option.bind_eq_some_iff.mp iso
        obtain rfl := Option.some.inj iso
        obtain ⟨rfl, rfl, rfl⟩ := Day.of?_eq_some.mp found
        have sized {text : Text} {n : Nat} (read : readNat? text = some n) : size text = n := by rw [size, read, Option.getD_some]
        refine ⟨{ first := [y₁, y₂, y₃, y₄], second := [m₁, m₂], third := [d₁, d₂] }, ⟨⟨?_, by simp, by simp⟩, ⟨?_, by simp, by simp⟩,
          ⟨?_, by simp, by simp⟩, ⟨_, _, hyphen, hyphen, rfl⟩, .none⟩, rfl, rfl, rfl, sized hyear, sized hmonth, sized hday⟩
        all_goals simp [Decimals, *]
    · cases form
  · cases iso

/-- The numbers of an ISO date, read in a format: the day and the month change places where the day comes first and
    could be a month. -/
theorem NumericDate.exists_stamp?_timed {day : Day} {clock : Clock} (four : d.first.length = 4) (two : d.second.length = 2)
    (two' : d.third.length = 2) (year : size d.first = day.year) (month : size d.second = day.month)
    (number : size d.third = day.day) (format : LocaleFormat)
    (valid : Clock.of? (size time.1) (size time.2.1) (size time.2.2) 0 = some clock) :
    ∃ day', (d.timed time).stamp? format = some { day := day', clock } ∧
      if format.order.dayFirst = true ∧ day.day ≤ 12 then day'.year = day.year ∧ day'.month = day.day ∧ day'.day = day.month
      else day' = day := by
  obtain ⟨leastMonth, lastMonth⟩ := day.month_bounds
  obtain ⟨leastDay, lastDay⟩ := day.day_bounds
  have longest := daysInMonth_le day.year day.month
  have split : (d.timed time).splitYear? format = some (d.first, d.second, d.third) := by
    refine splitYear?_of_first four (fun marked => ?_) fun marked => ?_
    · simp only [IsMarked, part, NumericDate.timed, month, two] at marked
      omega
    · simp only [IsMarked, part, NumericDate.timed, number, two'] at marked
      omega
  have typed : yearOf d.first = day.year := (yearOf_long (by omega)).trans year
  have clocked : Clock.of? (size (d.timed time).hour) (size (d.timed time).minute) (size (d.timed time).secondOfMinute) 0 =
    some clock := valid
  have made {month' number' : Nat} {day' : Day} (divided : dayAndMonth? day.month day.day format = some (number', month'))
      (found : Day.of? day.year month' number' = some day') :
      (d.timed time).stamp? format = some { day := day', clock } := by
    unfold stamp?
    simp only [split, month, number, divided, typed, Option.bind_eq_bind, Option.bind_some, Stamp.of?, clocked, found]
  have divided : dayAndMonth? day.month day.day format = _ := dayAndMonth?_of_month lastMonth
  by_cases turns : format.order.dayFirst = true ∧ day.day ≤ 12
  · rw [if_pos turns] at divided
    have long : 28 ≤ daysInMonth day.year day.day := daysInMonth_pos leastDay turns.2
    obtain ⟨day', found⟩ := Option.isSome_iff_exists.mp (Day.of?_isSome.mpr
      (⟨day.valid.1, day.valid.2.1, leastDay, turns.2, leastMonth, by omega⟩ : IsDate day.year day.day day.month))
    exact ⟨day', made divided found, by rw [if_pos turns]; exact Day.of?_eq_some.mp found⟩
  · rw [if_neg turns] at divided
    exact ⟨day, made divided (Day.of?_eq_some.mpr ⟨rfl, rfl, rfl⟩), by rw [if_neg turns]⟩

namespace DateText

/-- With a time of day behind it a date in numbers is read as the same day in every locale. An ISO date is so too
    where its last number cannot be a month or the locale writes the month before the day; elsewhere the two change
    places. -/
theorem readIn_timed (t : Text) (currentYear : Nat) {clock : Clock} (isClock : IsClock written time)
    (valid : Clock.of? (size time.1) (size time.2.1) (size time.2.2) 0 = some clock) (tag : Option Text) {stamp : Stamp}
    (read : readIn tag currentYear t = .ok stamp) :
    (∀ d, Iso.ofText? (trim t) = none → NumericDate.ofText? (trim t) = some d → d.hour = [] →
      readIn tag currentYear (t ++ ' ' :: written) = .ok { stamp with clock }) ∧
    ((Iso.ofText? (trim t)).isSome → (trim t).length = 10 →
      ∃ day, readIn tag currentYear (t ++ ' ' :: written) = .ok { day, clock } ∧
        if (LocaleFormat.named tag).order.dayFirst = true ∧ stamp.day.day ≤ 12 then
          day.year = stamp.day.year ∧ day.month = stamp.day.day ∧ day.day = stamp.day.month
        else day = stamp.day) := by
  have follows {d : NumericDate} {made : Stamp} (writes : d.Writes (trim t) [])
      (found : (d.timed time).stamp? (LocaleFormat.named tag) = some made) :
      readIn tag currentYear (t ++ ' ' :: written) = .ok made := by
    have some : trim t ≠ [] := by
      obtain ⟨link, link', -, -, parts⟩ := writes.text
      rw [parts]
      exact List.append_ne_nil_of_left_ne_nil writes.first.ne_nil _
    obtain ⟨gap, blanks, apart, trimmed⟩ := exists_trim_timed isClock some
    rw [readIn_eq]
    exact read_timed writes blanks apart isClock trimmed found
  refine ⟨fun d notIso numbers noTime => ?_, fun iso dateOnly => ?_⟩
  · obtain ⟨ending, writes⟩ := writes_of_ofText? numbers
    obtain rfl := writes.isEnding.eq_nil noTime
    rw [readIn_eq, read_of_numbers notIso numbers] at read
    cases made : d.stamp? (LocaleFormat.named tag) with
    | none =>
      rw [made] at read
      cases read
    | some found =>
      rw [made] at read
      obtain rfl := Except.ok.inj read
      exact follows writes (stamp?_timed made valid)
  · obtain ⟨found, iso⟩ := Option.isSome_iff_exists.mp iso
    rw [readIn_eq, read_of_iso iso] at read
    obtain rfl := Except.ok.inj read
    obtain ⟨d, writes, four, two, two', year, month, number⟩ := Iso.exists_of_ofText? iso dateOnly
    obtain ⟨day, made, turned⟩ := exists_stamp?_timed four two two' year month number (LocaleFormat.named tag) valid
    exact ⟨day, follows writes made, turned⟩

/-- The time of day behind the dates below. -/
def morning : Clock := ⟨10, 30, 0, 0, by decide⟩

theorem isClock_morning : IsClock "10:30".toList ("10".toList, "30".toList, []) :=
  isClock_of_clock? (by decide)

/-- The seventh of June is read with a time of day as without one when it is written `7/6/2025`. -/
theorem readIn_timed_june :
    readIn (some "en-GB".toList) 2025 "7/6/2025".toList = .ok (.ofDay ⟨2025, 6, 7, by decide⟩) ∧
    readIn (some "en-GB".toList) 2025 "7/6/2025 10:30".toList = .ok { day := ⟨2025, 6, 7, by decide⟩, clock := morning } ∧
    readIn (some "sv-SE".toList) 2025 "2025-06-07".toList = .ok (.ofDay ⟨2025, 6, 7, by decide⟩) ∧
    readIn (some "sv-SE".toList) 2025 "2025-06-07 10:30".toList = .ok { day := ⟨2025, 6, 7, by decide⟩, clock := morning } := by
  have british : readIn (some "en-GB".toList) 2025 "7/6/2025".toList = .ok (.ofDay ⟨2025, 6, 7, by decide⟩) :=
    toOption_eq_some (by decide +kernel)
  have swedish : readIn (some "sv-SE".toList) 2025 "2025-06-07".toList = .ok (.ofDay ⟨2025, 6, 7, by decide⟩) :=
    toOption_eq_some (by decide +kernel)
  have valid : Clock.of? (size "10".toList) (size "30".toList) (size []) 0 = some morning := by decide
  refine ⟨british, ?_, swedish, ?_⟩
  · exact (readIn_timed _ 2025 isClock_morning valid _ british).1
      { first := "7", second := "6", third := "2025" } (by decide) (by decide) rfl
  · obtain ⟨day, read, same⟩ := (readIn_timed _ 2025 isClock_morning valid _ swedish).2 (by decide) (by decide)
    rw [if_neg (by decide)] at same
    rw [same] at read
    exact read

/-- Written `2025-06-07` it becomes the sixth of July where the day is written first. -/
theorem readIn_iso_timed_july :
    readIn (some "en-GB".toList) 2025 "2025-06-07".toList = .ok (.ofDay ⟨2025, 6, 7, by decide⟩) ∧
    readIn (some "en-GB".toList) 2025 ("2025-06-07".toList ++ ' ' :: "10:30".toList) =
      .ok { day := ⟨2025, 7, 6, by decide⟩, clock := morning } :=
  ⟨toOption_eq_some (by decide +kernel), toOption_eq_some (by decide +kernel)⟩

end DateText

end Cadence
