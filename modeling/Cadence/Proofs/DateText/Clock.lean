import Mathlib.Data.List.Infix
import Cadence.Proofs.Calendar.Week
import Cadence.Proofs.DateText.Scale
import Cadence.Rule.Query

/-!
# Dates and the clock

The clock comes into the reading of a date at two places, both in words and both where a year of two digits is completed:
behind a month and the word "of", and at the end, when it is known which number is the year. A text that gives its year in
full is read to the same date on every day, with the year that it gives. Texts without four digits together are refused, but
those digits need not be the year's: where they are an offset or a time, a year of two digits follows the clock, and one that
is missing is that of the default.
-/

namespace Cadence

open Text

namespace FreeForm

variable {f : Fields} {s : Text} {token : Text} {next : List Text} {dayFirst : Bool} {default : Stamp}

/-! ### Tokens -/

/-- The tokens begin with a month, the word "of" and a year of two digits. -/
def opensShortYear : List Text → Bool
  | month :: [' '] :: word :: [' '] :: year :: _ =>
    (month? month).isSome && lower word = "of".toList && year.all isDigit && (readNat? year).any (· < 100)
  | _ => false

theorem fullYear_eq_self {currentYear year : Nat} {century : Bool} (full : 100 ≤ year ∨ century = true) :
    fullYear currentYear year century = year := if_pos full

theorem monthName?_eq {month : Nat} (named : month? token = some month) (free : opensShortYear (token :: next) = false) (Y Y' : Nat) :
    monthName? f Y month next = monthName? f Y' month next := by
  unfold monthName?
  refine congrArg (Option.bind _) (funext fun numbers => ?_)
  split
  · rfl
  · split
    · rfl
    · split
      · rename_i word year more same
        obtain ⟨rfl, rfl⟩ := List.cons.inj same
        split
        · rename_i ofWord
          split
          · rename_i digits
            refine Option.bind_congr fun n number => ?_
            have full : ¬ n < 100 := by simpa [opensShortYear, named, ofWord, digits, Option.mem_def.mp number] using free
            rw [fullYear_eq_self (.inl (by omega)), fullYear_eq_self (.inl (by omega))]
          · rfl
        · rfl
      · rfl

theorem readToken_eq (back : List Text) (free : opensShortYear (token :: next) = false) (Y Y' : Nat) :
    readToken Y back token next f = readToken Y' back token next f := by
  unfold readToken
  cases Decimal.ofToken? token with
  | some x => rfl
  | none =>
    refine congrArg known ?_
    unfold word?
    split
    · rfl
    · rename_i named
      exact monthName?_eq named free Y Y'
    · rfl
    · rfl

/-- The fields of a text do not depend on the clock unless a month is followed by "of" and a year of two digits. -/
theorem fields_eq (Y Y' : Nat) : ∀ {fuel : Nat} {back tokens : List Text} {f : Fields},
    (∀ rest, rest <:+ tokens → opensShortYear rest = false) → fields Y fuel back tokens f = fields Y' fuel back tokens f
  | 0, _, _, _, _ => rfl
  | _ + 1, _, [], _, _ => rfl
  | fuel + 1, back, token :: next, f, free => by
    rw [fields_cons, fields_cons, readToken_eq back (free _ (List.suffix_refl _)) Y Y']
    split
    · rfl
    · refine bind_eq_bind fun read _ => fields_eq Y Y' fun rest inside => free rest ?_
      exact (inside.trans (List.drop_suffix _ _)).trans (List.suffix_cons token next)

/-! ### The year -/

/-- A weekday moves a date forward within its month. -/
theorem year_of_addDays? {d e : Day} {n : Int} (first : d.day = 1) (forward : 0 ≤ n) (few : n < 28) (moved : d.addDays? n = some e) :
    e.year = d.year := by
  obtain ⟨k, rfl⟩ := Int.eq_ofNat_of_zero_le forward
  have long : 28 ≤ daysInMonth d.year d.month := daysInMonth_pos d.month_bounds.1 d.month_bounds.2
  obtain ⟨e', found, distance⟩ := d.exists_inMonth (k := k + 1) (by omega) (by omega)
  have ordinal := Day.addDays?_eq_some.mp moved
  obtain rfl : e = e' := Day.eq_of_ordinal (by omega)
  exact (Day.of?_eq_some.mp found).1

/-- A date has the year that was found, or else that of the default. -/
theorem year_of_stamp {year month day : Option Nat} {stamp : Stamp} (first : default.day.day = 1)
    (read : FreeForm.stamp f (year, month, day) default = .ok stamp) : stamp.day.year = year.getD default.day.year := by
  obtain ⟨days, found, onDay, made, same | ⟨weekday, -, noDay, moved⟩⟩ := stamp_cases read
  · exact same ▸ (Stamp.day_of_of? made).1
  · -- Only a date without a day of the month is moved, and this one is the first of its month.
    obtain ⟨foundYear, -, foundDay⟩ := Stamp.day_of_of? made
    have start : found.day.day = 1 := by
      rcases dayOf_eq_ok.mp onDay with given | ⟨-, bounds, last⟩
      · cases noDay.symm.trans given
      · have long : 28 ≤ daysInMonth (year.getD default.day.year) (month.getD default.day.month) :=
          daysInMonth_pos bounds.1 bounds.2
        omega
    obtain ⟨e, onto, rfl⟩ := Option.map_eq_some_iff.mp moved
    exact (year_of_addDays? start (by omega) (by omega) onto).trans foundYear

/-- The year of a date is that of its fields, completed by the clock if it has no century, or else that of the default. -/
theorem exists_fields {currentYear : Nat} {stamp : Stamp} {hasZone : Bool} (first : default.day.day = 1)
    (read : readZoned currentYear dayFirst default s = .ok (stamp, hasZone)) : ∃ f year month day,
      fields currentYear (DateToken.tokens s).length [] (DateToken.tokens s) {} = .ok f ∧
      f.numbers.resolve? dayFirst = some (year, month, day) ∧
      stamp.day.year = (year.map (fullYear currentYear · f.numbers.century)).getD default.day.year := by
  unfold readZoned at read
  obtain ⟨f, found, read⟩ := bind_eq_ok.mp read
  obtain ⟨⟨year, month, day⟩, resolved, read⟩ := bind_eq_ok.mp read
  dsimp only at read
  split at read
  · cases read
  · obtain ⟨stamp', dated, read⟩ := bind_eq_ok.mp read
    cases read
    exact ⟨f, year, month, day, found, known_eq_ok.mp resolved, year_of_stamp first dated⟩

/-! ### Years in full -/

/-- A text gives its year in four digits: no month is followed by "of" and a year of two digits, and what is taken for the year
when the text is read has its century and stands at the start of a token, in four digits. -/
structure GivesYear (currentYear : Nat) (dayFirst : Bool) (s : Text) : Prop where
  free : ∀ rest, rest <:+ DateToken.tokens s → opensShortYear rest = false
  year : ∀ f resolved, fields currentYear (DateToken.tokens s).length [] (DateToken.tokens s) {} = .ok f →
    f.numbers.resolve? dayFirst = some resolved → ∃ n, resolved.1 = some n ∧ (100 ≤ n ∨ f.numbers.century = true) ∧
      ∃ token ∈ DateToken.tokens s, 4 ≤ token.length ∧ readNat? (token.take 4) = some n

section Given
variable {currentYear : Nat} (gives : GivesYear currentYear dayFirst s)
include gives

theorem readZoned_eq (Y : Nat) : readZoned Y dayFirst default s = readZoned currentYear dayFirst default s := by
  unfold readZoned
  dsimp only
  rw [fields_eq Y currentYear gives.free]
  refine bind_eq_bind fun f found => bind_eq_bind fun parts resolved => ?_
  obtain ⟨n, year, full, -⟩ := gives.year f parts found (known_eq_ok.mp resolved)
  obtain ⟨_, month, day⟩ := parts
  obtain rfl := year
  simp only [Option.map_some, fullYear_eq_self full]

theorem year_of_readZoned {stamp : Stamp} {hasZone : Bool} (first : default.day.day = 1)
    (read : readZoned currentYear dayFirst default s = .ok (stamp, hasZone)) :
    ∃ token ∈ DateToken.tokens s, 4 ≤ token.length ∧ readNat? (token.take 4) = some stamp.day.year := by
  obtain ⟨f, year, month, day, found, resolved, dated⟩ := exists_fields first read
  obtain ⟨n, same, full, token, listed, long, written⟩ := gives.year f _ found resolved
  obtain rfl : year = some n := same
  rw [Option.map_some, fullYear_eq_self full, Option.getD_some] at dated
  exact ⟨token, listed, long, dated ▸ written⟩

end Given

/-! ### Years of two digits -/

/-- A text gives its year in two digits, behind everything but a month and the word "of". -/
structure GivesShortYear (currentYear : Nat) (dayFirst : Bool) (s : Text) : Prop where
  free : ∀ rest, rest <:+ DateToken.tokens s → opensShortYear rest = false
  year : ∀ f resolved, fields currentYear (DateToken.tokens s).length [] (DateToken.tokens s) {} = .ok f →
    f.numbers.resolve? dayFirst = some resolved → ∃ n < 100, resolved.1 = some n ∧ f.numbers.century = false

theorem fullYear_later {Y n : Nat} (long : 100 ≤ Y) (short : n < 100) : fullYear (Y + 100) n false = fullYear Y n false + 100 := by
  have shifted : n + (Y + 100) / 100 * 100 = n + Y / 100 * 100 + 100 := by omega
  have noCentury : ¬ (100 ≤ n ∨ false = true) := by simp; omega
  unfold fullYear
  rw [if_neg noCentury, if_neg noCentury, shifted]
  by_cases ahead : Y + 50 ≤ n + Y / 100 * 100
  · rw [if_pos ahead, if_pos (by omega)]
    omega
  · by_cases behind : n + Y / 100 * 100 + 50 < Y
    · rw [if_neg ahead, if_neg (by omega), if_pos behind, if_pos (by omega)]
    · rw [if_neg ahead, if_neg (by omega), if_neg behind, if_neg (by omega)]

/-- A year of two digits follows the clock: at a clock that is a hundred years ahead, so is the date, if it is one. -/
theorem GivesShortYear.year_of_later {Y : Nat} (gives : GivesShortYear Y dayFirst s) (long : 100 ≤ Y) (first : default.day.day = 1)
    {stamp stamp' : Stamp} {hasZone hasZone' : Bool} (read : readZoned Y dayFirst default s = .ok (stamp, hasZone))
    (later : readZoned (Y + 100) dayFirst default s = .ok (stamp', hasZone')) : stamp'.day.year = stamp.day.year + 100 := by
  obtain ⟨f, year, month, day, found, resolved, dated⟩ := exists_fields first read
  obtain ⟨f', year', month', day', found', resolved', dated'⟩ := exists_fields first later
  rw [fields_eq (Y + 100) Y gives.free, found] at found'
  obtain rfl := Except.ok.inj found'
  obtain ⟨rfl, -⟩ := Prod.mk.inj (Option.some.inj (resolved'.symm.trans resolved))
  obtain ⟨n, short, same, bare⟩ := gives.year f _ found resolved
  obtain rfl : year' = some n := same
  rw [Option.map_some, Option.getD_some, bare] at dated dated'
  rw [dated, dated', fullYear_later long short]

end FreeForm

/-! ### Texts -/

namespace DateText

variable {s : Text} {format : Except Fault LocaleFormat} {currentYear : Nat}

/-- The text is taken for a date in words: it is no ISO date and no date in numbers, and it names a month. -/
def isInWords (s : Text) : Bool :=
  (if Iso.hasForm s then Iso.read? s else none).isNone && (NumericDate.ofText? s).isNone && namesMonth s

theorem resolve_of_isInWords (words : isInWords (trim s) = true) :
    resolve currentYear format s = format >>= fun known => inWords currentYear known (trim s) := by
  simp only [isInWords, Bool.and_eq_true, Option.isNone_iff_eq_none] at words
  obtain ⟨⟨iso, numbers⟩, named⟩ := words
  unfold resolve
  simp only [iso, numbers, named, if_true]

/-- A text that is not in words is read without the clock. -/
theorem resolve_eq_of_not_isInWords (other : isInWords (trim s) = false) (Y : Nat) :
    resolve Y format s = resolve currentYear format s := by
  unfold resolve
  dsimp only
  split
  · rfl
  · rename_i iso
    split
    · rfl
    · rename_i numbers
      have unnamed : namesMonth (trim s) = false := by simpa [isInWords, iso, numbers] using other
      simp only [unnamed, Bool.false_eq_true, if_false]

theorem inWords_eq {known : LocaleFormat} (gives : FreeForm.GivesYear currentYear known.order.dayFirst s) (Y : Nat) :
    inWords Y known s = inWords currentYear known s := by
  unfold inWords FreeForm.read
  rw [FreeForm.readZoned_eq gives]

/-- A text without four digits together, which can be reckoned with, is refused. -/
theorem inWords_eq_none {known : LocaleFormat} (unspelled : spellsYear s = false)
    (short : ∀ token ∈ DateToken.tokens s, IsShort 28 token) (Y : Nat) : inWords Y known s = .ok none := by
  unfold inWords
  split
  · rw [unspelled]
    rfl
  · rename_i failed
    exact absurd failed (FreeForm.read_ne_offPrecision short)
  · rfl

/-- A text leaves nothing of its year to the clock: it is no date in words, it gives its year in four digits, or it has no four
digits together at all and can be reckoned with. -/
def IsSettled (currentYear : Nat) (format : Except Fault LocaleFormat) (s : Text) : Prop :=
  isInWords s = true → ∀ known, format = .ok known →
    FreeForm.GivesYear currentYear known.order.dayFirst s ∨
      (spellsYear s = false ∧ ∀ token ∈ DateToken.tokens s, IsShort 28 token)

theorem resolve_eq (settled : IsSettled currentYear format (trim s)) (Y : Nat) :
    resolve Y format s = resolve currentYear format s := by
  cases words : isInWords (trim s) with
  | false => exact resolve_eq_of_not_isInWords words Y
  | true =>
    rw [resolve_of_isInWords words, resolve_of_isInWords words]
    refine bind_eq_bind fun known same => ?_
    rcases settled words known same with gives | ⟨unspelled, short⟩
    · exact inWords_eq gives Y
    · rw [inWords_eq_none unspelled short, inWords_eq_none unspelled short]

/-- A date in words that is accepted has the year that the text spells out. -/
theorem year_of_resolve (settled : IsSettled currentYear format (trim s)) (words : isInWords (trim s) = true) {stamp : Stamp}
    (accepted : resolve currentYear format s = .ok (some stamp)) : spellsYear (trim s) = true ∧
      ∃ token ∈ DateToken.tokens (trim s), 4 ≤ token.length ∧ readNat? (token.take 4) = some stamp.day.year := by
  rw [resolve_of_isInWords words] at accepted
  obtain ⟨known, rfl, accepted⟩ := bind_eq_ok.mp accepted
  obtain ⟨spelled, read⟩ := inWords_eq_some.mp accepted
  rcases settled words known rfl with gives | ⟨unspelled, -⟩
  · exact ⟨spelled, FreeForm.year_of_readZoned gives rfl read⟩
  · rw [unspelled] at spelled
    cases spelled

end DateText

/-! ### Two clocks -/

namespace Setting

variable {c c' : Setting} {s : Text}

/-- A text that leaves nothing of its year to the clock is read alike at every clock, to the same date or with the same failure;
and a date in words has the year that the text spells out in four digits. -/
theorem stamp_eq_of_isSettled (format : c'.format = c.format) (settled : DateText.IsSettled c.today.day.year c.format (trim s)) :
    c'.stamp (.text s) = c.stamp (.text s) ∧
      (DateText.isInWords (trim s) = true → ∀ stamp, c.stamp (.text s) = .ok stamp → DateText.spellsYear (trim s) = true ∧
        ∃ token ∈ DateToken.tokens (trim s), 4 ≤ token.length ∧ readNat? (token.take 4) = some stamp.day.year) := by
  constructor
  · show DateText.read c'.today.day.year c'.format s = DateText.read c.today.day.year c.format s
    rw [DateText.read, DateText.read, format, DateText.resolve_eq settled]
  · exact fun words stamp accepted => DateText.year_of_resolve settled words (DateText.read_eq_ok.mp accepted)

/-- A year of two digits in a date in words follows the clock, if the date is accepted at all. -/
theorem year_of_later (format : c'.format = c.format) (words : DateText.isInWords (trim s) = true)
    (short : ∀ known, c.format = .ok known → FreeForm.GivesShortYear c.today.day.year known.order.dayFirst (trim s))
    (long : 100 ≤ c.today.day.year) (ahead : c'.today.day.year = c.today.day.year + 100) {stamp stamp' : Stamp}
    (accepted : c.stamp (.text s) = .ok stamp) (later : c'.stamp (.text s) = .ok stamp') :
    stamp'.day.year = stamp.day.year + 100 := by
  have accepted := DateText.read_eq_ok.mp accepted
  have later := DateText.read_eq_ok.mp later
  rw [DateText.resolve_of_isInWords words] at accepted later
  obtain ⟨known, known_eq, accepted⟩ := bind_eq_ok.mp accepted
  obtain ⟨known', known'_eq, later⟩ := bind_eq_ok.mp later
  rw [format, known_eq] at known'_eq
  obtain rfl := Except.ok.inj known'_eq
  rw [ahead] at later
  exact (short known known_eq).year_of_later long rfl (DateText.inWords_eq_some.mp accepted).2 (DateText.inWords_eq_some.mp later).2

/-- A spring day. -/
def in2025 : Setting := { today := .ofDay ⟨2025, 4, 3, by decide⟩ }

/-- A spring day in a year in which years of two digits are completed otherwise. -/
def in2080 : Setting := { today := .ofDay ⟨2080, 4, 3, by decide⟩ }

/-- A summer morning, two hours ahead of universal time. -/
def summerMorning : Text := "5 June 2025 10:45 +0200".toList

theorem stamp_eq_of_isSettled_summerMorning : in2080.format = in2025.format ∧
    DateText.IsSettled in2025.today.day.year in2025.format (trim summerMorning) ∧
    in2080.stamp (.text summerMorning) = in2025.stamp (.text summerMorning) ∧
    in2025.stamp (.text summerMorning) = .ok ⟨⟨2025, 6, 5, by decide⟩, ⟨10, 45, 0, 0, by decide⟩, none⟩ ∧
    DateText.spellsYear (trim summerMorning) = true ∧
    ∃ token ∈ DateToken.tokens (trim summerMorning), 4 ≤ token.length ∧ readNat? (token.take 4) = some 2025 := by
  have free : ∀ rest ∈ (DateToken.tokens (trim summerMorning)).tails, FreeForm.opensShortYear rest = false := by decide +kernel
  have numbers : (FreeForm.fields 2025 (DateToken.tokens (trim summerMorning)).length [] (DateToken.tokens (trim summerMorning))
      {}).toOption.map (fun f => (f.numbers.resolve? true, f.numbers.century)) = some (some (some 2025, some 6, some 5), true) := by
    decide +kernel
  have spelled : ∃ token ∈ DateToken.tokens (trim summerMorning), 4 ≤ token.length ∧ readNat? (token.take 4) = some 2025 := by
    decide +kernel
  have settled : DateText.IsSettled in2025.today.day.year in2025.format (trim summerMorning) := by
    rintro - known ⟨⟩
    refine .inl ⟨fun rest inside => free rest ((List.mem_tails rest _).mpr inside), fun f resolved found given => ?_⟩
    have found : FreeForm.fields 2025 (DateToken.tokens (trim summerMorning)).length [] (DateToken.tokens (trim summerMorning)) {} =
      .ok f := found
    rw [found] at numbers
    obtain ⟨same, century⟩ := Prod.mk.inj (Option.some.inj numbers)
    obtain rfl := Option.some.inj (same.symm.trans given)
    exact ⟨2025, rfl, .inr century, spelled⟩
  have format : in2080.format = in2025.format := rfl
  have accepted : in2025.stamp (.text summerMorning) = .ok ⟨⟨2025, 6, 5, by decide⟩, ⟨10, 45, 0, 0, by decide⟩, none⟩ :=
    toOption_eq_some (by decide +kernel)
  obtain ⟨same, dated⟩ := stamp_eq_of_isSettled format settled
  exact ⟨format, settled, same, accepted, dated (by decide +kernel) _ accepted⟩

/-- Where the four digits together are an offset, a year of two digits follows the clock, and one that is missing is that of the
default. -/
theorem stamp_follows_clock : in2080.format = in2025.format ∧
    in2025.stamp (.text "5 June 25 10:45 +0200".toList) = .ok ⟨⟨2025, 6, 5, by decide⟩, ⟨10, 45, 0, 0, by decide⟩, none⟩ ∧
    in2080.stamp (.text "5 June 25 10:45 +0200".toList) = .ok ⟨⟨2125, 6, 5, by decide⟩, ⟨10, 45, 0, 0, by decide⟩, none⟩ ∧
    in2025.stamp (.text "5 June 10:45 +0200".toList) = .ok ⟨⟨2000, 6, 5, by decide⟩, ⟨10, 45, 0, 0, by decide⟩, none⟩ :=
  ⟨rfl, toOption_eq_some (by decide +kernel), toOption_eq_some (by decide +kernel), toOption_eq_some (by decide +kernel)⟩

end Setting

end Cadence
