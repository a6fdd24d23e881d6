import Cadence.DateText.Reader
import Cadence.Proofs.DateText.Fields
import Cadence.Proofs.DateText.Words

/-!
# Dates in words that can be reckoned with

A date in words can be reckoned with as long as its numbers are short. Where no token with a digit in it has
more than 28 characters, reading never meets more digits than can be reckoned with; where none has more than
nine and no weekday is named, it never meets a number beyond those of dates either. The dates that rule text
writes are of that kind.
-/

namespace Cadence

open Text DateNumbers

namespace FreeForm

/-! ### All tokens -/

theorem isSmall_of_fields {currentYear : Nat} (current : currentYear ≤ lastYear) : ∀ {fuel : Nat} {back tokens : List Text}
    {f next : Fields}, f.IsSmall → (∀ t ∈ tokens, IsShort 9 t ∧ weekday? t = none) →
    fields currentYear fuel back tokens f = .ok next → next.IsSmall
  | 0, _, _, _, _, small, _, read => by
    cases read
    exact small
  | _ + 1, _, [], _, _, small, _, read => by
    cases read
    exact small
  | fuel + 1, back, token :: tokens, f, next, small, short, read => by
    obtain ⟨⟨shortToken, noWeekday⟩, others⟩ := List.forall_mem_cons.mp short
    have shortOthers : ∀ t ∈ tokens, IsShort 9 t := fun t member => (others t member).1
    rw [fields_cons] at read
    split at read
    · cases read
    · obtain ⟨⟨used, later⟩, one, read⟩ := bind_eq_ok.mp read
      have laterSmall : later.IsSmall := by
        unfold readToken at one
        split at one
        · rename_i x decimal
          exact small.number shortToken decimal shortOthers one
        · exact small.word? current shortOthers noWeekday (known_eq_ok.mp one)
      exact isSmall_of_fields current laterSmall (fun t member => others t ((List.drop_sublist used tokens).subset member)) read

/-! ### Failures -/

section Reckoned
variable {f : Fields} {token : Text} {x : Decimal} {e : Flaw}

theorem withMinutes_of_isReckonable (reckonable : x.isReckonable = true) (f : Fields) : ∃ next, f.withMinutes x = .ok next :=
  ⟨_, by rw [Fields.withMinutes, reckoned, if_pos reckonable]; rfl⟩

theorem withHours_of_isReckonable (reckonable : x.isReckonable = true) (f : Fields) : ∃ next, f.withHours x = .ok next :=
  ⟨_, by rw [Fields.withHours, reckoned, if_pos reckonable]; rfl⟩

theorem unknown_of_clock {minutes : Text} {more : List Text} (short : IsShort 28 minutes)
    (failed : clock f x minutes more = .error e) : e = .unknown := by
  unfold clock at failed
  rcases bind_eq_error.mp failed with failed | ⟨y, decimal, failed⟩
  · exact unknown_of_known failed
  · obtain ⟨timed, minutes⟩ := withMinutes_of_isReckonable
      (Decimal.isReckonable_of_ofToken? short (known_eq_ok.mp decimal)) { f with hour := some x.whole }
    rw [minutes] at failed
    rcases bind_eq_error.mp failed with failed | ⟨_, same, failed⟩
    · cases failed
    · cases same
      split at failed
      · rcases bind_eq_error.mp failed with failed | ⟨_, -, failed⟩
        · exact unknown_of_known failed
        · cases failed
      · cases failed

theorem unknown_of_unlabelled {tokens : List Text} (short : ∀ t ∈ tokens, IsShort 28 t)
    (failed : unlabelled f token x tokens = .error e) : e = .unknown := by
  unfold unlabelled at failed
  split at failed
  · exact unknown_of_known failed
  · exact unknown_of_clock (short _ (by simp)) failed
  · split at failed
    · exact unknown_of_known failed
    · split at failed
      · exact unknown_of_known failed
      · exact unknown_of_known failed

theorem unknown_of_withUnit (short : IsShort 28 token) (decimal : Decimal.ofToken? token = some x) {unit : Option TimeUnit}
    (failed : f.withUnit token x unit = .error e) : e = .unknown := by
  have reckonable := Decimal.isReckonable_of_ofToken? short decimal
  unfold Fields.withUnit at failed
  split at failed
  · obtain ⟨next, read⟩ := withHours_of_isReckonable reckonable f
    rw [read] at failed
    cases failed
  · obtain ⟨next, read⟩ := withMinutes_of_isReckonable reckonable f
    rw [read] at failed
    cases failed
  · exact unknown_of_known failed
  · cases failed

theorem unknown_of_number (short : IsShort 28 token) (decimal : Decimal.ofToken? token = some x) {back tokens : List Text}
    (others : ∀ t ∈ tokens, IsShort 28 t) (failed : number f token x back tokens = .error e) : e = .unknown := by
  unfold number at failed
  dsimp only at failed
  split at failed
  · exact unknown_of_known (map_eq_error.mp failed)
  · split at failed
    · exact unknown_of_known (map_eq_error.mp failed)
    · split at failed
      · exact unknown_of_known (map_eq_error.mp failed)
      · split at failed
        · exact unknown_of_withUnit short decimal (map_eq_error.mp failed)
        · exact unknown_of_unlabelled others failed

end Reckoned

/-- Numbers of short tokens can be reckoned with. -/
theorem unknown_of_fields {currentYear : Nat} {e : Flaw} : ∀ {fuel : Nat} {back tokens : List Text} {f : Fields},
    (∀ t ∈ tokens, IsShort 28 t) → fields currentYear fuel back tokens f = .error e → e = .unknown
  | 0, _, _, _, _, failed => by cases failed
  | _ + 1, _, [], _, _, failed => by cases failed
  | fuel + 1, back, token :: tokens, f, short, failed => by
    obtain ⟨shortToken, others⟩ := List.forall_mem_cons.mp short
    rw [fields_cons] at failed
    split at failed
    · cases failed
      rfl
    · rcases bind_eq_error.mp failed with failed | ⟨⟨used, later⟩, -, failed⟩
      · unfold readToken at failed
        split at failed
        · rename_i decimal
          exact unknown_of_number shortToken decimal others failed
        · exact unknown_of_known failed
      · exact unknown_of_fields (fun t member => others t ((List.drop_sublist used tokens).subset member)) failed

variable {currentYear : Nat} {dayFirst : Bool} {default : Stamp} {s : Text}

theorem stamp_ne_offPrecision (f : Fields) (resolved : DateNumbers.Resolved) (default : Stamp) :
    stamp f resolved default ≠ .error .offPrecision := by
  intro failed
  obtain ⟨year, month, day⟩ := resolved
  rcases bind_eq_error.mp failed with failed | ⟨days, -, failed⟩
  · cases dayOf_eq_error failed
  · dsimp only at failed
    split at failed
    · cases failed
    · split at failed
      · cases failed
      · split at failed
        · split at failed <;> cases failed
        · cases failed

theorem getD_le {given : Option Nat} {n : Nat} (le : ∀ m ∈ given, m ≤ largest) (default : n ≤ largest) : given.getD n ≤ largest := by
  cases given with
  | none => exact default
  | some m => exact le m rfl

/-- Small numbers are part of a date, or of none; only a weekday can move it beyond the calendar. -/
theorem stamp_ne_offScale {f : Fields} {resolved : DateNumbers.Resolved} (small : f.IsSmall) (year : ∀ n ∈ resolved.1, n ≤ largest)
    (month : ∀ n ∈ resolved.2.1, n ≤ largest) (day : ∀ n ∈ resolved.2.2, n ≤ largest) (default : Stamp) :
    stamp f resolved default ≠ .error .offScale := by
  intro failed
  obtain ⟨years, months, days⟩ := resolved
  dsimp only at year month day
  obtain ⟨-, lastYear, -, lastMonth, -, lastDay⟩ := default.day.valid
  obtain ⟨hour, minute, second, -⟩ := default.clock.valid
  have length := daysInMonth_le default.day.year default.day.month
  have limit : largest = 2147483647 := rfl
  rcases bind_eq_error.mp failed with failed | ⟨d, found, failed⟩
  · cases dayOf_eq_error failed
  · have dayLe : d ≤ largest := by
      rcases dayOf_eq_ok.mp found with given | ⟨-, -, rfl⟩
      · exact day _ given
      · exact Nat.le_trans (Nat.min_le_left _ _) (by omega)
    have none : ([years.getD default.day.year, months.getD default.day.month, d, f.hour.getD default.clock.hour,
        f.minute.getD default.clock.minute, f.second.getD default.clock.second].any (2147483647 < ·)) = false := by
      have yearLe := getD_le year (n := default.day.year) (by unfold Cadence.lastYear at lastYear; omega)
      have monthLe := getD_le month (n := default.day.month) (by omega)
      have hourLe := getD_le small.hour (n := default.clock.hour) (by omega)
      have minuteLe := getD_le small.minute (n := default.clock.minute) (by omega)
      have secondLe := getD_le small.second (n := default.clock.second) (by omega)
      simp only [List.any_cons, List.any_nil, Bool.or_false, Bool.or_eq_false_iff, decide_eq_false_iff_not]
      exact ⟨by omega, by omega, by omega, by omega, by omega, by omega⟩
    dsimp only at failed
    rw [none, small.weekday] at failed
    simp only [Bool.false_eq_true, if_false] at failed
    split at failed <;> cases failed

/-- A date in words whose numbers have no more than 28 digits can be reckoned with. -/
theorem readZoned_ne_offPrecision (short : ∀ t ∈ DateToken.tokens s, IsShort 28 t) :
    readZoned currentYear dayFirst default s ≠ .error .offPrecision := by
  intro failed
  unfold readZoned at failed
  rcases bind_eq_error.mp failed with failed | ⟨f, -, failed⟩
  · cases unknown_of_fields short failed
  · rcases bind_eq_error.mp failed with failed | ⟨⟨year, month, day⟩, -, failed⟩
    · cases unknown_of_known failed
    · dsimp only at failed
      split at failed
      · cases failed
      · rcases bind_eq_error.mp failed with failed | ⟨_, -, failed⟩
        · exact stamp_ne_offPrecision _ _ _ failed
        · cases failed

theorem read_ne_offPrecision (short : ∀ t ∈ DateToken.tokens s, IsShort 28 t) :
    read currentYear dayFirst default s ≠ .error .offPrecision := by
  intro failed
  unfold read at failed
  rcases bind_eq_error.mp failed with failed | ⟨⟨stamp, hasZone⟩, -, failed⟩
  · exact readZoned_ne_offPrecision short failed
  · dsimp only at failed
    split at failed <;> cases failed

/-- A date in words whose numbers have no more than nine digits is not beyond the calendar unless it names a weekday. -/
theorem readZoned_ne_offScale (current : currentYear ≤ lastYear)
    (short : ∀ t ∈ DateToken.tokens s, IsShort 9 t ∧ weekday? t = none) :
    readZoned currentYear dayFirst default s ≠ .error .offScale := by
  intro failed
  have reckonable : ∀ t ∈ DateToken.tokens s, IsShort 28 t := fun t member => (short t member).1.mono (by decide)
  unfold readZoned at failed
  rcases bind_eq_error.mp failed with failed | ⟨f, read, failed⟩
  · cases unknown_of_fields reckonable failed
  · have small := isSmall_of_fields current isSmall_empty short read
    rcases bind_eq_error.mp failed with failed | ⟨⟨year, month, day⟩, resolved, failed⟩
    · cases unknown_of_known failed
    · obtain ⟨years, months, days⟩ := mem_of_resolve? (known_eq_ok.mp resolved)
      dsimp only at failed
      split at failed
      · cases failed
      · rcases bind_eq_error.mp failed with failed | ⟨_, -, failed⟩
        · have yearSmall : ∀ n ∈ year.map (fullYear currentYear · f.numbers.century), n ≤ largest := by
            intro n member
            obtain ⟨m, given, rfl⟩ := Option.map_eq_some_iff.mp member
            exact fullYear_le current (small.numbers m (years m given)) _
          have monthSmall : ∀ n ∈ month, n ≤ largest := fun n member => small.numbers n (months n member)
          have daySmall : ∀ n ∈ day, n ≤ largest := fun n member => small.numbers n (days n member)
          exact stamp_ne_offScale small yearSmall monthSmall daySmall _ failed
        · cases failed

/-! ### Dates in rule text -/

end FreeForm

theorem Compact.length_text (s : Stamp) : 12 ≤ (Compact.text s).length ∧ (Compact.text s).length ≤ 15 := by
  obtain ⟨year, month, day⟩ := s.day.parts_lt
  obtain ⟨hour, minute, second, -⟩ := s.clock.valid
  have digits : (Text.ofNat s.day.year).length ≤ 4 := (Nat.length_toDigits_le_iff (by decide) (by decide)).mpr year
  have some : 0 < (Text.ofNat s.day.year).length := List.length_pos_iff.mpr (ofNat_ne_nil _)
  have pairs : ∀ n < 100, (Text.ofNatPadded 2 n).length = 2 := by decide
  simp only [Compact.text, List.length_append, List.length_cons, pairs _ month, pairs _ day,
    pairs s.clock.hour (by omega), pairs s.clock.minute (by omega), pairs s.clock.second (by omega)]
  omega

/-- The dates that rule text writes are short and name no weekday. -/
theorem FreeForm.short_text (s : Stamp) : ∀ token ∈ DateToken.tokens (Compact.text s), IsShort 9 token ∧ weekday? token = none := by
  obtain ⟨digits, areDigits, written⟩ := Compact.exists_text_eq s
  have length := Compact.length_text s
  have clock : s.clock.digits.length = 6 := rfl
  rw [written, List.length_append, List.length_cons, row, List.length_map, row, List.length_map, clock] at length
  have nonempty : digits ≠ [] := List.length_pos_iff.mp (by omega)
  have decimals := decimals_row areDigits
  have some : row digits ≠ [] := fun none => nonempty (List.map_eq_nil_iff.mp none)
  rw [written, DateToken.tokens_moment decimals some s.clock.decimals_digits (List.cons_ne_nil _ _)]
  intro token member
  simp only [List.mem_cons, List.not_mem_nil, or_false] at member
  rcases member with rfl | rfl | rfl
  · exact ⟨fun _ => by rw [row, List.length_map]; omega, weekday?_decimals decimals some⟩
  · exact ⟨by decide, by decide⟩
  · exact ⟨fun _ => by rw [row, List.length_map]; omega, weekday?_decimals s.clock.decimals_digits (List.cons_ne_nil _ _)⟩

/-! ### Dates of a host -/

/-- A value that is not a text whose numbers have more digits than can be reckoned with. -/
def Datum.IsReckonable (value : Datum) : Prop := ∀ s, value = .text s → ∀ token ∈ DateToken.tokens (trim s), IsShort 28 token

/-- A value that can be reckoned with is read as a date in a known format, or refused as none. -/
theorem Datum.isDate_of_stampIn {value : Datum} {currentYear : Nat} {format : LocaleFormat} {e : Failure}
    (reckonable : value.IsReckonable) (failed : value.stampIn currentYear (.ok format) = .error e) : e.isDate = true := by
  cases value with
  | text s =>
    have failed : DateText.read currentYear (.ok format) s = .error e := failed
    unfold DateText.read at failed
    split at failed
    · cases failed
    · cases failed
      rfl
    · rename_i f read
      exfalso
      unfold DateText.resolve at read
      dsimp only at read
      split at read
      · cases read
      · split at read
        · cases read
        · split at read
          · have read : DateText.inWords currentYear format (trim s) = .error f := read
            unfold DateText.inWords at read
            split at read
            · cases read
            · rename_i failed
              exact FreeForm.read_ne_offPrecision (reckonable s rfl) failed
            · cases read
          · cases read
  | stamp s | day d => cases failed
  | null | bool _ | int _ | real _ | list _ | object _ =>
    cases failed
    rfl

namespace DateText

variable {currentYear : Nat} {format : Except Fault LocaleFormat} {s : Text} {t : Stamp}

/-- A text that can be reckoned with is read as a date, or is none. -/
theorem exists_resolve (short : ∀ token ∈ DateToken.tokens (trim s), IsShort 28 token) (currentYear : Nat)
    (format : LocaleFormat) : ∃ stamp, resolve currentYear (.ok format) s = .ok stamp := by
  cases found : resolve currentYear (.ok format) s with
  | ok stamp => exact ⟨stamp, rfl⟩
  | error f =>
    have failed : (Datum.text s).stampIn currentYear (.ok format) = .error (.fault f) := by
      rw [Datum.stampIn, DateText.read, found]
    have reckonable : (Datum.text s).IsReckonable := by
      rintro _ ⟨⟩
      exact short
    cases Datum.isDate_of_stampIn reckonable failed

theorem read_eq_ok : read currentYear format s = .ok t ↔ resolve currentYear format s = .ok (some t) := by
  unfold read
  cases resolve currentYear format s with
  | error f => exact ⟨nofun, nofun⟩
  | ok found =>
    cases found with
    | none => exact ⟨nofun, nofun⟩
    | some t' => simp

theorem inWords_eq_some {known : LocaleFormat} : inWords currentYear known s = .ok (some t) ↔
    spellsYear s = true ∧ FreeForm.readZoned currentYear known.order.dayFirst wordsDefault s = .ok (t, true) := by
  unfold inWords FreeForm.read
  cases FreeForm.readZoned currentYear known.order.dayFirst wordsDefault s with
  | error e => cases e <;> simp [bind, Except.bind]
  | ok read =>
    obtain ⟨t', hasZone⟩ := read
    cases hasZone <;> cases spellsYear s <;> simp [bind, Except.bind, pure, Except.pure, throw, throwThe, MonadExceptOf.throw]

end DateText

end Cadence
