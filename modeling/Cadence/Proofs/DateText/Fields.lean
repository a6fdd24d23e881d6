import Cadence.DateText.FreeForm
import Cadence.Proofs.DateText.Short
import Cadence.Proofs.Failure

/-!
# Fields of a date in words

What is read of a date in words with short tokens holds no number beyond those of dates. Each way to read
a token keeps the fields so.
-/

namespace Cadence

open Text DateNumbers

namespace FreeForm

/-! ### Fields -/

/-- No number that has been read is beyond those of dates, and no weekday has been named. -/
structure Fields.IsSmall (f : Fields) : Prop where
  numbers : f.numbers.AreSmall
  hour : ∀ n ∈ f.hour, n ≤ largest
  minute : ∀ n ∈ f.minute, n ≤ largest
  second : ∀ n ∈ f.second, n ≤ largest
  weekday : f.weekday = none

theorem isSmall_empty : Fields.IsSmall {} := ⟨nofun, nofun, nofun, nofun, rfl⟩

theorem known_eq_ok {α : Type} {o : Option α} {a : α} : known o = .ok a ↔ o = some a := by
  cases o <;> simp [known]

theorem unknown_of_known {α : Type} {o : Option α} {e : Flaw} (failed : known o = .error e) : e = .unknown := by
  cases o <;> cases failed
  rfl

theorem halfHour_le {hour : Nat} (le : hour ≤ largest) (afternoon : Bool) : halfHour hour afternoon ≤ largest := by
  unfold halfHour largest at *
  split
  · exact Nat.zero_le _
  · split <;> omega

theorem fullYear_le {currentYear year : Nat} (current : currentYear ≤ lastYear) (le : year ≤ largest) (century : Bool) :
    fullYear currentYear year century ≤ largest := by
  unfold fullYear largest lastYear at *
  split
  · exact le
  · dsimp only
    split
    · omega
    · split <;> omega

theorem month?_le {token : Text} {month : Nat} (named : month? token = some month) : month ≤ largest := by
  unfold month? at named
  dsimp only at named
  split at named
  · cases named
    decide
  · have listed := List.mem_of_find?_eq_some named
    have all : ∀ month ∈ (List.range 12).map (· + 1), month ≤ largest := by decide
    exact all month listed

section Small
variable {f next : Fields} {token s : Text} {x : Decimal} (small : f.IsSmall)
include small

theorem Fields.IsSmall.withNumbers {numbers : DateNumbers} (pushed : numbers.AreSmall) : Fields.IsSmall { f with numbers } :=
  { small with numbers := pushed }

theorem Fields.IsSmall.withHour {hour : Nat} (le : hour ≤ largest) : Fields.IsSmall { f with hour := some hour } :=
  { small with hour := by rintro n ⟨⟩; exact le }

theorem Fields.IsSmall.withMinute {minute : Nat} (le : minute ≤ largest) : Fields.IsSmall { f with minute := some minute } :=
  { small with minute := by rintro n ⟨⟩; exact le }

theorem Fields.IsSmall.withMinutes (whole : x.whole ≤ largest) (places : x.places ≤ 9) (read : f.withMinutes x = .ok next) :
    next.IsSmall := by
  obtain ⟨-, -, read⟩ := bind_eq_ok.mp read
  cases read
  have sixtieths : x.sixtieths ≤ largest := Nat.le_of_lt (Nat.lt_trans (Decimal.sixtieths_lt places) (by decide))
  refine { small with minute := ?_, second := ?_ }
  · rintro n ⟨⟩
    exact whole
  · intro n member
    dsimp only at member
    split at member
    · cases member
    · cases member
      exact sixtieths

theorem Fields.IsSmall.withHours (whole : x.whole ≤ largest) (places : x.places ≤ 9) (read : f.withHours x = .ok next) :
    next.IsSmall := by
  obtain ⟨-, -, read⟩ := bind_eq_ok.mp read
  cases read
  have sixtieths : x.sixtieths ≤ largest := Nat.le_of_lt (Nat.lt_trans (Decimal.sixtieths_lt places) (by decide))
  refine { small with hour := ?_, minute := ?_ }
  · rintro n ⟨⟩
    exact whole
  · intro n member
    dsimp only at member
    split at member
    · exact small.minute n member
    · cases member
      exact sixtieths

theorem Fields.IsSmall.withSeconds? (short : IsShort 9 token) (part : s.Sublist token) (read : f.withSeconds? s = some next) :
    next.IsSmall := by
  obtain ⟨⟨second, micro⟩, found, read⟩ := Option.map_eq_some_iff.mp read
  cases read
  have le : second ≤ largest := by
    unfold seconds? at found
    split at found
    · rename_i whole pieces
      obtain ⟨n, number, same⟩ := Option.map_eq_some_iff.mp found
      cases same
      have piece : whole.Sublist s := sublist_of_mem_splitOn (by rw [pieces]; exact List.mem_singleton_self _)
      exact readNat?_le short (piece.trans part) number
    · rename_i whole places pieces
      obtain ⟨n, number, found⟩ := Option.bind_eq_some_iff.mp found
      obtain ⟨m, -, same⟩ := Option.bind_eq_some_iff.mp found
      cases same
      have piece : whole.Sublist s := sublist_of_mem_splitOn (by rw [pieces]; exact List.mem_cons_self)
      exact readNat?_le short (piece.trans part) number
    · cases found
  exact { small with second := by rintro n ⟨⟩; exact le }

theorem Fields.IsSmall.withUnit (short : IsShort 9 token) (read : Decimal.ofToken? token = some x)
    {unit : Option TimeUnit} (labelled : f.withUnit token x unit = .ok next) : next.IsSmall := by
  obtain ⟨whole, places⟩ := Decimal.small_of_ofToken? short read
  unfold Fields.withUnit at labelled
  split at labelled
  · exact small.withHours whole places labelled
  · exact small.withMinutes whole places labelled
  · exact small.withSeconds? short (List.Sublist.refl token) (known_eq_ok.mp labelled)
  · cases labelled
    exact small

/-! ### Numbers among the tokens -/

theorem Fields.IsSmall.sixDigits? (short : IsShort 9 token) (read : FreeForm.sixDigits? f token = some next) : next.IsSmall := by
  unfold FreeForm.sixDigits? at read
  split at read
  · obtain ⟨first, pushed, read⟩ := Option.bind_eq_some_iff.mp read
    obtain ⟨second, pushed', read⟩ := Option.bind_eq_some_iff.mp read
    obtain ⟨third, pushed'', read⟩ := Option.bind_eq_some_iff.mp read
    cases read
    have one := small.numbers.pushText? short (List.take_sublist 2 token) pushed
    have two := one.pushText? short ((List.take_sublist 2 _).trans (List.drop_sublist 2 token)) pushed'
    exact small.withNumbers (two.pushText? short (List.drop_sublist 4 token) pushed'')
  · obtain ⟨hour, number, read⟩ := Option.bind_eq_some_iff.mp read
    obtain ⟨minute, number', read⟩ := Option.bind_eq_some_iff.mp read
    have hours := readNat?_le short (List.take_sublist 2 token) number
    have minutes := readNat?_le short ((List.take_sublist 2 _).trans (List.drop_sublist 2 token)) number'
    exact ((small.withHour hours).withMinute minutes).withSeconds? short (List.drop_sublist 4 token) read

theorem Fields.IsSmall.longDigits? (short : IsShort 9 token) (read : FreeForm.longDigits? f token = some next) : next.IsSmall := by
  have part : ∀ k n, ((token.drop k).take n).Sublist token := fun k n =>
    (List.take_sublist n _).trans (List.drop_sublist k token)
  unfold FreeForm.longDigits? at read
  obtain ⟨year, pushed, read⟩ := Option.bind_eq_some_iff.mp read
  obtain ⟨month, pushed', read⟩ := Option.bind_eq_some_iff.mp read
  obtain ⟨day, pushed'', read⟩ := Option.bind_eq_some_iff.mp read
  have one := small.numbers.pushYearText? (fun n number => readNat?_le short (List.take_sublist 4 token) number) pushed
  have dated := small.withNumbers ((one.pushText? short (part 4 2) pushed').pushText? short (part 6 2) pushed'')
  dsimp only at read
  split at read
  · cases read
    exact dated
  · obtain ⟨hour, number, read⟩ := Option.bind_eq_some_iff.mp read
    obtain ⟨minute, number', read⟩ := Option.bind_eq_some_iff.mp read
    have timed := (dated.withHour (readNat?_le short (part 8 2) number)).withMinute (readNat?_le short (part 10 2) number')
    split at read
    · cases read
      exact timed
    · obtain ⟨second, number'', read⟩ := Option.bind_eq_some_iff.mp read
      cases read
      exact { timed with second := by rintro n ⟨⟩; exact readNat?_le short (List.drop_sublist 12 token) number'' }

theorem Fields.IsSmall.hourDigits? (short : IsShort 9 token) (read : FreeForm.hourDigits? f token = some next) : next.IsSmall := by
  unfold FreeForm.hourDigits? at read
  obtain ⟨hour, number, read⟩ := Option.bind_eq_some_iff.mp read
  have timed := small.withHour (readNat?_le short (List.take_sublist 2 token) number)
  split at read
  · obtain ⟨minute, number', read⟩ := Option.bind_eq_some_iff.mp read
    cases read
    exact timed.withMinute (readNat?_le short (List.drop_sublist 2 token) number')
  · cases read
    exact timed

theorem Fields.IsSmall.pushDecimal? (whole : x.whole ≤ largest) {used : Nat} {read : Nat × Fields}
    (pushed : (f.numbers.pushDecimal? x).map (fun numbers => (used, { f with numbers })) = some read) : read.2.IsSmall := by
  obtain ⟨numbers, found, same⟩ := Option.map_eq_some_iff.mp pushed
  cases same
  exact small.withNumbers (small.numbers.pushDecimal? whole found)

theorem Fields.IsSmall.lone? (whole : x.whole ≤ largest) {tokens : List Text} {read : Nat × Fields}
    (found : FreeForm.lone? f x tokens = some read) : read.2.IsSmall := by
  unfold FreeForm.lone? at found
  split at found
  · split at found
    · cases found
      exact small.withHour (halfHour_le whole _)
    · exact small.pushDecimal? whole found
  · exact small.pushDecimal? whole found

theorem Fields.IsSmall.joined? (whole : x.whole ≤ largest) {following : Text} {read : Nat × Fields}
    (found : FreeForm.joined? f x following = some read) : read.2.IsSmall := by
  unfold FreeForm.joined? at found
  split at found
  · split at found
    · cases found
      exact small.withHour (halfHour_le whole _)
    · split at found
      · exact small.pushDecimal? whole found
      · cases found
  · split at found
    · exact small.pushDecimal? whole found
    · cases found

omit small in
theorem pushMonth?_small {d next : DateNumbers} {month : Nat} (numbers : d.AreSmall) (named : month? s = some month)
    (pushed : d.pushMonth? month = some next) : next.AreSmall := numbers.pushMonth? (month?_le named) pushed

/-- What connected numbers come to when two of them have been read, the third standing behind another separator. -/
def connectedThird? (f : Fields) (sep : Text) (more : List Text) (two : DateNumbers) : Option (Nat × Fields) :=
  match more with
  | again :: more =>
    if again = sep then
      match more with
      | [] => none
      | third :: _ =>
        match month? third with
        | some month => (two.pushMonth? month).bind fun numbers => some (4, { f with numbers })
        | none => (two.pushText? third).bind fun numbers => some (4, { f with numbers })
    else some (2, { f with numbers := two })
  | [] => some (2, { f with numbers := two })

theorem Fields.IsSmall.connectedThird? {sep : Text} {more : List Text} (others : ∀ t ∈ more, IsShort 9 t) {two : DateNumbers}
    (twoSmall : two.AreSmall) {read : Nat × Fields} (found : FreeForm.connectedThird? f sep more two = some read) :
    read.2.IsSmall := by
  unfold FreeForm.connectedThird? at found
  split at found
  · split at found
    · split at found
      · cases found
      · split at found
        · rename_i named
          obtain ⟨three, pushed, same⟩ := Option.bind_eq_some_iff.mp found
          cases same
          exact small.withNumbers (pushMonth?_small twoSmall named pushed)
        · obtain ⟨three, pushed, same⟩ := Option.bind_eq_some_iff.mp found
          cases same
          exact small.withNumbers (twoSmall.pushText? (others _ (by simp)) (List.Sublist.refl _) pushed)
    · cases found
      exact small.withNumbers twoSmall
  · cases found
    exact small.withNumbers twoSmall

theorem Fields.IsSmall.connected? (short : IsShort 9 token) {sep : Text} {rest : List Text} (others : ∀ t ∈ rest, IsShort 9 t)
    {read : Nat × Fields} (found : FreeForm.connected? f token sep rest = some read) : read.2.IsSmall := by
  unfold FreeForm.connected? at found
  obtain ⟨one, pushed, found⟩ := Option.bind_eq_some_iff.mp found
  have oneSmall := small.numbers.pushText? short (List.Sublist.refl token) pushed
  cases rest with
  | nil =>
    cases found
    exact small.withNumbers oneSmall
  | cons second more =>
    obtain ⟨shortSecond, others⟩ := List.forall_mem_cons.mp others
    dsimp only at found
    split at found
    · cases found
      exact small.withNumbers oneSmall
    · split at found
      · obtain ⟨two, pushed, found⟩ := Option.bind_eq_some_iff.mp found
        exact small.connectedThird? others (oneSmall.pushText? shortSecond (List.Sublist.refl second) pushed) found
      · cases named : month? second with
        | none =>
          rw [named] at found
          cases found
        | some month =>
          rw [named] at found
          obtain ⟨two, pushed, found⟩ := Option.bind_eq_some_iff.mp found
          exact small.connectedThird? others (pushMonth?_small oneSmall named pushed) found

theorem Fields.IsSmall.clock (whole : x.whole ≤ largest) {minutes : Text} {more : List Text} (short : IsShort 9 minutes)
    (others : ∀ t ∈ more, IsShort 9 t) {read : Nat × Fields} (found : FreeForm.clock f x minutes more = .ok read) :
    read.2.IsSmall := by
  unfold FreeForm.clock at found
  obtain ⟨y, decimal, further⟩ := bind_eq_ok.mp found
  obtain ⟨timed, read, further⟩ := bind_eq_ok.mp further
  obtain ⟨whole', places⟩ := Decimal.small_of_ofToken? short (known_eq_ok.mp decimal)
  have timedSmall := (small.withHour whole).withMinutes whole' places read
  clear found
  split at further
  · obtain ⟨next, read', same⟩ := bind_eq_ok.mp further
    cases same
    exact timedSmall.withSeconds? (others _ (by simp)) (List.Sublist.refl _) (known_eq_ok.mp read')
  · cases further
    exact timedSmall

theorem Fields.IsSmall.unlabelled (short : IsShort 9 token) (decimal : Decimal.ofToken? token = some x) {tokens : List Text}
    (others : ∀ t ∈ tokens, IsShort 9 t) {read : Nat × Fields} (found : FreeForm.unlabelled f token x tokens = .ok read) :
    read.2.IsSmall := by
  obtain ⟨whole, -⟩ := Decimal.small_of_ofToken? short decimal
  unfold FreeForm.unlabelled at found
  split at found
  · exact small.lone? whole (known_eq_ok.mp found)
  · rename_i minutes more
    exact small.clock whole (others minutes (by simp)) (fun t member => others t (by simp [member])) found
  · rename_i following rest _
    split at found
    · exact small.connected? short (fun t member => others t (List.mem_cons_of_mem _ member)) (known_eq_ok.mp found)
    · split at found
      · exact small.lone? whole (known_eq_ok.mp found)
      · exact small.joined? whole (known_eq_ok.mp found)

theorem Fields.IsSmall.number (short : IsShort 9 token) (decimal : Decimal.ofToken? token = some x) {back tokens : List Text}
    (others : ∀ t ∈ tokens, IsShort 9 t) {read : Nat × Fields} (found : FreeForm.number f token x back tokens = .ok read) :
    read.2.IsSmall := by
  unfold FreeForm.number at found
  dsimp only at found
  split at found
  · obtain ⟨timed, found, same⟩ := map_eq_ok.mp found
    rw [same]
    exact small.hourDigits? short (known_eq_ok.mp found)
  · split at found
    · obtain ⟨dated, found, same⟩ := map_eq_ok.mp found
      rw [same]
      exact small.sixDigits? short (known_eq_ok.mp found)
    · split at found
      · obtain ⟨dated, found, same⟩ := map_eq_ok.mp found
        rw [same]
        exact small.longDigits? short (known_eq_ok.mp found)
      · split at found
        · obtain ⟨labelled, found, same⟩ := map_eq_ok.mp found
          rw [same]
          exact small.withUnit short decimal found
        · exact small.unlabelled short decimal others found

/-! ### Names among the tokens -/

theorem Fields.IsSmall.monthName? {currentYear month : Nat} (current : currentYear ≤ lastYear) (le : month ≤ largest)
    {tokens : List Text} (others : ∀ t ∈ tokens, IsShort 9 t) {read : Nat × Fields}
    (found : FreeForm.monthName? f currentYear month tokens = some read) : read.2.IsSmall := by
  unfold FreeForm.monthName? at found
  obtain ⟨first, pushed, found⟩ := Option.bind_eq_some_iff.mp found
  have one := small.numbers.pushMonth? le pushed
  split at found
  · cases found
    exact small.withNumbers one
  · rename_i sep rest
    split at found
    · split at found
      · cases found
      · rename_i second more
        obtain ⟨numbers, pushed', found⟩ := Option.bind_eq_some_iff.mp found
        have two := one.pushText? (others second (by simp)) (List.Sublist.refl second) pushed'
        split at found
        · rename_i again more
          split at found
          · split at found
            · cases found
            · rename_i third more
              obtain ⟨numbers', pushed'', found⟩ := Option.bind_eq_some_iff.mp found
              cases found
              exact small.withNumbers (two.pushText? (others third (by simp)) (List.Sublist.refl third) pushed'')
          · cases found
            exact small.withNumbers two
        · cases found
          exact small.withNumbers two
    · split at found
      · rename_i word year more same
        obtain ⟨rfl, rfl⟩ := List.cons.inj same
        split at found
        · split at found
          · obtain ⟨n, number, found⟩ := Option.bind_eq_some_iff.mp found
            obtain ⟨numbers, pushed', found⟩ := Option.bind_eq_some_iff.mp found
            cases found
            have written := readNat?_le (others year (by simp)) (List.Sublist.refl year) number
            refine small.withNumbers (one.pushYearText? (fun m read => ?_) pushed')
            rw [readNat?_ofNat] at read
            split at read
            · cases read
              exact fullYear_le current written false
            · cases read
          · cases found
            exact small.withNumbers one
        · cases found
          exact small.withNumbers one
      · cases found
        exact small.withNumbers one

theorem Fields.IsSmall.zoneOffset? {ahead : Bool} {tokens : List Text} {read : Nat × Fields}
    (found : FreeForm.zoneOffset? f ahead tokens = some read) : read.2.IsSmall := by
  unfold FreeForm.zoneOffset? at found
  obtain ⟨⟨used, seconds, rest⟩, -, found⟩ := Option.bind_eq_some_iff.mp found
  have kept : ∀ zoneName offset, Fields.IsSmall { f with zoneName, offset, reversed := false } := fun zoneName offset =>
    { small with }
  dsimp only at found
  generalize (if ahead = f.reversed then -(seconds : Int) else seconds) = offset at found
  split at found
  · split at found
    · cases found
      exact kept _ _
    · cases found
      exact kept _ _
  · cases found
    exact kept _ _

theorem Fields.IsSmall.word? {currentYear : Nat} (current : currentYear ≤ lastYear) {tokens : List Text}
    (others : ∀ t ∈ tokens, IsShort 9 t) (noWeekday : weekday? token = none) {read : Nat × Fields}
    (found : FreeForm.word? f currentYear token tokens = some read) : read.2.IsSmall := by
  unfold FreeForm.word? at found
  split at found
  · rename_i named
    rw [noWeekday] at named
    cases named
  · rename_i named
    exact small.monthName? current (month?_le named) others found
  · obtain ⟨hour, given, found⟩ := Option.bind_eq_some_iff.mp found
    split at found
    · cases found
      exact small.withHour (halfHour_le (small.hour hour given) _)
    · cases found
  · split at found
    · cases found
      exact { small with }
    · split at found
      · exact small.zoneOffset? found
      · split at found
        · cases found
          exact small
        · cases found

end Small

end FreeForm

end Cadence
