import Mathlib.Data.Nat.Digits.Defs
import Cadence.Proofs.DateText.Short
import Cadence.Proofs.Document.Moments
import Cadence.Proofs.Rule.Aligned
import Cadence.Proofs.Rule.Increasing
import Cadence.Proofs.Rule.Lists

/-!
# Rules in documents

A document writes the parts of a rule in an order of its own and each item plainly: numbers without signs and zeros that
they do not need, the end at universal time. A month with a sign is marked as a leap month, and an end in a form that
rules do not have may be taken for another one; a rule with neither is read from the document with all that its own
parts say.
-/

namespace Cadence

/-- What is read item by item is read of each item. -/
theorem exists_of_mapM? {α β : Type} {f : α → Option β} {l : List α} {results : List β} (ran : l.mapM f = some results) :
    ∀ a ∈ l, ∃ b ∈ results, f a = some b := by
  induction l generalizing results with
  | nil => exact fun a member => absurd member List.not_mem_nil
  | cons a l ih =>
    rw [List.mapM_cons] at ran
    obtain ⟨b, first, ran⟩ := Option.bind_eq_some_iff.mp ran
    obtain ⟨rest, others, ran⟩ := Option.bind_eq_some_iff.mp ran
    cases ran
    refine List.forall_mem_cons.mpr ⟨⟨b, List.mem_cons_self, first⟩, fun a' member => ?_⟩
    obtain ⟨b', listed, found⟩ := ih others a' member
    exact ⟨b', List.mem_cons_of_mem b listed, found⟩

/-- What is made of each value is made of all that are read. -/
theorem mapM?_map {α β γ : Type} {f : α → Option β} {read : α → Option γ} {w : γ → β} {l : List α}
    (each : ∀ a ∈ l, f a = (read a).map w) : l.mapM f = (l.mapM read).map (·.map w) := by
  induction l with
  | nil => rfl
  | cons a l ih =>
    rw [List.mapM_cons, List.mapM_cons, each a List.mem_cons_self, ih fun a' member => each a' (List.mem_cons_of_mem a member)]
    cases read a with
    | none => rfl
    | some b => cases l.mapM read <;> rfl

/-- Values that are found one by one are found together. -/
theorem mapM?_eq_map {α β : Type} {f : α → Option β} {g : α → β} {l : List α} (each : ∀ a ∈ l, f a = some (g a)) :
    l.mapM f = some (l.map g) := by
  induction l with
  | nil => rfl
  | cons a l ih =>
    rw [List.mapM_cons, each a List.mem_cons_self, ih fun a' member => each a' (List.mem_cons_of_mem a member)]
    rfl

/-- Values that are read again one by one are read again together. -/
theorem mapM?_of_map {α β : Type} {read : β → Option α} {w : α → β} {l : List α} (each : ∀ a ∈ l, read (w a) = some a) :
    (l.map w).mapM read = some l := by
  rw [List.mapM_map]
  exact (mapM?_eq_map each).trans (congrArg some (List.map_id' l))

namespace Text

/-! ### Numbers -/

/-- A number has no characters but digits, underscores, signs and the blanks around it. -/
theorem mem_of_readNat? {s : Text} {n : Nat} (read : readNat? s = some n) {c : Char} (member : c ∈ s) : c = '_' ∨ isDecimal c = true := by
  rw [← joinWith_splitOn '_' s] at member
  rcases mem_joinWith member with rfl | ⟨row, listed, inside⟩
  · exact .inl rfl
  · unfold readNat? at read
    dsimp only at read
    split at read
    · cases read
    · obtain ⟨digits, found, -⟩ := Option.bind_eq_some_iff.mp read
      obtain ⟨d, -, value⟩ := exists_of_mapM? found c (List.mem_flatten_of_mem listed inside)
      exact .inr (Option.isSome_iff_exists.mpr ⟨d, value⟩)

theorem comma_readInt? {s : Text} {n : Int} (noBlank : NoBlank s) (read : readInt? s = some n) : ',' ∉ s := by
  have unread {t : Text} {k : Nat} (number : readNat? t = some k) : ',' ∉ t := fun member =>
    absurd (mem_of_readNat? number member) (by decide)
  unfold readInt? at read
  rw [trimNumber_eq_self noBlank] at read
  split at read
  all_goals
    obtain ⟨k, cast, -⟩ := Option.map_eq_some_iff.mp read
    obtain ⟨m, number, -⟩ := Option.bind_eq_some_iff.mp cast
  · exact List.not_mem_cons_of_ne_of_not_mem (by decide) (unread number)
  · exact List.not_mem_cons_of_ne_of_not_mem (by decide) (unread number)
  · exact unread number

theorem ofInt_ne_nil (n : Int) : ofInt n ≠ [] := by
  cases n with
  | ofNat k => exact ofNat_ne_nil k
  | negSucc k => exact List.cons_ne_nil _ _

theorem noBlank_ofInt (n : Int) : NoBlank (ofInt n) := by
  cases n with
  | ofNat k => exact noBlank_ofNat k
  | negSucc k => exact (noBlank_ofNat (k + 1)).cons (by decide)

theorem upper_ofInt (n : Int) : Upper (ofInt n) := by
  cases n with
  | ofNat k => exact upper_ofNat k
  | negSucc k => exact (upper_ofNat (k + 1)).cons (by decide)

theorem not_mem_ofInt (n : Int) {c : Char} (mark : c ∈ numberMarks) (minus : c ≠ '-') : c ∉ ofInt n := by
  cases n with
  | ofNat k => exact not_mem_ofNat k mark
  | negSucc k => exact List.not_mem_cons_of_ne_of_not_mem minus (not_mem_ofNat (k + 1) mark)

/-- A number that has been read is written so that it is read again. -/
theorem readInt?_ofInt {s : Text} {n : Int} (read : readInt? s = some n) : readInt? (ofInt n) = some n := by
  have few (k : Nat) (least : k < 10 ^ maxDigits) : (ofNat k).length ≤ maxDigits :=
    Nat.toDigits_length 10 k maxDigits (by decide) least
  have bound := natAbs_readInt?_lt read
  cases n with
  | ofNat k => exact (readInt?_ofNat k).trans (if_pos (few k bound))
  | negSucc k =>
    have digits : readNat? (ofNat (k + 1)) = some (k + 1) := (readNat?_ofNat (k + 1)).trans (if_pos (few (k + 1) bound))
    unfold readInt?
    rw [trimNumber_eq_self (noBlank_ofInt _), ofInt]
    simp only [digits]
    rfl

end Text

open Text

namespace Document

/-! ### Values -/

/-- The value of a part as documents write it. -/
def valueText? (key : RuleKey) (value : Text) : Option Text := ((splitOn ',' value).mapM (itemText? key)).map (joinWith [','])

section Values
variable {key : RuleKey} {value value' : Text}

theorem valueText?_of_comma (comma : ',' ∉ value) : valueText? key value = itemText? key value := by
  rw [valueText?, splitOn_of_not_mem comma, List.mapM_cons]
  cases itemText? key value <;> rfl

/-- A list of numbers that is written plainly is read again. -/
theorem integers?_of_written {l : List Int} (plainly : ∀ item ∈ splitOn ',' value, itemText? key item = (readInt? item).map ofInt)
    (wrote : valueText? key value = some value') (read : RuleSpec.integers? value = some l) : RuleSpec.integers? value' = some l := by
  rw [valueText?, mapM?_map plainly, show (splitOn ',' value).mapM readInt? = some l from read] at wrote
  obtain rfl := Option.some.inj wrote
  have nonempty : l.map ofInt ≠ [] := by simpa using mapM_splitOn_ne_nil read
  have comma : ∀ item ∈ l.map ofInt, ',' ∉ item :=
    List.forall_mem_map.mpr fun n _ => not_mem_ofInt n (by decide) (by decide)
  rw [RuleSpec.integers?, splitOn_joinWith nonempty comma]
  refine mapM?_of_map fun n member => ?_
  obtain ⟨item, -, number⟩ := Schedule.exists_of_mem_mapM? read n member
  exact readInt?_ofInt number

/-- A number that is written plainly is read again. -/
theorem readInt?_of_written {n : Int} (noBlank : NoBlank value) (plainly : itemText? key value = (readInt? value).map ofInt)
    (wrote : valueText? key value = some value') (read : readInt? value = some n) : readInt? value' = some n := by
  rw [valueText?_of_comma (comma_readInt? noBlank read), plainly, read] at wrote
  obtain rfl := Option.some.inj wrote
  exact readInt?_ofInt read

theorem eq_name_of_ofName? {f : Frequency} (found : Frequency.ofName? value = some f) : value = f.name := by
  have named := List.find?_some found
  exact (of_decide_eq_true named).symm

theorem ofName?_of_written {f : Frequency} (wrote : valueText? .freq value = some value') (read : Frequency.ofName? value = some f) :
    Frequency.ofName? value' = some f := by
  have comma : ',' ∉ value := by
    rw [eq_name_of_ofName? read]
    cases f <;> decide
  rw [valueText?_of_comma comma, itemText?, read] at wrote
  obtain rfl := Option.some.inj wrote
  exact Frequency.ofName?_name f

theorem ofSymbol?_of_written {w : Weekday} (wrote : valueText? .weekStart value = some value') (read : Weekday.ofSymbol? value = some w) :
    Weekday.ofSymbol? value' = some w := by
  have comma : ',' ∉ value := by
    rw [RuleText.eq_symbol_of_ofSymbol? read]
    cases w <;> decide
  rw [valueText?_of_comma comma, itemText?, read] at wrote
  obtain rfl := Option.some.inj wrote
  exact Weekday.ofSymbol?_symbol w

/-- Weekdays are written as they stand. -/
theorem valueText?_weekdays (value : Text) : valueText? .byDay value = some value := by
  have items : (splitOn ',' value).mapM (itemText? .byDay) = some ((splitOn ',' value).map id) := mapM?_eq_map fun _ _ => rfl
  rw [valueText?, items, List.map_id, Option.map_some, joinWith_splitOn]

theorem weekdays_of_written (wrote : valueText? .byDay value = some value') : value' = value :=
  Option.some.inj (wrote.symm.trans (valueText?_weekdays value))

/-- A positive number that is checked and has no plus sign is a row of digits. -/
theorem all_isDigit_of_shortInt? {item : Text} {n : Int} (noBlank : NoBlank item) (checked : RuleText.shortInt? item = some n)
    (positive : 0 < n) (unsigned : '+' ∉ item) : item.isEmpty = false ∧ item.all isDigit = true := by
  have read := RuleText.readInt?_of_shortInt? checked
  unfold RuleText.shortInt? at checked
  dsimp only at checked
  have signs := List.prefix_iff_eq_append.mp (List.takeWhile_prefix (fun c => c = '+' || c = '-') : _ <+: item)
  have marks : ∀ c ∈ item.takeWhile (fun c => c = '+' || c = '-'), c = '+' ∨ c = '-' := fun c member => by
    simpa using List.all_eq_true.mp List.all_takeWhile c member
  generalize item.takeWhile (fun c => c = '+' || c = '-') = sign at signs marks checked
  split at checked
  · cases checked
  · rename_i form
    simp only [not_or, Nat.not_lt, Decidable.not_not] at form
    obtain ⟨one, some, -, decimals⟩ := form
    cases sign with
    | nil =>
      refine ⟨by simpa using some, List.all_eq_true.mpr fun c member => ?_⟩
      rw [isDigit, List.all_eq_true.mp decimals c member, Bool.true_or]
    | cons c more =>
      exfalso
      obtain rfl : more = [] := List.eq_nil_of_length_eq_zero (by simpa using one)
      rcases marks c List.mem_cons_self with rfl | rfl
      · exact unsigned (signs ▸ List.mem_cons_self)
      · unfold readInt? at read
        rw [trimNumber_eq_self noBlank, ← signs] at read
        obtain ⟨k, cast, rfl⟩ := Option.map_eq_some_iff.mp read
        obtain ⟨m, -, same⟩ := Option.bind_eq_some_iff.mp cast
        obtain rfl := Option.some.inj same
        simp at positive
        omega

/-- Months that are checked and have no signs are written plainly. -/
theorem monthText?_of_checked {r : RuleText} {l : List Int} (checked : r.check = .ok ()) (got : r.get? .byMonth = some value)
    (noBlank : NoBlank value) (unsigned : '+' ∉ value) (read : RuleSpec.integers? value = some l) :
    ∀ item ∈ splitOn ',' value, itemText? .byMonth item = (readInt? item).map ofInt := by
  intro item member
  obtain ⟨n, -, number⟩ := exists_of_mapM? read item member
  have nonempty : item ≠ [] := by
    rintro rfl
    cases number
  have listed : item ∈ nonEmptyItems (r.value .byMonth) := by
    rw [RuleText.value, got]
    exact List.mem_filter.mpr ⟨member, by simpa using nonempty⟩
  have one := forM_eq_ok.mp (RuleText.checkMonths_of_check checked) item listed
  split at one
  · cases one
  · rename_i m short
    split at one
    · rename_i bounds
      have within := sublist_of_mem_splitOn member
      have digits := all_isDigit_of_shortInt? (fun c inside => noBlank c (within.subset inside)) short
        (by simp at bounds; omega) fun inside => unsigned (within.subset inside)
      rw [itemText?, monthText?, digits.1, digits.2]
      rfl
    · cases one

theorem IsEnd.comma (form : IsEnd value) : ',' ∉ value := by
  cases form with
  | date hd eight => exact not_mem_row hd (by decide)
  | moment hd ht eight six letter =>
    have marked : ',' ∈ numberMarks := by decide
    rcases letter with rfl | rfl <;> simp [not_mem_row hd marked, not_mem_row ht marked]

/-- An end is read again as what a rule with it is evaluated to. -/
theorem until?_of_written {e : Stamp} (today : Stamp) (form : IsEnd value) (wrote : valueText? .until value = some value')
    (read : RuleSpec.until? today value = some e) : RuleSpec.until? today value' = some e := by
  rw [valueText?_of_comma form.comma] at wrote
  obtain ⟨e', found, rfl⟩ := Option.map_eq_some_iff.mp wrote
  obtain rfl : e' = e := Option.some.inj ((form.until?_eq today found).symm.trans read)
  rw [until?_momentText, form.plain_eq found]

/-! ### Plain values -/

theorem isPlainValue_ofInt (n : Int) : IsPlainValue (ofInt n) where
  nonempty := ofInt_ne_nil n
  noBlank := noBlank_ofInt n
  upper := upper_ofInt n
  semicolon := not_mem_ofInt n (by decide) (by decide)
  equals := not_mem_ofInt n (by decide) (by decide)
  colon := not_mem_ofInt n (by decide) (by decide)

theorem isPlainValue_momentText (s : Stamp) : IsPlainValue (momentText s) where
  nonempty := by
    rw [momentText_eq]
    simp
  noBlank := noBlank_momentText s
  upper := upper_momentText s
  semicolon := not_mem_momentText s (by decide) (by decide) (by decide)
  equals := not_mem_momentText s (by decide) (by decide) (by decide)
  colon := not_mem_momentText s (by decide) (by decide) (by decide)

/-- Plain values one after the other, with marks of a plain kind between them, are plain. -/
theorem isPlainValue_joinWith {items : List Text} (nonempty : items ≠ []) (plain : ∀ item ∈ items, IsPlainValue item) :
    IsPlainValue (joinWith [','] items) := by
  have inside {c : Char} (member : c ∈ joinWith [','] items) : c = ',' ∨ ∃ item ∈ items, c ∈ item := mem_joinWith member
  exact {
    nonempty := by
      obtain ⟨item, more, rfl⟩ := List.exists_cons_of_ne_nil nonempty
      obtain ⟨c, rest, first⟩ := List.exists_cons_of_ne_nil (plain item List.mem_cons_self).nonempty
      exact List.ne_nil_of_mem (mem_joinWith_of_mem (first ▸ List.mem_cons_self) List.mem_cons_self)
    noBlank := fun c member => by
      rcases inside member with rfl | ⟨item, listed, within⟩
      · decide
      · exact (plain item listed).noBlank c within
    upper := fun c member => by
      rcases inside member with rfl | ⟨item, listed, within⟩
      · decide
      · exact (plain item listed).upper c within
    semicolon := fun member => by
      rcases inside member with same | ⟨item, listed, within⟩
      · exact absurd same (by decide)
      · exact (plain item listed).semicolon within
    equals := fun member => by
      rcases inside member with same | ⟨item, listed, within⟩
      · exact absurd same (by decide)
      · exact (plain item listed).equals within
    colon := fun member => by
      rcases inside member with same | ⟨item, listed, within⟩
      · exact absurd same (by decide)
      · exact (plain item listed).colon within }

/-- What documents write for an item is plain, weekdays apart, which are written as they stand. -/
theorem isPlainValue_itemText {item item' : Text} (other : key ≠ .byDay) (wrote : itemText? key item = some item') :
    IsPlainValue item' := by
  have frequency (f : Frequency) : IsPlainValue f.name := by cases f <;> decide
  have weekday (w : Weekday) : IsPlainValue w.symbol := by cases w <;> decide
  have number (wrote : (readInt? item).map ofInt = some item') : IsPlainValue item' := by
    obtain ⟨n, -, rfl⟩ := Option.map_eq_some_iff.mp wrote
    exact isPlainValue_ofInt n
  cases key with
  | byDay => exact absurd rfl other
  | freq =>
    obtain ⟨f, -, rfl⟩ := Option.map_eq_some_iff.mp wrote
    exact frequency f
  | weekStart =>
    obtain ⟨w, -, rfl⟩ := Option.map_eq_some_iff.mp wrote
    exact weekday w
  | «until» =>
    obtain ⟨s, -, rfl⟩ := Option.map_eq_some_iff.mp wrote
    exact isPlainValue_momentText s
  | byMonth =>
    rw [itemText?, monthText?] at wrote
    split at wrote
    · exact number wrote
    · obtain ⟨n, -, rfl⟩ := Option.map_eq_some_iff.mp wrote
      have plain := isPlainValue_ofInt n
      exact {
        nonempty := List.append_ne_nil_of_right_ne_nil _ (List.cons_ne_nil _ _)
        noBlank := plain.noBlank.append (List.forall_mem_singleton.mpr (by decide))
        upper := plain.upper.append (List.forall_mem_singleton.mpr (by decide))
        semicolon := by simp [plain.semicolon]
        equals := by simp [plain.equals]
        colon := by simp [plain.colon] }
  | count | interval | byMonthDay | byHour | byMinute | bySecond | bySetPos | byWeekNo | byYearDay => exact number wrote

/-- What documents write for a plain value is plain. -/
theorem isPlainValue_of_written (plain : IsPlainValue value) (wrote : valueText? key value = some value') : IsPlainValue value' := by
  by_cases day : key = .byDay
  · subst day
    rwa [weekdays_of_written wrote]
  · obtain ⟨items, each, rfl⟩ := Option.map_eq_some_iff.mp wrote
    refine isPlainValue_joinWith (mapM_splitOn_ne_nil each) fun item' member => ?_
    obtain ⟨item, -, one⟩ := Schedule.exists_of_mem_mapM? each item' member
    exact isPlainValue_itemText day one

end Values

end Document

end Cadence
