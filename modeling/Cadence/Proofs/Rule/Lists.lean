import Cadence.Proofs.Rule.Built

/-!
# Lists read twice

The lists of a rule are read when its text is checked and again when it is evaluated. What both readers take
they read alike.
-/

namespace Cadence

theorem filterMap_filter_of_mapM {α β γ : Type} {read : α → Option β} {keep : α → Bool} {again : α → Option γ} {same : β → γ}
    {items : List α} {values : List β} (all : items.mapM read = some values)
    (agree : ∀ item ∈ items, ∀ value, read item = some value → keep item = true ∧ again item = some (same value)) :
    (items.filter keep).filterMap again = values.map same := by
  induction items generalizing values with
  | nil =>
    obtain rfl := Option.some.inj all
    rfl
  | cons item items ih =>
    rw [List.mapM_cons] at all
    obtain ⟨value, first, all⟩ := Option.bind_eq_some_iff.mp all
    obtain ⟨rest, others, all⟩ := Option.bind_eq_some_iff.mp all
    obtain rfl := Option.some.inj all
    obtain ⟨kept, found⟩ := agree item List.mem_cons_self value first
    rw [List.filter_cons_of_pos kept, List.filterMap_cons, found, List.map_cons,
      ih others fun next member => agree next (List.mem_cons_of_mem item member)]

theorem mapM_splitOn_ne_nil {β : Type} {read : Text → Option β} {sep : Char} {s : Text} {values : List β}
    (all : (Text.splitOn sep s).mapM read = some values) : values ≠ [] := by
  obtain ⟨item, items, pieces⟩ := List.exists_cons_of_ne_nil (Text.splitOn_ne_nil sep s)
  rw [pieces, List.mapM_cons] at all
  obtain ⟨value, -, all⟩ := Option.bind_eq_some_iff.mp all
  obtain ⟨rest, -, all⟩ := Option.bind_eq_some_iff.mp all
  obtain rfl := Option.some.inj all
  exact List.cons_ne_nil _ _

namespace RuleText

variable {r : RuleText} {key : RuleKey}

/-- A list that can be evaluated is not empty. -/
theorem ne_nil_of_mapM {β : Type} {read : Text → Option β} {values : Option (List β)} {l : List β}
    (all : (r.get? key).map (fun value => (Text.splitOn ',' value).mapM read) = values.map some) (named : values = some l) :
    l ≠ [] := by
  cases found : r.get? key with
  | none =>
    rw [found, named] at all
    cases all
  | some value =>
    rw [found, named] at all
    exact mapM_splitOn_ne_nil (Option.some.inj all)

/-! ### Numbers -/

section Numbers
variable {numbers : Option (List Int)} (read : (r.get? key).map RuleSpec.integers? = numbers.map some)
include read

theorem integers_eq : r.integers key = numbers.getD [] := by
  unfold integers value
  cases found : r.get? key with
  | none =>
    rw [found] at read
    cases numbers with
    | none => rfl
    | some l => cases read
  | some value =>
    rw [found] at read
    cases numbers with
    | none => cases read
    | some l =>
      have all : RuleSpec.integers? value = some l := Option.some.inj read
      have nonempty : ∀ item : Text, ∀ n, Text.readInt? item = some n → (! item.isEmpty) = true := by
        intro item n number
        cases item with
        | nil => cases number
        | cons c rest => rfl
      have list : (Text.nonEmptyItems value).filterMap Text.readInt? = l.map id :=
        filterMap_filter_of_mapM all fun item _ n number => ⟨nonempty item n number, number⟩
      exact list.trans (List.map_id l)

end Numbers

theorem has_eq_isSome {α : Type} {read : Text → Option α} {values : Option α} (all : (r.get? key).map read = values.map some) :
    r.has key = values.isSome := by
  unfold has
  cases found : r.get? key <;> cases values <;> rw [found] at all <;> first | rfl | cases all

theorem get?_eq_none_iff {α : Type} {read : Text → Option α} {values : Option α}
    (all : (r.get? key).map read = values.map some) : r.get? key = none ↔ values = none := by
  rw [← Option.not_isSome_iff_eq_none, ← Option.not_isSome_iff_eq_none, ← has_eq_isSome all]
  rfl

/-! ### Weekdays -/

theorem eq_symbol_of_ofSymbol? {s : Text} {w : Weekday} (found : Weekday.ofSymbol? s = some w) : s = w.symbol := by
  have named := List.find?_some found
  exact (of_decide_eq_true named).symm

/-- An item of the weekday list is a number, which may be missing, and a symbol. -/
theorem weekdayItem?_eq_some {item : Text} {q : Option Int} {w : Weekday} (checked : weekdayItem? item = some (q, w)) :
    ∃ number, item = number ++ w.symbol ∧ '(' ∉ number ∧
      (number = [] ∧ q = none ∨ number ≠ [] ∧ ∃ n, Text.readInt? number = some n ∧ q = some n) := by
  unfold weekdayItem? at checked
  dsimp only at checked
  have signs := List.prefix_iff_eq_append.mp (List.takeWhile_prefix (fun c => c = '+' || c = '-') : _ <+: item)
  have noSign : '(' ∉ item.takeWhile fun c => c = '+' || c = '-' := fun member =>
    absurd (List.all_eq_true.mp List.all_takeWhile _ member) (by decide)
  generalize item.takeWhile (fun c => c = '+' || c = '-') = sign at signs noSign checked
  have digits := List.prefix_iff_eq_append.mp (List.takeWhile_prefix Text.isDecimal : _ <+: item.drop sign.length)
  have noDigit : '(' ∉ (item.drop sign.length).takeWhile Text.isDecimal := fun member =>
    absurd (List.all_eq_true.mp List.all_takeWhile _ member) (by decide)
  generalize (item.drop sign.length).takeWhile Text.isDecimal = number at digits noDigit checked
  cases found : Weekday.ofSymbol? ((item.drop sign.length).drop number.length) with
  | none =>
    simp only [found] at checked
    cases checked
  | some day =>
    simp only [found] at checked
    have symbol := eq_symbol_of_ofSymbol? found
    have whole : item = (sign ++ number) ++ day.symbol := by
      rw [← symbol, List.append_assoc, digits, signs]
    have marks : '(' ∉ sign ++ number := fun member => (List.mem_append.mp member).elim noSign noDigit
    split at checked
    · rename_i bare
      cases checked
      refine ⟨[], ?_, by simp, Or.inl ⟨rfl, rfl⟩⟩
      rw [whole, List.isEmpty_iff.mp bare.1, List.isEmpty_iff.mp bare.2]
      rfl
    · split at checked
      · cases checked
      · rename_i numbered
        obtain ⟨n, read, checked⟩ := Option.map_eq_some_iff.mp checked
        cases checked
        refine ⟨sign ++ number, whole, marks, Or.inr ⟨fun empty => numbered (Or.inr (Or.inl ?_)), n, read, rfl⟩⟩
        rw [(List.append_eq_nil_iff.mp empty).2]
        rfl

theorem length_symbol (w : Weekday) : w.symbol.length = 2 := by cases w <;> rfl

/-- What both readers of weekdays take is the same to them. -/
theorem weekdayItem?_eq_of_weekday? {item : Text} {q q' : Option Int} {w w' : Weekday}
    (checked : weekdayItem? item = some (q, w)) (read : RuleSpec.weekday? item = some (w', q')) : q = q' ∧ w = w' := by
  obtain ⟨number, whole, marks, cases⟩ := weekdayItem?_eq_some checked
  have noBracket : ¬ item.contains '(' = true := by
    have symbols : ∀ w ∈ Weekday.all, '(' ∉ w.symbol := by decide
    rw [whole, List.contains_iff_mem, List.mem_append]
    exact fun member => member.elim marks (symbols w w.mem_all)
  have length := congrArg List.length whole
  rw [List.length_append, length_symbol] at length
  unfold RuleSpec.weekday? at read
  rw [if_neg noBracket] at read
  dsimp only at read
  generalize min (item.takeWhile RuleSpec.isSigned).length (item.length - 1) = size at read
  split at read
  · cases read
  · split at read
    · obtain ⟨day, found, same⟩ := Option.map_eq_some_iff.mp read
      cases same
      have symbol := eq_symbol_of_ofSymbol? found
      have short := congrArg List.length symbol
      rw [length_symbol] at short
      obtain rfl : number = [] := List.length_eq_zero_iff.mp (by omega)
      have days := Weekday.ofSymbol?_symbol w
      rw [List.nil_append] at whole
      rw [← whole, found] at days
      rcases cases with ⟨-, rfl⟩ | ⟨nonempty, -⟩
      · exact ⟨rfl, (Option.some.inj days).symm⟩
      · exact absurd rfl nonempty
    · rename_i some
      obtain ⟨day, found, read⟩ := Option.bind_eq_some_iff.mp read
      obtain ⟨position, placed, read⟩ := Option.bind_eq_some_iff.mp read
      cases read
      have symbol := congrArg List.length (eq_symbol_of_ofSymbol? found)
      rw [length_symbol, List.length_drop] at symbol
      obtain rfl : size = number.length := by omega
      rw [whole, List.drop_left, Weekday.ofSymbol?_symbol] at found
      rw [whole, List.take_left] at placed
      obtain ⟨n, value, placed⟩ := Option.bind_eq_some_iff.mp placed
      split at placed
      · cases placed
      · cases placed
        rcases cases with ⟨rfl, -⟩ | ⟨-, m, value', rfl⟩
        · exact absurd rfl some
        · exact ⟨value'.symm.trans value, Option.some.inj found⟩

theorem weekdayItem?_of_checkWeekday {token : Text} (checked : checkWeekday token = .ok ()) :
    ∃ q w, weekdayItem? token = some (q, w) ∧ q ≠ some 0 := by
  unfold checkWeekday at checked
  split at checked
  · cases checked
  · rename_i w found
    exact ⟨none, w, found, nofun⟩
  · rename_i n w found
    refine ⟨some n, w, found, ?_⟩
    rintro zero
    cases zero
    cases checked

section Weekdays
variable {days : Option (List NthWeekday)} (checked : r.checkWeekdays = .ok ())
include checked

theorem weekdayItem?_of_mem {token : Text} (member : token ∈ Text.splitOn ',' (r.value .byDay)) (nonempty : token ≠ []) :
    ∃ q w, weekdayItem? token = some (q, w) ∧ q ≠ some 0 := by
  unfold checkWeekdays at checked
  refine weekdayItem?_of_checkWeekday (forM_eq_ok.mp checked token (List.mem_filter.mpr ⟨member, ?_⟩))
  cases token with
  | nil => exact absurd rfl nonempty
  | cons c rest => rfl

/-- The weekdays of the text are those that are evaluated. -/
theorem weekdays_eq (read : (r.get? .byDay).map RuleSpec.weekdays? = days.map some) :
    r.weekdays = (days.getD []).map fun item => (item.2, item.1) := by
  have items : ∀ token ∈ Text.splitOn ',' (r.value .byDay), token ≠ [] →
      ∃ q w, weekdayItem? token = some (q, w) ∧ q ≠ some 0 := fun token => weekdayItem?_of_mem checked
  unfold weekdays
  unfold value at items ⊢
  cases found : r.get? .byDay with
  | none =>
    rw [found] at read
    cases days with
    | none => rfl
    | some l => cases read
  | some value =>
    rw [found] at read items
    cases days with
    | none => cases read
    | some l =>
      have all : RuleSpec.weekdays? value = some l := Option.some.inj read
      refine filterMap_filter_of_mapM all fun token member day named => ?_
      have nonempty : token ≠ [] := by
        rintro rfl
        cases named
      obtain ⟨q, w, item, -⟩ := items token member nonempty
      obtain ⟨rfl, rfl⟩ := weekdayItem?_eq_of_weekday? item named
      cases token with
      | nil => exact absurd rfl nonempty
      | cons c rest => exact ⟨rfl, item⟩

theorem position_ne_zero {item : WeekdayItem} (member : item ∈ r.weekdays) : item.1 ≠ some 0 := by
  obtain ⟨token, listed, found⟩ := List.mem_filterMap.mp member
  obtain ⟨split, nonempty⟩ := List.mem_filter.mp listed
  obtain ⟨q, w, item', nonzero⟩ := weekdayItem?_of_mem checked split (by
    rintro rfl
    cases nonempty)
  rw [item'] at found
  cases found
  exact nonzero

end Weekdays

end RuleText

end Cadence
