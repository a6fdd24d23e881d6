import Cadence.Proofs.Document.Reader
import Cadence.Proofs.Document.Values
import Cadence.Proofs.Rule.Evaluated

/-!
# Rules read from documents

A document writes the parts of a rule in an order of its own. The rule that is read from it has the same parts, each
with its value written plainly, and so what is read is what the rule itself is evaluated from, if its end has a form
that rules have for it and its months have no signs.
-/

namespace Cadence

open Text

namespace Document

variable {r w : RuleText} {today : Stamp} {spec : RuleSpec}

/-! ### Parts -/

theorem mem_ruleOrder (key : RuleKey) : key ∈ ruleOrder := by cases key <;> decide

/-- The parts of a rule with their values as documents write them. -/
def Writes (r w : RuleText) : Prop := ∀ key, (r.get? key).map (valueText? key) = (w.get? key).map some

/-- A part with its value as documents write it. -/
def rewrite? (part : RuleKey × Text) : Option (RuleKey × Text) := (valueText? part.1 part.2).map fun value => (part.1, value)

theorem partText?_eq {part : RuleKey × Text} (equals : '=' ∉ part.2) :
    partText? part.1 part.2 = (rewrite? part).map fun part => [RuleText.partText part] := by
  rw [partText?, if_neg (by simpa using equals), rewrite?, valueText?]
  cases (splitOn ',' part.2).mapM (itemText? part.1) <;> rfl

theorem get?_of_mapM {parts parts' : List (RuleKey × Text)} (all : parts.mapM rewrite? = some parts') (key : RuleKey) :
    (RuleText.get? { parts } key).map (valueText? key) = (RuleText.get? { parts := parts' } key).map some := by
  induction parts generalizing parts' with
  | nil =>
    cases all
    rfl
  | cons part parts ih =>
    rw [List.mapM_cons] at all
    obtain ⟨part', first, all⟩ := Option.bind_eq_some_iff.mp all
    obtain ⟨rest, others, all⟩ := Option.bind_eq_some_iff.mp all
    cases all
    obtain ⟨value', wrote, rfl⟩ := Option.map_eq_some_iff.mp first
    by_cases same : part.1 = key
    · subst same
      simp [RuleText.get?, wrote]
    · have later := ih others
      simp only [RuleText.get?, Option.map_map] at later ⊢
      rw [List.find?_cons_of_neg (by simpa using same), List.find?_cons_of_neg (by simpa using same)]
      exact later

theorem Writes.inOrder_eq (writes : Writes r w) {keys : List RuleKey} {parts : List (RuleKey × Text)}
    (all : (r.inOrder keys).mapM rewrite? = some parts) : w.inOrder keys = parts := by
  induction keys generalizing parts with
  | nil =>
    cases all
    rfl
  | cons key keys ih =>
    have here := writes key
    cases found : r.get? key with
    | none =>
      rw [found] at here
      have missing : w.get? key = none := Option.map_eq_none_iff.mp here.symm
      rw [RuleText.inOrder_cons_none found] at all
      rw [RuleText.inOrder_cons_none missing, ih all]
    | some value =>
      rw [RuleText.inOrder_cons_some found, List.mapM_cons] at all
      obtain ⟨part', first, all⟩ := Option.bind_eq_some_iff.mp all
      obtain ⟨rest, others, all⟩ := Option.bind_eq_some_iff.mp all
      cases all
      obtain ⟨value', wrote, rfl⟩ := Option.map_eq_some_iff.mp first
      rw [found, Option.map_some, show valueText? key value = some value' from wrote] at here
      obtain ⟨value'', got, same⟩ := Option.map_eq_some_iff.mp here.symm
      obtain rfl := Option.some.inj same
      rw [RuleText.inOrder_cons_some got, ih others]

/-- A document writes the parts of a rule with their values, in its own order. -/
theorem ruleText?_eq (equals : ∀ part ∈ r.parts, '=' ∉ part.2) :
    ruleText? r = ((r.inOrder ruleOrder).mapM rewrite?).map fun parts => joinWith [';'] (parts.map RuleText.partText) := by
  have each : ∀ part ∈ r.inOrder ruleOrder,
      partText? part.1 part.2 = (rewrite? part).map fun part => [RuleText.partText part] := fun part member =>
    partText?_eq (equals part (RuleText.mem_of_get? (RuleText.mem_inOrder.mp member).2))
  rw [ruleText?, mapM?_map each, Option.map_map]
  refine congrArg (Option.map · _) (funext fun parts => ?_)
  exact congrArg (joinWith [';']) (List.flatMap_def.symm.trans List.map_eq_flatMap.symm)

/-- The text of a rule in a document has its parts, in the order of documents. -/
theorem exists_writes (equals : ∀ part ∈ r.parts, '=' ∉ part.2) {text : Text} (wrote : ruleText? r = some text) :
    ∃ w, Writes r w ∧ text = joinWith [';'] ((w.inOrder ruleOrder).map RuleText.partText) := by
  rw [ruleText?_eq equals] at wrote
  obtain ⟨parts, rewritten, rfl⟩ := Option.map_eq_some_iff.mp wrote
  have writes : Writes r { parts } := fun key => by
    rw [← get?_of_mapM rewritten key, RuleText.get?_inOrder (mem_ruleOrder key)]
  exact ⟨{ parts }, writes, by rw [writes.inOrder_eq rewritten]⟩

/-! ### What the parts say -/

/-- What is said by a value is said by the value that documents write for it. -/
theorem Writes.map_read {key : RuleKey} {α : Type} {read : Text → Option α} {a : Option α} (writes : Writes r w)
    (said : (r.get? key).map read = a.map some)
    (kept : ∀ value value' x, r.get? key = some value → valueText? key value = some value' → read value = some x → read value' = some x) :
    (w.get? key).map read = a.map some := by
  have here := writes key
  cases found : r.get? key with
  | none =>
    rw [found] at here said
    rw [show w.get? key = none from Option.map_eq_none_iff.mp here.symm]
    exact said
  | some value =>
    rw [found] at here said
    obtain ⟨value', got, same⟩ := Option.map_eq_some_iff.mp here.symm
    obtain ⟨x, rfl, read⟩ := Option.map_eq_some_iff.mp said.symm
    rw [got, Option.map_some, kept value value' x found same.symm read.symm]
    rfl

/-- A rule whose end, if it has one, is in a form that rules have for it, and whose months have no signs. -/
structure IsStatable (r : RuleText) : Prop where
  finish : ∀ value, r.get? .until = some value → IsEnd value
  months : '+' ∉ r.value .byMonth

/-- What the parts of a rule say is said by the rule that documents write for it. -/
theorem Writes.said (writes : Writes r w) (plain : RuleText.ArePlain r.parts) (checked : r.check = .ok ()) (statable : IsStatable r)
    (said : RuleSpec.Says today r spec) : RuleSpec.Says today w spec := by
  have noBlank {key : RuleKey} {value : Text} (got : r.get? key = some value) : NoBlank value :=
    (plain _ (RuleText.mem_of_get? got)).noBlank
  have integers {key : RuleKey} {l : Option (List Int)} (said : (r.get? key).map RuleSpec.integers? = l.map some)
      (plainly : ∀ item, itemText? key item = (readInt? item).map ofInt) : (w.get? key).map RuleSpec.integers? = l.map some :=
    writes.map_read said fun value value' x _ wrote read => integers?_of_written (fun item _ => plainly item) wrote read
  have number {key : RuleKey} {n : Option Int} (said : (r.get? key).map readInt? = n.map some)
      (plainly : ∀ item, itemText? key item = (readInt? item).map ofInt) : (w.get? key).map readInt? = n.map some :=
    writes.map_read said fun value value' x got wrote read => readInt?_of_written (noBlank got) (plainly value) wrote read
  obtain ⟨every, saidEvery, everyEq⟩ := RuleSpec.getD_map_eq_some.mp said.every
  obtain ⟨week, saidWeek, weekEq⟩ := RuleSpec.getD_map_eq_some.mp said.weekStart
  exact {
    frequency := writes.map_read said.frequency fun _ _ _ _ => ofName?_of_written
    finish := writes.map_read said.finish fun value _ _ got => until?_of_written today (statable.finish value got)
    count := number said.count fun _ => rfl
    every := RuleSpec.getD_map_eq_some.mpr ⟨every, number saidEvery fun _ => rfl, everyEq⟩
    weekdays := writes.map_read said.weekdays fun _ _ _ _ wrote read => by rwa [weekdays_of_written wrote]
    monthDays := integers said.monthDays fun _ => rfl
    months := writes.map_read said.months fun value _ _ got wrote read => by
      have unsigned : '+' ∉ value := by
        have all := statable.months
        rwa [RuleText.value, got] at all
      exact integers?_of_written (monthText?_of_checked checked got (noBlank got) unsigned read) wrote read
    hours := integers said.hours fun _ => rfl
    minutes := integers said.minutes fun _ => rfl
    seconds := integers said.seconds fun _ => rfl
    setPositions := integers said.setPositions fun _ => rfl
    weekNumbers := integers said.weekNumbers fun _ => rfl
    yearDays := integers said.yearDays fun _ => rfl
    weekStart := RuleSpec.getD_map_eq_some.mpr ⟨week, writes.map_read saidWeek fun _ _ _ _ => ofSymbol?_of_written, weekEq⟩
    easterDays := said.easterDays }

/-! ### The text of a rule -/

theorem Writes.plain (writes : Writes r w) (plain : RuleText.ArePlain r.parts) (keys : List RuleKey) :
    RuleText.ArePlain (w.inOrder keys) := by
  intro part member
  have here := writes part.1
  rw [(RuleText.mem_inOrder.mp member).2] at here
  obtain ⟨value, got, wrote⟩ := Option.map_eq_some_iff.mp here
  exact isPlainValue_of_written (plain _ (RuleText.mem_of_get? got)) wrote

theorem Writes.inOrder_ne_nil (writes : Writes r w) (checked : r.check = .ok ()) : w.inOrder ruleOrder ≠ [] := by
  obtain ⟨frequency, got⟩ := RuleText.has_of_check checked
  have here := writes .freq
  rw [got] at here
  obtain ⟨value, named, -⟩ := Option.map_eq_some_iff.mp here.symm
  have member : (RuleKey.freq, value) ∈ w.inOrder ruleOrder := RuleText.mem_inOrder.mpr ⟨mem_ruleOrder .freq, named⟩
  exact List.ne_nil_of_mem member

/-- Parts that are written without a name before them are read one after the other. -/
theorem read_parts {parts : List (RuleKey × Text)} (plain : RuleText.ArePlain parts) (some : parts ≠ []) :
    RuleSpec.read today (joinWith [';'] (parts.map RuleText.partText)) = RuleSpec.ofParts today parts := by
  have unnamed : RuleSpec.partsText (joinWith [';'] (parts.map RuleText.partText)) = .ok (joinWith [';'] (parts.map RuleText.partText)) := by
    rw [RuleSpec.partsText, splitOn_of_not_mem (RuleText.colon_parts plain)]
  rw [RuleSpec.read, unnamed]
  exact (congrArg (·.foldlM (RuleSpec.add today) {}) (RuleText.splitOn_parts plain.semicolon some)).trans (RuleSpec.foldlM_add {} plain)

/-- The parts in the order of documents are read as what they say. -/
theorem ofParts_ruleOrder (said : RuleSpec.Says today w spec) : RuleSpec.ofParts today (w.inOrder ruleOrder) = .ok spec := by
  obtain ⟨n, saidEvery, every⟩ := RuleSpec.getD_map_eq_some.mp said.every
  obtain ⟨W, saidWeek, week⟩ := RuleSpec.getD_map_eq_some.mp said.weekStart
  rw [RuleSpec.ofParts, RuleSpec.ofParts_inOrder]
  simp only [ruleOrder, List.foldlM_cons, List.foldlM_nil, RuleSpec.step_freq, RuleSpec.step_until, RuleSpec.step_count,
    RuleSpec.step_interval, RuleSpec.step_byDay, RuleSpec.step_byMonthDay, RuleSpec.step_byMonth, RuleSpec.step_byHour,
    RuleSpec.step_byMinute, RuleSpec.step_bySecond, RuleSpec.step_bySetPos, RuleSpec.step_byWeekNo, RuleSpec.step_byYearDay,
    RuleSpec.step_weekStart]
  refine ⟨_, said.frequency, _, said.finish, _, said.count, n, saidEvery, _, said.seconds, _, said.minutes, _, said.hours,
    _, said.weekdays, _, said.monthDays, _, said.yearDays, _, said.weekNumbers, _, said.months, _, said.setPositions, W, saidWeek, ?_⟩
  have easter := said.easterDays
  obtain ⟨frequency, interval, count, finish, weekStart, weekdays, setPositions, months, monthDays, yearDays, weekNumbers,
    easterDays, hours, minutes, seconds⟩ := spec
  simp only at easter every week
  subst easter every week
  simp [pure, Except.pure]

/-- A rule that has an end states in a document that the end is at universal time. -/
theorem Writes.endsUniversally (writes : Writes r w) (plain : RuleText.ArePlain r.parts) (statable : IsStatable r) {value : Text}
    (ends : r.get? .until = some value) :
    endsUniversally (joinWith [';'] ((w.inOrder ruleOrder).map RuleText.partText)) = true := by
  have here := writes .until
  rw [ends] at here
  obtain ⟨value', got, wrote⟩ := Option.map_eq_some_iff.mp here.symm
  have member : (RuleKey.until, value') ∈ w.inOrder ruleOrder := RuleText.mem_inOrder.mpr ⟨mem_ruleOrder .until, got⟩
  rw [valueText?_of_comma (statable.finish value ends).comma] at wrote
  obtain ⟨e, -, moment⟩ := Option.map_eq_some_iff.mp wrote.symm
  rw [Document.endsUniversally, RuleText.splitOn_parts (writes.plain plain ruleOrder).semicolon (List.ne_nil_of_mem member)]
  refine List.any_eq_true.mpr ⟨_, List.mem_map_of_mem member, ?_⟩
  have written : RuleText.partText (RuleKey.until, value') =
      "UNTIL=".toList ++ (row e.day.digits ++ 'T' :: row e.clock.digits) ++ ['Z'] := by
    have named (rest : Text) : RuleText.partText (RuleKey.until, rest) = "UNTIL=".toList ++ rest := rfl
    rw [named, ← moment, momentText_eq, List.append_assoc, List.append_assoc, List.cons_append]
  rw [written, List.getLast?_concat, List.append_assoc, startsWith_append]
  rfl

/-- The rule that a document states is read as what the rule itself is evaluated from. -/
theorem read_ruleText (plain : RuleText.ArePlain r.parts) (checked : r.check = .ok ()) (statable : IsStatable r)
    (said : RuleSpec.Says today r spec) {text : Text} (wrote : ruleText? r = some text) :
    RuleSpec.read today text = .ok spec ∧ NoBlank text ∧ (spec.finish.isSome = true → endsUniversally text = true) := by
  obtain ⟨w, writes, rfl⟩ := exists_writes (fun part member => (plain part member).equals) wrote
  have values := writes.plain plain ruleOrder
  refine ⟨?_, RuleText.noBlank_parts values.noBlank, fun ends => ?_⟩
  · rw [read_parts values (writes.inOrder_ne_nil checked), ofParts_ruleOrder (writes.said plain checked statable said)]
  · obtain ⟨e, finish⟩ := Option.isSome_iff_exists.mp ends
    have stated := said.finish
    rw [finish] at stated
    obtain ⟨value, got, -⟩ := Option.map_eq_some_iff.mp stated
    exact writes.endsUniversally plain statable got

end Document

end Cadence
