import Cadence.Proofs.Failure
import Cadence.Proofs.Rule.Spelling
import Cadence.Proofs.Text.Capitals

/-!
# Rule texts that have been read

A rule text that has been read has each part at most once, and each value in capitals, not empty and
without the mark between parts. Nothing more is known of most values. If they have no blanks and the rule
can be evaluated, they are plain: a colon or a further equals sign would have been refused by then.
-/

namespace Cadence

open Text

namespace RuleText

variable {r : RuleText} {parts : List (RuleKey × Text)} {today start : Stamp} {rule : Datum}

/-! ### What reading makes sure of -/

/-- Parts as they are when they have been read, one after the other, from a line. -/
structure AreRead (parts : List (RuleKey × Text)) : Prop where
  nodup : (parts.map (·.1)).Nodup
  nonempty : ∀ part ∈ parts, part.2 ≠ []
  upper : ∀ part ∈ parts, Upper part.2
  semicolon : ∀ part ∈ parts, ';' ∉ part.2

theorem areRead_nil : AreRead [] := ⟨List.nodup_nil, nofun, nofun, nofun⟩

theorem AreRead.concat (areRead : AreRead parts) {part : RuleKey × Text} (new : part.1 ∉ parts.map (·.1))
    (nonempty : part.2 ≠ []) (upper : Upper part.2) (semicolon : ';' ∉ part.2) : AreRead (parts ++ [part]) where
  nodup := by
    rw [List.map_append]
    refine List.nodup_append.mpr ⟨areRead.nodup, List.pairwise_singleton _ _, fun key old other last same => ?_⟩
    obtain rfl : other = part.1 := List.mem_singleton.mp last
    exact new (same ▸ old)
  nonempty := List.forall_mem_append.mpr ⟨areRead.nonempty, List.forall_mem_singleton.mpr nonempty⟩
  upper := List.forall_mem_append.mpr ⟨areRead.upper, List.forall_mem_singleton.mpr upper⟩
  semicolon := List.forall_mem_append.mpr ⟨areRead.semicolon, List.forall_mem_singleton.mpr semicolon⟩

/-- A chunk adds nothing, or one new part with its value trimmed and in capitals. -/
theorem addPart_eq_ok {chunk : Text} {more : List (RuleKey × Text)} (added : addPart parts chunk = .ok more) :
    more = parts ∨ ∃ part name value, more = parts ++ [part] ∧ part.1 ∉ parts.map (·.1) ∧ chunk = name ++ '=' :: value ∧
      part.2 = Text.upper (trim value) ∧ part.2 ≠ [] := by
  unfold RuleText.addPart at added
  split at added
  · cases added
    exact .inl rfl
  · split at added
    · cases added
    · rename_i name value cut
      dsimp only at added
      split at added
      · cases added
      · rename_i nonempty
        split at added
        · cases added
        · rename_i key named
          split at added
          · cases added
          · rename_i new
            cases added
            refine .inr ⟨(key, _), name, value, rfl, fun old => ?_, cut?_eq_some cut, rfl, by simpa using nonempty⟩
            obtain ⟨part, member, same⟩ := List.mem_map.mp old
            exact new (List.any_eq_true.mpr ⟨part, member, decide_eq_true same⟩)

/-- One more part leaves the parts as reading does. -/
theorem AreRead.addPart (areRead : AreRead parts) {chunk : Text} (semicolon : ';' ∉ chunk)
    {more : List (RuleKey × Text)} (added : addPart parts chunk = .ok more) : AreRead more := by
  rcases addPart_eq_ok added with rfl | ⟨part, name, value, rfl, new, rfl, written, nonempty⟩
  · exact areRead
  · refine areRead.concat new nonempty (written ▸ upper_upper _) fun member => semicolon ?_
    rw [written] at member
    have inside := mem_of_mem_trim (mem_of_mem_upper member (by decide))
    exact List.mem_append_right _ (List.mem_cons_of_mem _ inside)

/-- A part of one line is read again as it stands. -/
theorem AreKept.addPart (kept : AreKept parts) {chunk : Text} (semicolon : ';' ∉ chunk) (oneLine : OneLine chunk)
    {more : List (RuleKey × Text)} (added : RuleText.addPart parts chunk = .ok more) : AreKept more := by
  rcases addPart_eq_ok added with rfl | ⟨part, name, value, rfl, -, rfl, written, nonempty⟩
  · exact kept
  · refine List.forall_mem_append.mpr ⟨kept, List.forall_mem_singleton.mpr ?_⟩
    have inside {c : Char} (member : c ∈ value) : c ∈ name ++ '=' :: value :=
      List.mem_append_right _ (List.mem_cons_of_mem _ member)
    exact {
      nonempty
      upper := written ▸ upper_upper _
      semicolon := by
        rw [written]
        exact fun member => semicolon (inside (mem_of_mem_trim (mem_of_mem_upper member (by decide))))
      trimmed := written ▸ (isTrimmed_trim value).upper
      oneLine := written ▸ (oneLine.of_subset fun _ => inside).trim.upper }

theorem areRead_partsOf {body : Text} (read : partsOf body = .ok parts) : AreRead parts :=
  foldlM_invariant (fun _ member _ _ areRead added => areRead.addPart (not_mem_of_mem_splitOn member) added) areRead_nil read

/-- The rule among the lines is on one line. -/
def Lines.OnOneLine (l : Lines) : Prop := ∀ body, l.body = some body → OneLine body

theorem Lines.OnOneLine.addBody {l l' : Lines} {body : Text} (oneLine : OneLine body) (added : l.addBody body = .ok l') :
    l'.OnOneLine := by
  unfold Lines.addBody at added
  split at added
  · cases added
  · cases added
    rintro body ⟨⟩
    exact oneLine

theorem Lines.OnOneLine.add {l l' : Lines} (was : l.OnOneLine) {line : Text} (oneLine : OneLine line)
    (added : l.add line = .ok l') : l'.OnOneLine := by
  unfold Lines.add at added
  dsimp only at added
  split at added
  · cases added
    exact was
  · split at added
    · obtain ⟨start, -, rfl⟩ := map_eq_ok.mp added
      exact was
    · split at added
      · exact .addBody (oneLine.trim.of_subset fun _ => List.mem_of_mem_drop) added
      · split at added
        · exact .addBody oneLine.trim added
        · cases added

/-- A value that is read is a text, and the text is. -/
theorem parse_of_read (read : RuleText.read rule = .ok r) : ∃ s, rule = .text s ∧ parse s = .ok r := by
  unfold RuleText.read at read
  split at read
  · rename_i s
    split at read
    · rename_i parsed
      cases read
      exact ⟨s, rfl, parsed⟩
    · cases read
    · cases read
  · cases read

/-- What a text goes through that is read: its lines, the parts of the one that has them, and the checks. -/
theorem steps_of_parse {s : Text} (parsed : parse s = .ok r) :
    ∃ lines body, (Text.lines (trim s)).foldlM Lines.add {} = .ok lines ∧ lines.body = some body ∧
      partsOf body = .ok r.parts ∧ r.check = .ok () := by
  unfold parse at parsed
  split at parsed
  · cases parsed
  · obtain ⟨lines, given, parsed⟩ := bind_eq_ok.mp parsed
    cases body : lines.body with
    | none =>
      rw [body] at parsed
      cases parsed
    | some body' =>
      rw [body] at parsed
      obtain ⟨parts, read, parsed⟩ := bind_eq_ok.mp parsed
      obtain ⟨⟨⟩, checked, parsed⟩ := bind_eq_ok.mp parsed
      cases parsed
      exact ⟨lines, body', mapError_eq_ok.mp given, body, mapError_eq_ok.mp read, checked⟩

/-- A rule text that has been read has parts of one line that pass the checks. -/
theorem partsOf_of_read (read : RuleText.read rule = .ok r) :
    (∃ body, OneLine body ∧ partsOf body = .ok r.parts) ∧ r.check = .ok () := by
  obtain ⟨s, rfl, parsed⟩ := parse_of_read read
  obtain ⟨lines, body, given, held, parts, checked⟩ := steps_of_parse parsed
  have onOneLine : lines.OnOneLine :=
    foldlM_invariant (fun _ member _ _ was added => was.add (oneLine_of_mem_lines _ member) added) (fun _ none => by cases none) given
  exact ⟨⟨body, onOneLine body held, parts⟩, checked⟩

theorem areRead_of_read (read : RuleText.read rule = .ok r) : AreRead r.parts := by
  obtain ⟨⟨body, -, found⟩, -⟩ := partsOf_of_read read
  exact areRead_partsOf found

theorem areKept_of_read (read : RuleText.read rule = .ok r) : AreKept r.parts := by
  obtain ⟨⟨body, oneLine, found⟩, -⟩ := partsOf_of_read read
  refine foldlM_invariant (fun _ member _ _ kept added => ?_) (List.forall_mem_nil _) found
  refine kept.addPart (not_mem_of_mem_splitOn member) (oneLine.of_subset fun c inside => ?_) added
  rw [← joinWith_splitOn ';' body]
  exact mem_joinWith_of_mem inside member

theorem check_of_read (read : RuleText.read rule = .ok r) : r.check = .ok () := (partsOf_of_read read).2

theorem inOrder_ne_nil_of_check (checked : r.check = .ok ()) : r.inOrder RuleKey.all ≠ [] := by
  obtain ⟨frequency, found⟩ := has_of_check checked
  exact List.ne_nil_of_mem (a := (.freq, frequency)) (mem_inOrder.mpr ⟨RuleKey.mem_all .freq, found⟩)

theorem eq_of_nodup_keys : ∀ {parts : List (RuleKey × Text)} {part other : RuleKey × Text}, (parts.map (·.1)).Nodup →
    part ∈ parts → other ∈ parts → part.1 = other.1 → part = other
  | first :: parts, part, other, nodup, member, member', same => by
    rw [List.map_cons, List.nodup_cons] at nodup
    have apart : ∀ p ∈ parts, p.1 ≠ first.1 := fun p inside same => nodup.1 (same ▸ List.mem_map_of_mem inside)
    rcases List.mem_cons.mp member with rfl | inside <;> rcases List.mem_cons.mp member' with rfl | inside'
    · rfl
    · exact absurd same.symm (apart other inside')
    · exact absurd same (apart part inside)
    · exact eq_of_nodup_keys nodup.2 inside inside' same

theorem AreRead.get?_eq_some (areRead : AreRead r.parts) {part : RuleKey × Text} (member : part ∈ r.parts) :
    r.get? part.1 = some part.2 := by
  cases found : r.get? part.1 with
  | none =>
    have absent := List.find?_eq_none.mp (Option.map_eq_none_iff.mp found) part member
    simp at absent
  | some value =>
    have other := mem_of_get? found
    have same : (part.1, value) = part := eq_of_nodup_keys areRead.nodup other member rfl
    rw [← same]

/-! ### Checks -/

/-- What comes before the last check: the parts are in order one by one. -/
structure IsChecked (r : RuleText) : Prop where
  frequency : r.has .freq = true
  interval : r.checkInterval = .ok ()
  weekdays : r.checkWeekdays = .ok ()
  months : r.checkNumbers .byMonth 12 false = .ok ()
  monthDays : r.checkNumbers .byMonthDay 31 true = .ok ()

theorem checkInterval_ne_neverInMonth : r.checkInterval ≠ .error (.inl .neverInMonth) := by
  unfold checkInterval
  split
  · nofun
  · split
    · nofun
    · split
      · nofun
      · split <;> nofun

theorem checkWeekdays_ne_neverInMonth : r.checkWeekdays ≠ .error .neverInMonth := by
  intro failed
  obtain ⟨token, -, failed⟩ := exists_of_forM_error failed
  unfold checkWeekday at failed
  split at failed
  · cases failed
  · cases failed
  · split at failed <;> cases failed

theorem checkNumbers_ne_neverInMonth {key : RuleKey} {limit : Nat} {signed : Bool} :
    r.checkNumbers key limit signed ≠ .error .neverInMonth := by
  intro failed
  obtain ⟨item, -, failed⟩ := exists_of_forM_error failed
  split at failed
  · cases failed
  · split at failed <;> cases failed

/-- The checks come to the last one if they pass or find only that the days are never in the months. -/
theorem isChecked_of_check {x : Except (RuleFlaw ⊕ Fault) Unit} (checked : r.check = x)
    (late : x = .ok () ∨ x = .error (.inl .neverInMonth)) : r.IsChecked ∧ r.checkMonthDays.mapError .inl = x := by
  -- A check on the way that failed would have been the result.
  have passes {y : Except (RuleFlaw ⊕ Fault) Unit} {rest : Unit → Except (RuleFlaw ⊕ Fault) Unit}
      (ran : (y >>= rest) = x) (other : y ≠ .error (.inl .neverInMonth)) : y = .ok () ∧ rest () = x := by
    cases y with
    | ok => exact ⟨rfl, ran⟩
    | error e =>
      obtain rfl : Except.error e = x := ran
      rcases late with late | late
      · cases late
      · exact absurd late other
  unfold check at checked
  split at checked
  · subst checked
    rcases late with late | late <;> cases late
  · rename_i named
    obtain ⟨interval, checked⟩ := passes checked checkInterval_ne_neverInMonth
    obtain ⟨weekdays, checked⟩ := passes checked (mt mapError_inl_eq_error.mp checkWeekdays_ne_neverInMonth)
    obtain ⟨months, checked⟩ := passes checked (mt mapError_inl_eq_error.mp checkNumbers_ne_neverInMonth)
    obtain ⟨monthDays, checked⟩ := passes checked (mt mapError_inl_eq_error.mp checkNumbers_ne_neverInMonth)
    exact ⟨{
      frequency := by simpa using named
      interval
      weekdays := mapError_eq_ok.mp weekdays
      months := mapError_eq_ok.mp months
      monthDays := mapError_eq_ok.mp monthDays }, checked⟩

/-! ### Plain values -/

/-- The schedule of a line that is a single word. -/
theorem read_line_of_noBlank (noBlank : ∀ part ∈ r.parts, NoBlank part.2) (upper : ∀ part ∈ r.parts, Upper part.2) :
    Recurrence.read today start (line r.body) = (Recurrence.schedule today start (line r.body)).map .single := by
  unfold Recurrence.read
  rw [(upper_line upper).upper_eq, (noBlank_line noBlank).words_eq (List.cons_ne_nil _ _)]

/-- A line that is taken apart has one colon, behind its name. -/
theorem partsText_line {s body : Text} (named : RuleSpec.partsText (line s) = .ok body) : body = s ∧ ':' ∉ s := by
  have pieces : splitOn ':' (line s) = "RRULE".toList :: splitOn ':' s :=
    splitOn_append (show ':' ∉ "RRULE".toList by decide) s
  unfold RuleSpec.partsText at named
  rw [pieces] at named
  obtain ⟨rest, more, split⟩ := List.exists_cons_of_ne_nil (splitOn_ne_nil ':' s)
  rw [split] at named
  cases more with
  | cons _ _ => cases named
  | nil =>
    have whole := joinWith_splitOn ':' s
    rw [split] at whole
    obtain rfl : rest = s := whole
    exact ⟨(Except.ok.inj named).symm, not_mem_of_splitOn_eq split⟩

/-- A part that is taken apart has one equals sign, behind its name. -/
theorem equals_of_add {spec spec' : RuleSpec} {part : RuleKey × Text} (added : spec.add today (partText part) = .ok spec') :
    '=' ∉ part.2 := by
  obtain ⟨value, others, split⟩ := List.exists_cons_of_ne_nil (splitOn_ne_nil '=' part.2)
  rw [RuleSpec.add, partText, splitOn_append (RuleKey.marks_name part.1).2.1, split] at added
  cases others with
  | nil => exact not_mem_of_splitOn_eq split
  | cons _ _ => cases added

/-- Values without blanks are plain if their line is read. -/
theorem AreRead.arePlain_of_read (areRead : AreRead r.parts) (noBlank : ∀ part ∈ r.parts, NoBlank part.2)
    (some : r.inOrder RuleKey.all ≠ []) {spec : RuleSpec} (read : RuleSpec.read today (line r.body) = .ok spec) :
    ArePlain r.parts := by
  unfold RuleSpec.read at read
  obtain ⟨body, named, read⟩ := bind_eq_ok.mp read
  obtain ⟨rfl, colon⟩ := partsText_line named
  rw [splitOn_body areRead.semicolon some] at read
  intro part member
  have listed : partText part ∈ (r.inOrder RuleKey.all).map partText :=
    List.mem_map_of_mem (mem_inOrder.mpr ⟨RuleKey.mem_all part.1, areRead.get?_eq_some member⟩)
  have within : ∀ c ∈ part.2, c ∈ r.body := fun c inside =>
    mem_joinWith_of_mem (List.mem_append_right _ (List.mem_cons_of_mem '=' inside)) listed
  obtain ⟨before, after, added⟩ := step_of_foldlM read _ listed
  exact {
    nonempty := areRead.nonempty part member
    noBlank := noBlank part member
    upper := areRead.upper part member
    semicolon := areRead.semicolon part member
    equals := equals_of_add added
    colon := fun inside => colon (within ':' inside) }

/-- Values without blanks are plain if the rule can be evaluated. -/
theorem AreRead.arePlain (areRead : AreRead r.parts) (noBlank : ∀ part ∈ r.parts, NoBlank part.2)
    (some : r.inOrder RuleKey.all ≠ []) {recurrence : Recurrence}
    (evaluated : Recurrence.read today start (line r.body) = .ok recurrence) : ArePlain r.parts := by
  rw [read_line_of_noBlank noBlank areRead.upper] at evaluated
  obtain ⟨schedule, evaluated, -⟩ := map_eq_ok.mp evaluated
  obtain ⟨spec, read, -⟩ := bind_eq_ok.mp evaluated
  exact areRead.arePlain_of_read noBlank some read

end RuleText

end Cadence
