import Cadence.Proofs.DateText.Moment
import Cadence.Proofs.Text.Ends
import Cadence.Rule.Query

/-!
# Rule texts written and read back

A rule whose values are plain - capitals without blanks and without the marks of rule text - is read back
from its text: the same parts, in the order in which they are written. Its line is a single word, which is
evaluated part by part.
-/

namespace Cadence

open Text

/-- A value that rule text passes on as it stands. -/
structure IsPlainValue (value : Text) : Prop where
  nonempty : value ≠ []
  noBlank : NoBlank value
  upper : Upper value
  semicolon : ';' ∉ value
  equals : '=' ∉ value
  colon : ':' ∉ value

theorem isPlainValue_iff {value : Text} : IsPlainValue value ↔
    value ≠ [] ∧ NoBlank value ∧ Upper value ∧ ';' ∉ value ∧ '=' ∉ value ∧ ':' ∉ value :=
  ⟨fun ⟨a, b, c, d, e, f⟩ => ⟨a, b, c, d, e, f⟩, fun ⟨a, b, c, d, e, f⟩ => ⟨a, b, c, d, e, f⟩⟩

instance (value : Text) : Decidable (IsPlainValue value) := decidable_of_iff' _ isPlainValue_iff

/-- A value that is read again as it stands, whatever blanks and marks are inside of it. -/
structure IsKeptValue (value : Text) : Prop where
  nonempty : value ≠ []
  upper : Upper value
  semicolon : ';' ∉ value
  trimmed : IsTrimmed value
  oneLine : OneLine value

theorem IsPlainValue.isKept {value : Text} (plain : IsPlainValue value) : IsKeptValue value :=
  ⟨plain.nonempty, plain.upper, plain.semicolon, plain.noBlank.isTrimmed, plain.noBlank.oneLine⟩

namespace RuleKey

theorem name_ne_nil (k : RuleKey) : k.name ≠ [] := by
  cases k <;> decide

theorem noBlank_name (k : RuleKey) : NoBlank k.name := by
  cases k <;> decide

theorem upper_name (k : RuleKey) : Upper k.name := by
  cases k <;> decide

theorem marks_name (k : RuleKey) : ';' ∉ k.name ∧ '=' ∉ k.name ∧ ':' ∉ k.name := by cases k <;> decide

theorem nodup_all : all.Nodup := by decide

end RuleKey

namespace RuleText

variable {r : RuleText} {part : RuleKey × Text} {parts : List (RuleKey × Text)}

/-! ### Parts in order -/

/-- All values are plain. -/
def ArePlain (parts : List (RuleKey × Text)) : Prop := ∀ part ∈ parts, IsPlainValue part.2

/-- All values are read again as they stand. -/
def AreKept (parts : List (RuleKey × Text)) : Prop := ∀ part ∈ parts, IsKeptValue part.2

theorem ArePlain.areKept (h : ArePlain parts) : AreKept parts := fun part hp => (h part hp).isKept

theorem ArePlain.noBlank (h : ArePlain parts) : ∀ part ∈ parts, NoBlank part.2 := fun part hp => (h part hp).noBlank

theorem ArePlain.upper (h : ArePlain parts) : ∀ part ∈ parts, Upper part.2 := fun part hp => (h part hp).upper

theorem ArePlain.semicolon (h : ArePlain parts) : ∀ part ∈ parts, ';' ∉ part.2 := fun part hp => (h part hp).semicolon

theorem mem_of_get? {key : RuleKey} {value : Text} (h : r.get? key = some value) : (key, value) ∈ r.parts := by
  simp only [get?, Option.map_eq_some_iff] at h
  obtain ⟨part, hp, rfl⟩ := h
  have hk : part.1 = key := by simpa using List.find?_some hp
  exact hk ▸ List.mem_of_find?_eq_some hp

theorem mem_inOrder {keys : List RuleKey} : part ∈ r.inOrder keys ↔ part.1 ∈ keys ∧ r.get? part.1 = some part.2 := by
  obtain ⟨key, value⟩ := part
  simp only [inOrder, List.mem_filterMap, Option.map_eq_some_iff, Prod.mk.injEq]
  constructor
  · rintro ⟨k, hk, v, hv, rfl, rfl⟩
    exact ⟨hk, hv⟩
  · rintro ⟨hk, hv⟩
    exact ⟨key, hk, value, hv, rfl, rfl⟩

theorem ArePlain.inOrder (h : ArePlain r.parts) (keys : List RuleKey) : ArePlain (r.inOrder keys) := by
  intro part hp
  exact h part (mem_of_get? (mem_inOrder.mp hp).2)

theorem AreKept.inOrder (h : AreKept r.parts) (keys : List RuleKey) : AreKept (r.inOrder keys) := by
  rintro ⟨key, value⟩ hp
  exact h _ (mem_of_get? (mem_inOrder.mp hp).2)

theorem inOrder_cons_none {key : RuleKey} (h : r.get? key = none) (keys : List RuleKey) :
    r.inOrder (key :: keys) = r.inOrder keys := List.filterMap_cons_none (by rw [h]; rfl)

theorem inOrder_cons_some {key : RuleKey} {value : Text} (h : r.get? key = some value) (keys : List RuleKey) :
    r.inOrder (key :: keys) = (key, value) :: r.inOrder keys := List.filterMap_cons_some (by rw [h]; rfl)

theorem nodup_inOrder {keys : List RuleKey} (h : keys.Nodup) : ((r.inOrder keys).map (·.1)).Nodup := by
  induction keys with
  | nil => exact List.nodup_nil
  | cons key keys ih =>
    rw [List.nodup_cons] at h
    cases hv : r.get? key with
    | none =>
      rw [inOrder_cons_none hv]
      exact ih h.2
    | some value =>
      rw [inOrder_cons_some hv, List.map_cons, List.nodup_cons]
      refine ⟨fun hmem => ?_, ih h.2⟩
      obtain ⟨part, hp, hk⟩ := List.mem_map.mp hmem
      have hk : part.1 = key := hk
      exact h.1 (hk ▸ (mem_inOrder.mp hp).1)

/-- The value of a part is found among the parts in order. -/
theorem get?_inOrder {key : RuleKey} {keys : List RuleKey} (hk : key ∈ keys) (start : Option Stamp) :
    get? { parts := r.inOrder keys, start } key = r.get? key := by
  induction keys with
  | nil => exact absurd hk List.not_mem_nil
  | cons k keys ih =>
    by_cases he : k = key
    · subst he
      cases hv : r.get? k with
      | some value =>
        rw [inOrder_cons_some hv]
        simp [get?]
      | none =>
        rw [Option.eq_none_iff_forall_ne_some]
        intro value hvalue
        rw [(mem_inOrder.mp (mem_of_get? hvalue)).2] at hv
        exact absurd hv (by simp)
    · have hk : key ∈ keys := by
        rcases List.mem_cons.mp hk with rfl | hk
        · exact absurd rfl he
        · exact hk
      rw [← ih hk]
      cases hv : r.get? k with
      | none => rw [inOrder_cons_none hv]
      | some value =>
        rw [inOrder_cons_some hv]
        simp [get?, he]

/-- The rules have the same value for every part. -/
def SameParts (r other : RuleText) : Prop := ∀ key, r.get? key = other.get? key

theorem sameParts_inOrder (r : RuleText) (start : Option Stamp) :
    SameParts { parts := r.inOrder RuleKey.all, start } r := fun key => get?_inOrder (RuleKey.mem_all key) start

section Same
variable {other : RuleText} (h : SameParts r other)
include h

theorem SameParts.inOrder_eq (keys : List RuleKey) : r.inOrder keys = other.inOrder keys := by
  unfold inOrder
  congr 1
  funext key
  rw [h key]

theorem SameParts.body_eq : r.body = other.body := by
  unfold body
  rw [h.inOrder_eq]

theorem SameParts.has_eq (key : RuleKey) : r.has key = other.has key := by
  unfold has
  rw [h key]

theorem SameParts.value_eq (key : RuleKey) : r.value key = other.value key := by
  unfold value
  rw [h key]

theorem SameParts.weekdays_eq : r.weekdays = other.weekdays := by
  unfold weekdays
  rw [h.value_eq]

theorem SameParts.integers_eq (key : RuleKey) : r.integers key = other.integers key := by
  unfold integers
  rw [h.value_eq]

theorem SameParts.interval_eq : r.interval = other.interval := by
  unfold interval
  rw [h .interval]

theorem SameParts.check_eq : r.check = other.check := by
  unfold check checkInterval checkWeekdays checkNumbers checkMonthDays
  simp only [h.has_eq, h .interval, h.value_eq, h.integers_eq]

end Same

/-! ### The text of a rule -/

section Kept
variable (h : IsKeptValue part.2)
include h

theorem isTrimmed_partText : IsTrimmed (partText part) :=
  (RuleKey.noBlank_name part.1).isTrimmed.joined h.trimmed (RuleKey.name_ne_nil part.1) h.nonempty ['=']

/-- A written part is read as one more part. -/
theorem addPart_partText (hnew : part.1 ∉ parts.map (·.1)) : addPart parts (partText part) = .ok (parts ++ [part]) := by
  have hname := RuleKey.noBlank_name part.1
  have hne : partText part ≠ [] := by simp [partText]
  have hnew : ¬ parts.any (·.1 = part.1) = true := by
    rw [List.any_eq_true]
    rintro ⟨p, hp, hk⟩
    exact hnew (List.mem_map.mpr ⟨p, hp, of_decide_eq_true hk⟩)
  unfold addPart
  rw [(isTrimmed_partText h).trim_eq, if_neg (by simpa using hne), partText,
    cut?_append (RuleKey.marks_name part.1).2.1]
  simp only [hname.trim_eq, (RuleKey.upper_name part.1).upper_eq, h.trimmed.trim_eq, h.upper.upper_eq, List.isEmpty_iff,
    h.nonempty, Bool.false_eq_true, if_false, RuleKey.ofName?_name, hnew]

end Kept

theorem foldlM_addPart : ∀ {more parts : List (RuleKey × Text)}, AreKept more → ((parts ++ more).map (·.1)).Nodup →
    (more.map partText).foldlM addPart parts = .ok (parts ++ more)
  | [], parts, _, _ => by simp [pure, Except.pure]
  | part :: more, parts, hkept, hnodup => by
    have hnew : part.1 ∉ parts.map (·.1) := by
      rw [List.map_append, List.nodup_append] at hnodup
      intro hp
      exact hnodup.2.2 _ hp _ (by simp) rfl
    rw [List.map_cons, List.foldlM_cons, addPart_partText (hkept part List.mem_cons_self) hnew]
    have hnodup : ((parts ++ [part] ++ more).map (·.1)).Nodup := by simpa using hnodup
    have := foldlM_addPart (fun p hp => hkept p (List.mem_cons_of_mem part hp)) hnodup
    rw [List.append_assoc, List.singleton_append] at this
    exact this

/-- What holds of the marks between parts, and in their names and values, holds of all that is written of them. -/
theorem forall_mem_parts {holds : Char → Prop} (semicolon : holds ';') (equals : holds '=')
    (name : ∀ key : RuleKey, ∀ c ∈ key.name, holds c) (value : ∀ part ∈ parts, ∀ c ∈ part.2, holds c) :
    ∀ c ∈ joinWith [';'] (parts.map partText), holds c := by
  intro c hc
  rcases mem_joinWith hc with rfl | ⟨p, hp, hc⟩
  · exact semicolon
  · obtain ⟨part, hpart, rfl⟩ := List.mem_map.mp hp
    rcases List.mem_append.mp hc with hname | hc
    · exact name part.1 c hname
    · rcases List.mem_cons.mp hc with rfl | hvalue
      · exact equals
      · exact value part hpart c hvalue

theorem noBlank_parts (h : ∀ part ∈ parts, NoBlank part.2) : NoBlank (joinWith [';'] (parts.map partText)) :=
  forall_mem_parts (by decide) (by decide) RuleKey.noBlank_name h

theorem colon_parts (h : ArePlain parts) : ':' ∉ joinWith [';'] (parts.map partText) := by
  have apart : ∀ c ∈ joinWith [';'] (parts.map partText), ':' ≠ c :=
    forall_mem_parts (by decide) (by decide) (fun key _ hname same => (RuleKey.marks_name key).2.2 (same ▸ hname))
      fun part hp _ hvalue same => (h part hp).colon (same ▸ hvalue)
  exact fun hc => apart ':' hc rfl

theorem splitOn_parts (h : ∀ part ∈ parts, ';' ∉ part.2) (hne : parts ≠ []) :
    splitOn ';' (joinWith [';'] (parts.map partText)) = parts.map partText := by
  rw [splitOn_joinWith (by simpa using hne)]
  intro p hp
  obtain ⟨part, hpart, rfl⟩ := List.mem_map.mp hp
  simp [partText, (RuleKey.marks_name part.1).1, h part hpart]

theorem forall_inOrder {holds : Text → Prop} (h : ∀ part ∈ r.parts, holds part.2) (keys : List RuleKey) :
    ∀ part ∈ r.inOrder keys, holds part.2 := fun part hp => h part (mem_of_get? (mem_inOrder.mp hp).2)

theorem noBlank_body (h : ∀ part ∈ r.parts, NoBlank part.2) : NoBlank r.body := noBlank_parts (forall_inOrder h _)

theorem upper_body (h : ∀ part ∈ r.parts, Upper part.2) : Upper r.body :=
  forall_mem_parts (by decide) (by decide) RuleKey.upper_name (forall_inOrder h _)

theorem splitOn_body (h : ∀ part ∈ r.parts, ';' ∉ part.2) (hne : r.inOrder RuleKey.all ≠ []) :
    splitOn ';' r.body = (r.inOrder RuleKey.all).map partText :=
  splitOn_parts (fun part hp => h part (mem_of_get? (mem_inOrder.mp hp).2)) hne

theorem noBlank_line (h : ∀ part ∈ r.parts, NoBlank part.2) : NoBlank (line r.body) := by
  have : NoBlank "RRULE:".toList := by decide
  exact this.append (noBlank_body h)

theorem upper_line (h : ∀ part ∈ r.parts, Upper part.2) : Upper (line r.body) := by
  have : Upper "RRULE:".toList := by decide
  exact this.append (upper_body h)

theorem colon_body (h : ArePlain r.parts) : ':' ∉ r.body := colon_parts (h.inOrder _)

section Body
variable (h : AreKept r.parts)
include h

theorem partsOf_body (hne : r.inOrder RuleKey.all ≠ []) : partsOf r.body = .ok (r.inOrder RuleKey.all) := by
  rw [partsOf, splitOn_body (fun part hp => (h part hp).semicolon) hne]
  exact foldlM_addPart (h.inOrder _) (nodup_inOrder RuleKey.nodup_all)

/-- The line of a rule has no blanks at its ends. -/
theorem isTrimmed_line (hne : r.inOrder RuleKey.all ≠ []) : IsTrimmed (line r.body) := by
  have hpieces : ∀ p ∈ (r.inOrder RuleKey.all).map partText, IsTrimmed p ∧ p ≠ [] := by
    intro p hp
    obtain ⟨part, hpart, rfl⟩ := List.mem_map.mp hp
    exact ⟨isTrimmed_partText (h.inOrder _ part hpart), by simp [partText]⟩
  have hname : NoBlank "RRULE:".toList := by decide
  obtain ⟨part, more, hparts⟩ := List.exists_cons_of_ne_nil hne
  have hbody : r.body ≠ [] := by
    intro hnil
    rw [body, hparts, List.map_cons] at hnil
    have hmark : '=' ∈ joinWith [';'] (partText part :: more.map partText) :=
      mem_joinWith_of_mem (by simp [partText]) List.mem_cons_self
    rw [hnil] at hmark
    cases hmark
  exact hname.isTrimmed.joined (isTrimmed_joinWith hpieces) (List.cons_ne_nil _ _) hbody []

theorem oneLine_line : OneLine (line r.body) := by
  have hname : NoBlank "RRULE:".toList := by decide
  exact hname.oneLine.append (forall_mem_parts (by decide) (by decide) (fun key => (RuleKey.noBlank_name key).oneLine)
    (forall_inOrder (fun part hp => (h part hp).oneLine) _))

end Body

/-- The text of a rule with a frequency begins with it. -/
theorem body_eq_freq {frequency : Text} (h : r.get? .freq = some frequency) :
    ∃ rest, r.body = "FREQ=".toList ++ rest := by
  have hall : r.inOrder RuleKey.all = (.freq, frequency) :: r.inOrder RuleKey.all.tail :=
    inOrder_cons_some h RuleKey.all.tail
  have hfreq : partText (RuleKey.freq, frequency) = "FREQ=".toList ++ frequency := rfl
  rw [body, hall, List.map_cons, hfreq]
  cases (r.inOrder RuleKey.all.tail).map partText with
  | nil => exact ⟨frequency, rfl⟩
  | cons p more => exact ⟨_, by rw [joinWith_cons_cons, List.append_assoc, List.append_assoc]⟩

theorem has_of_check (h : r.check = .ok ()) : ∃ frequency, r.get? .freq = some frequency := by
  unfold check at h
  cases hf : r.get? .freq with
  | some frequency => exact ⟨frequency, rfl⟩
  | none => simp [has, hf, throw, throwThe, MonadExceptOf.throw, bind, Except.bind] at h

/-! ### Reading -/

/-- A moment in rule text is a local time of whole seconds. -/
theorem plain_of_moment {value : Text} {s : Stamp} (written : moment value = .ok s) : s.plain = s := by
  unfold moment at written
  split at written
  · rename_i read
    cases written
    exact Compact.plain_of_read? read
  · cases written

theorem zone_of_moment {value : Text} {s : Stamp} (written : moment value = .ok s) : s.zone = none := by
  rw [← plain_of_moment written]
  rfl

/-- The lines of a rule text, if they give one rule, are read to it. -/
theorem parse_of_lines {s body : Text} {start : Option Stamp} (hne : trim s ≠ [])
    (hlines : (Text.lines (trim s)).foldlM Lines.add {} = .ok { body := some body, start })
    (hparts : partsOf body = .ok parts) (hcheck : check { parts, start } = .ok ()) :
    parse s = .ok { parts, start } := by
  unfold parse
  rw [if_neg (by simpa using hne), hlines]
  show (partsOf body).mapError _ >>= _ = _
  rw [hparts]
  show (check _ >>= fun _ => _) = _
  rw [hcheck]
  rfl

section Read
variable (h : ArePlain r.parts) (hcheck : r.check = .ok ())
include h hcheck

theorem add_body (l : Lines) (hl : l.body = none) : Lines.add l r.body = .ok { l with body := some r.body } := by
  obtain ⟨frequency, hfreq⟩ := has_of_check hcheck
  obtain ⟨rest, hbody⟩ := body_eq_freq hfreq
  have hne : r.body ≠ [] := by simp [hbody]
  have hnot : ∀ lead, startsWith ('D' :: lead) r.body = false ∧ startsWith ('R' :: lead) r.body = false := by
    intro lead
    rw [hbody]
    exact ⟨startsWith_of_ne (by decide) _, startsWith_of_ne (by decide) _⟩
  have heq : r.body.contains '=' = true := by simp [hbody]
  have hcolon : r.body.contains ':' = false := by simpa using colon_body h
  unfold Lines.add
  rw [(noBlank_body h.noBlank).trim_eq]
  simp only [(upper_body h.upper).upper_eq, List.isEmpty_iff, hne, if_false, show "DTSTART".toList = 'D' :: "TSTART".toList from rfl, (hnot _).1,
    show "RRULE:".toList = 'R' :: "RULE:".toList from rfl, (hnot _).2, heq, hcolon, Bool.false_eq_true, not_false_eq_true,
    and_self, if_true, Lines.addBody, hl, Option.isSome_none]

/-- The text of a plain rule that passes the checks is read to its parts in order. -/
theorem read_body : RuleText.read (.text r.body) = .ok { parts := r.inOrder RuleKey.all } := by
  obtain ⟨frequency, hfreq⟩ := has_of_check hcheck
  obtain ⟨rest, hbody⟩ := body_eq_freq hfreq
  have hne : r.body ≠ [] := by simp [hbody]
  have hparts : r.inOrder RuleKey.all ≠ [] := List.ne_nil_of_mem (a := (.freq, frequency))
    (mem_inOrder.mpr ⟨RuleKey.mem_all .freq, hfreq⟩)
  have hb := noBlank_body h.noBlank
  have hparse : parse r.body = .ok { parts := r.inOrder RuleKey.all } := by
    refine parse_of_lines (by rwa [hb.trim_eq]) ?_ (partsOf_body h.areKept hparts) ?_
    · rw [hb.trim_eq, hb.lines_eq hne, List.foldlM_cons, add_body h hcheck _ rfl]
      rfl
    · rw [(sameParts_inOrder r none).check_eq, hcheck]
  rw [RuleText.read, hparse]

end Read

theorem noBlank_start (start : Stamp) : NoBlank ("DTSTART:".toList ++ Compact.text start) := by
  have : NoBlank "DTSTART:".toList := by decide
  exact this.append (Compact.noBlank_text start)

theorem add_start (start : Stamp) (l : Lines) : Lines.add l ("DTSTART:".toList ++ Compact.text start) =
    (moment (Compact.text start)).map fun read => { l with start := some read } := by
  have hupper : Upper ("DTSTART:".toList ++ Compact.text start) := by
    have : Upper "DTSTART:".toList := by decide
    exact this.append (Compact.upper_text start)
  have hafter : afterLast ':' ("DTSTART:".toList ++ Compact.text start) = Compact.text start :=
    afterLast_append (Compact.not_mem_text start (by decide) (by decide)) "DTSTART".toList
  have hstarts : startsWith "DTSTART".toList ("DTSTART:".toList ++ Compact.text start) = true :=
    startsWith_append "DTSTART".toList (':' :: Compact.text start)
  have hne : ("DTSTART:".toList ++ Compact.text start).isEmpty = false := rfl
  unfold Lines.add
  rw [(noBlank_start start).trim_eq]
  simp only [hupper.upper_eq, hstarts, hne, if_true, Bool.false_eq_true, if_false, hafter]

section Anchored
variable (h : AreKept r.parts) (hcheck : r.check = .ok ())
include h hcheck

theorem add_line (l : Lines) (hl : l.body = none) : Lines.add l (line r.body) = .ok { l with body := some r.body } := by
  obtain ⟨frequency, hfreq⟩ := has_of_check hcheck
  have hparts : r.inOrder RuleKey.all ≠ [] := List.ne_nil_of_mem (a := (.freq, frequency))
    (mem_inOrder.mpr ⟨RuleKey.mem_all .freq, hfreq⟩)
  have hupper := upper_line fun part hp => (h part hp).upper
  have hnot : startsWith "DTSTART".toList (line r.body) = false := startsWith_of_ne (by decide) _
  have hstarts : startsWith "RRULE:".toList (line r.body) = true := startsWith_append "RRULE:".toList r.body
  have hne : (line r.body).isEmpty = false := rfl
  have hdrop : (line r.body).drop 6 = r.body := rfl
  unfold Lines.add
  rw [(isTrimmed_line h hparts).trim_eq]
  simp only [hupper.upper_eq, hnot, hstarts, hne, hdrop, if_true, Bool.false_eq_true, if_false, Lines.addBody, hl,
    Option.isSome_none]

/-- The text of a rule with its start in front has a line for each. -/
theorem lines_anchored (start : Stamp) : Text.lines (trim (anchoredText start r.body)) =
    ["DTSTART:".toList ++ Compact.text start, line r.body] ∧ trim (anchoredText start r.body) ≠ [] := by
  obtain ⟨frequency, hfreq⟩ := has_of_check hcheck
  have hparts : r.inOrder RuleKey.all ≠ [] := List.ne_nil_of_mem (a := (.freq, frequency))
    (mem_inOrder.mpr ⟨RuleKey.mem_all .freq, hfreq⟩)
  obtain ⟨first, htext, hfirst, hne, heq⟩ : ∃ first, anchoredText start r.body = first ++ '\n' :: line r.body ∧
      NoBlank first ∧ first ≠ [] ∧ "DTSTART:".toList ++ Compact.text start = first :=
    ⟨_, rfl, noBlank_start start, List.cons_ne_nil _ _, rfl⟩
  have hlast_ne : line r.body ≠ [] := List.cons_ne_nil _ _
  have htrim : trim (first ++ '\n' :: line r.body) = first ++ '\n' :: line r.body :=
    (hfirst.isTrimmed.joined (isTrimmed_line h hparts) hne hlast_ne ['\n']).trim_eq
  rw [htext, htrim, heq, hfirst.oneLine.lines_pair (oneLine_line h) hlast_ne]
  exact ⟨rfl, by simp⟩

/-- The text of a rule with its start in front is read to both, if the start is. -/
theorem read_anchored_of_moment {start read : Stamp} (written : moment (Compact.text start) = .ok read) :
    RuleText.read (.text (anchoredText start r.body)) =
      .ok { parts := r.inOrder RuleKey.all, start := some read } := by
  obtain ⟨frequency, hfreq⟩ := has_of_check hcheck
  have hparts : r.inOrder RuleKey.all ≠ [] := List.ne_nil_of_mem (a := (.freq, frequency))
    (mem_inOrder.mpr ⟨RuleKey.mem_all .freq, hfreq⟩)
  obtain ⟨hlines, hne⟩ := lines_anchored h hcheck start
  have hparse : parse (anchoredText start r.body) = .ok { parts := r.inOrder RuleKey.all, start := some read } := by
    refine parse_of_lines hne ?_ (partsOf_body h hparts) ?_
    · rw [hlines, List.foldlM_cons, add_start, written]
      exact congrArg (· >>= pure) (add_line h hcheck _ rfl)
    · rw [(sameParts_inOrder r _).check_eq, hcheck]
  rw [RuleText.read, hparse]

/-- A start that is not read makes the text no rule. -/
theorem moment_of_read_anchored {start : Stamp} {r' : RuleText}
    (found : RuleText.read (.text (anchoredText start r.body)) = .ok r') : ∃ read, moment (Compact.text start) = .ok read := by
  obtain ⟨hlines, hne⟩ := lines_anchored h hcheck start
  cases written : moment (Compact.text start) with
  | ok read => exact ⟨read, rfl⟩
  | error flaw =>
    have hparse : parse (anchoredText start r.body) = .error (.inl flaw) := by
      unfold parse
      rw [if_neg (by simpa using hne), hlines, List.foldlM_cons, add_start, written]
      rfl
    rw [RuleText.read, hparse] at found
    cases found

/-- A start in a year of four digits is read as it is written. -/
theorem read_anchored {start : Stamp} (hy : 1000 ≤ start.day.year) :
    RuleText.read (.text (anchoredText start r.body)) =
      .ok { parts := r.inOrder RuleKey.all, start := some start.plain } := by
  refine read_anchored_of_moment h hcheck ?_
  rw [moment, Compact.read?_text hy]

end Anchored

end RuleText

end Cadence
