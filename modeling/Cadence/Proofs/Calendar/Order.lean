import Cadence.Calendar.Stamp
import Cadence.Proofs.Calendar.Interval
import Cadence.Rule.Build

/-!
# The order of timestamps

Timestamps of one zone are in the order of their days and, on one day, of their times. The last second of
a day is before no time of whole seconds of that day.
-/

namespace Cadence

theorem Clock.micros_lt (c : Clock) : c.micros < Clock.microsPerDay := by
  obtain ⟨hh, hm, hs, hu⟩ := c.valid
  unfold Clock.micros Clock.microsPerDay
  omega

theorem Clock.eq_of_micros {a b : Clock} (same : a.micros = b.micros) : a = b := by
  obtain ⟨hour, minute, second, micro, valid⟩ := a
  obtain ⟨hour', minute', second', micro', valid'⟩ := b
  have bounds := valid
  have bounds' := valid'
  unfold IsTime at bounds bounds'
  simp only [micros] at same
  obtain rfl : hour = hour' := by omega
  obtain rfl : minute = minute' := by omega
  obtain rfl : second = second' := by omega
  obtain rfl : micro = micro' := by omega
  rfl

theorem Clock.micros_ofMicros {n : Nat} (within : n < 86400000000) : (Clock.ofMicros n).micros = n := by
  simp only [Clock.ofMicros, Clock.micros]
  omega

/-- No time of whole seconds is later on a day than its last second. -/
theorem Clock.micros_le_lastSecond {c : Clock} (whole : c.micro = 0) : c.micros ≤ Clock.lastSecond.micros := by
  obtain ⟨hour, minute, second, -⟩ := c.valid
  simp only [Clock.micros, Clock.lastSecond, whole]
  omega

/-- The last microsecond of a day. -/
def Clock.lastMicro : Clock := ⟨23, 59, 59, 999999, by decide⟩

/-- No time of a day is later than its last microsecond. -/
theorem Clock.micros_le_lastMicro (c : Clock) : c.micros ≤ Clock.lastMicro.micros := by
  obtain ⟨hour, minute, second, micro⟩ := c.valid
  simp only [Clock.micros, Clock.lastMicro]
  omega

namespace Stamp

variable {a b s : Stamp}

theorem before_iff (h : a.zone = b.zone) : a.before b = true ↔
    a.day.ordinal < b.day.ordinal ∨ a.day.ordinal = b.day.ordinal ∧ a.clock.micros < b.clock.micros := by
  have ha := a.clock.micros_lt
  have hb := b.clock.micros_lt
  simp only [before, instant, ticks, h, decide_eq_true_eq]
  unfold Clock.microsPerDay at ha hb ⊢
  omega

/-- At one time of day, days decide. -/
theorem before_iff_of_clock (hz : a.zone = b.zone) (hc : a.clock = b.clock) :
    a.before b = true ↔ a.day.ordinal < b.day.ordinal := by
  rw [before_iff hz, hc]
  omega

/-- The timestamp comes before the other on the calendar and the clock. -/
def Precedes (a b : Stamp) : Prop := a.ticks < b.ticks

instance (a b : Stamp) : Decidable (a.Precedes b) := by unfold Precedes; infer_instance

theorem Precedes.trans {c : Stamp} (h : a.Precedes b) (h' : b.Precedes c) : a.Precedes c := Int.lt_trans h h'

theorem Precedes.day_le (h : a.Precedes b) : a.day.ordinal ≤ b.day.ordinal := by
  have ha := a.clock.micros_lt
  have hb := b.clock.micros_lt
  unfold Clock.microsPerDay at ha hb
  simp only [Precedes, ticks, Clock.microsPerDay] at h
  omega

/-- In one zone the order of the calendar and the clock is that of the instants. -/
theorem before_iff_precedes (zone : a.zone = b.zone) : a.before b = true ↔ a.Precedes b := by
  simp only [before, instant, zone, decide_eq_true_eq, Precedes]
  omega

theorem eq_of_ticks (zone : a.zone = b.zone) (same : a.ticks = b.ticks) : a = b := by
  have ha := a.clock.micros_lt
  have hb := b.clock.micros_lt
  unfold Clock.microsPerDay at ha hb
  simp only [ticks, Clock.microsPerDay] at same
  have day : a.day = b.day := Day.eq_of_ordinal (by omega)
  have clock : a.clock = b.clock := Clock.eq_of_micros (by omega)
  obtain ⟨day, clock, zone⟩ := a
  obtain ⟨day', clock', zone'⟩ := b
  simp only at day clock zone
  rw [day, clock, zone]

theorem before_irrefl (s : Stamp) : s.before s = false := by simp [before]

theorem before_or_not_before (a b : Stamp) : (a.before b || ! b.before a) = ! b.before a := by
  unfold before
  rw [Bool.eq_iff_iff, Bool.or_eq_true, Bool.not_eq_true', decide_eq_true_eq, decide_eq_false_iff_not]
  omega

/-! ### The start and the end of a day -/

/-- The last second of a day. -/
def dayClose (s : Stamp) : Stamp := { s with clock := .lastSecond }

/-- The last microsecond of a day. -/
def dayLast (s : Stamp) : Stamp := { s with clock := .lastMicro }

/-- After the last microsecond of a day come the times of later days. -/
theorem dayLast_before_iff (zone : a.zone = b.zone) : a.dayLast.before b = true ↔ a.day.ordinal < b.day.ordinal := by
  have latest := b.clock.micros_le_lastMicro
  rw [before_iff (show a.dayLast.zone = b.zone from zone)]
  show a.day.ordinal < b.day.ordinal ∨ a.day.ordinal = b.day.ordinal ∧ Clock.lastMicro.micros < b.clock.micros ↔ _
  omega

/-- Before the start of a day come the times of earlier days. -/
theorem before_startOfDay_iff (zone : a.zone = b.zone) : a.before b.startOfDay = true ↔ a.day.ordinal < b.day.ordinal := by
  have earliest : Clock.midnight.micros ≤ a.clock.micros := Nat.zero_le a.clock.micros
  rw [before_iff (show a.zone = b.startOfDay.zone from zone)]
  show a.day.ordinal < b.day.ordinal ∨ a.day.ordinal = b.day.ordinal ∧ a.clock.micros < Clock.midnight.micros ↔ _
  omega

theorem wholeSecond_eq_self (whole : s.clock.micro = 0) : s.wholeSecond = s := by
  obtain ⟨day, ⟨hour, minute, second, micro, valid⟩, zone⟩ := s
  subst whole
  rfl

/-- After the last second of a day come the times of later days, if they are whole seconds. -/
theorem dayClose_before_iff (zone : a.zone = b.zone) (whole : b.clock.micro = 0) :
    a.dayClose.before b = true ↔ a.day.ordinal < b.day.ordinal := by
  have latest := Clock.micros_le_lastSecond whole
  rw [before_iff (show a.dayClose.zone = b.zone from zone)]
  show a.day.ordinal < b.day.ordinal ∨ a.day.ordinal = b.day.ordinal ∧ Clock.lastSecond.micros < b.clock.micros ↔ _
  omega

/-- A timestamp is found again by its ticks, in any zone. -/
theorem ofTicks?_ticks (s : Stamp) (zone : Option Int) : ofTicks? s.ticks zone = some { s with zone } := by
  have within := s.clock.micros_lt
  unfold Clock.microsPerDay at within
  have ticks : s.ticks = ((s.day.ordinal * 86400000000 + s.clock.micros : Nat) : Int) := by
    simp only [Stamp.ticks, Clock.microsPerDay]
    omega
  rw [ofTicks?, ticks, if_neg (by omega), Int.toNat_natCast, Clock.microsPerDay,
    show (s.day.ordinal * 86400000000 + s.clock.micros) / 86400000000 = s.day.ordinal by omega, Day.ofOrdinal?_ordinal,
    show (s.day.ordinal * 86400000000 + s.clock.micros) % 86400000000 = s.clock.micros by omega]
  have clock : Clock.ofMicros s.clock.micros = s.clock := Clock.eq_of_micros (Clock.micros_ofMicros within)
  rw [Option.map_some, clock]

theorem ofTicks?_dayEnd (d : Day) (zone : Option Int) :
    ofTicks? ((d.ordinal : Int) * 86400000000 + 86399999999) zone = some { day := d, clock := .lastMicro, zone } := by
  have last : ticks { day := d, clock := .lastMicro } = (d.ordinal : Int) * 86400000000 + 86399999999 := by
    simp only [ticks, Clock.lastMicro, Clock.micros, Clock.microsPerDay]
    omega
  rw [← last, ofTicks?_ticks]

/-- The last microsecond of a day that is not the last one of the calendar. -/
theorem endOfDay?_eq (s : Stamp) : s.endOfDay? =
    if s.day.ordinal < Day.lastOrdinal then some s.dayLast else none := by
  cases following : s.day.addDays? 1 with
  | none =>
    have last := Day.addDays?_eq_none (by decide) following
    have outside : ¬ s.day.ordinal < Day.lastOrdinal := by omega
    rw [if_neg outside]
    simp only [endOfDay?, addDays?, startOfDay, following, Option.map_none, Option.bind_eq_bind, Option.bind_none]
  | some next =>
    have number := Day.addDays?_eq_some.mp following
    have nextLe := next.ordinal_le_last
    have ticksBefore : ticks { s with day := next, clock := .midnight } + -1 =
        (s.day.ordinal : Int) * 86400000000 + 86399999999 := by
      simp only [ticks, Clock.midnight, Clock.micros, Clock.microsPerDay]
      omega
    have inside : s.day.ordinal < Day.lastOrdinal := by omega
    rw [if_pos inside]
    have forward : s.startOfDay.addDays? 1 = some { s with day := next, clock := .midnight } := by
      rw [addDays?, show s.startOfDay.day.addDays? 1 = some next from following]
      rfl
    rw [endOfDay?, forward, Option.bind_eq_bind, Option.bind_some, addMicros?, ticksBefore, ofTicks?_dayEnd]
    rfl

theorem dayEnd_eq (s : Stamp) : dayEnd s =
    if s.day.ordinal < Day.lastOrdinal then .ok s.dayLast else .error (.fault .range) := by
  rw [dayEnd, endOfDay?_eq]
  split <;> rfl

theorem lastSecond_eq (s : Stamp) : RuleFields.lastSecond s =
    if s.day.ordinal < Day.lastOrdinal then .ok s.dayClose else .error (.fault .range) := by
  rw [RuleFields.lastSecond, dayEnd_eq]
  split <;> rfl

end Stamp

end Cadence
