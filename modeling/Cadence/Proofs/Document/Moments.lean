import Cadence.Document.Event
import Cadence.Proofs.DateText.Iso
import Cadence.Proofs.DateText.Numbers
import Cadence.Proofs.DateText.Words
import Cadence.Proofs.Rule.Reading

/-!
# Moments in documents

A document writes its start, and the end of its rule, in digits with the letter of universal time behind. What is
written so is read as the timestamp again, both as a moment of a document and as the end of a rule. Besides, an end in
any of the forms that rules have for it, a date, a date and time, or a date and time at universal time, means the same
to the writer of documents and where the rule is evaluated.
-/

namespace Cadence

open Text

namespace Text

theorem quad_digitsValue : ∀ {digits : List Nat}, AreDigits digits → digits.length = 4 → quad (digitsValue digits) = digits
  | [a, b, c, d], h, _ => by
    have ha := h a (by simp)
    have hb := h b (by simp)
    have hc := h c (by simp)
    have hd := h d (by simp)
    simp only [quad, digitsValue, List.foldl_cons, List.foldl_nil, List.cons.injEq, and_true]
    omega

theorem pair_digitsValue : ∀ {digits : List Nat}, AreDigits digits → digits.length = 2 → pair (digitsValue digits) = digits
  | [a, b], h, _ => by
    have ha := h a (by simp)
    have hb := h b (by simp)
    simp only [pair, digitsValue, List.foldl_cons, List.foldl_nil, List.cons.injEq, and_true]
    omega

theorem AreDigits.drop_take {digits : List Nat} (h : AreDigits digits) (first size : Nat) :
    AreDigits ((digits.drop first).take size) :=
  fun d member => h d (List.mem_of_mem_drop (List.mem_of_mem_take member))

end Text

namespace Document

/-! ### Numbers at their places -/

theorem numberIn?_row {digits : List Nat} (h : AreDigits digits) (rest : Text) {first size : Nat}
    (within : first + size ≤ digits.length) (some : 0 < size) (few : size ≤ maxDigits) :
    numberIn? (row digits ++ rest) first size = .some (digitsValue ((digits.drop first).take size)) := by
  have cut : ((row digits ++ rest).drop first).take size = row ((digits.drop first).take size) := by
    rw [List.drop_append_of_le_length (by simp [row]; omega), List.take_append_of_le_length (by simp [row]; omega), row, row,
      List.map_take, List.map_drop]
  have length : ((digits.drop first).take size).length = size := by simp; omega
  have nonempty : (digits.drop first).take size ≠ [] := List.ne_nil_of_length_pos (by omega)
  rw [numberIn?, cut, readInt?_row (h.drop_take first size), readNat?_row (h.drop_take first size) nonempty, if_pos (by omega)]
  rfl

theorem numberIn?_append (s t : Text) (first size : Nat) : numberIn? (s ++ t) (s.length + first) size = numberIn? t first size := by
  rw [numberIn?, numberIn?, List.drop_append, List.drop_eq_nil_of_le (Nat.le_add_right _ _), List.nil_append, Nat.add_sub_cancel_left]

/-- There is no slash in a row of digits. -/
theorem slash_row {digits : List Nat} (h : AreDigits digits) : '/' ∉ row digits := by
  have apart : ∀ d < 10, '/' ≠ Nat.digitChar d := by decide
  intro member
  obtain ⟨d, digit, same⟩ := mem_row h member
  exact apart d digit same

/-- The timestamp whose day and time have the given digits, if there is one. -/
def ofDigits? (date time : List Nat) : Option Stamp :=
  Stamp.of? (digitsValue ((date.drop 0).take 4)) (digitsValue ((date.drop 4).take 2)) (digitsValue ((date.drop 6).take 2))
    (digitsValue ((time.drop 0).take 2)) (digitsValue ((time.drop 2).take 2)) (digitsValue ((time.drop 4).take 2)) 0

section Rows
variable {date time : List Nat} (hd : AreDigits date) (ht : AreDigits time) (eight : date.length = 8) (six : time.length = 6)

include hd eight in
theorem finish?_date : finish? (row date) = ofDigits? date Clock.midnight.digits := by
  have number (first size : Nat) (within : first + size ≤ date.length) (some : 0 < size) (few : size ≤ maxDigits) :=
    List.append_nil (row date) ▸ numberIn?_row hd [] within some few
  have slash : (row date).contains '/' = false := by simpa using slash_row hd
  have length : (row date).length = 8 := by simp [row, eight]
  rw [finish?, number 0 4 (by omega) (by decide) (by decide), number 4 2 (by omega) (by decide) (by decide),
    number 6 2 (by omega) (by decide) (by decide), slash, length]
  rfl

include hd ht eight six in
theorem finish?_moment {rest : Text} (letter : rest = [] ∨ rest = ['Z']) :
    finish? (row date ++ 'T' :: (row time ++ rest)) = ofDigits? date time := by
  have day (first size : Nat) (within : first + size ≤ date.length) (some : 0 < size) (few : size ≤ maxDigits) :=
    numberIn?_row hd ('T' :: (row time ++ rest)) within some few
  have clock (first size : Nat) (within : first + size ≤ time.length) (some : 0 < size) (few : size ≤ maxDigits) :
      numberIn? (row date ++ 'T' :: (row time ++ rest)) (9 + first) size = .some (digitsValue ((time.drop first).take size)) := by
    have before : (row date ++ ['T']).length = 9 := by simp [row, eight]
    have after := numberIn?_append (row date ++ ['T']) (row time ++ rest) first size
    rw [before, List.append_assoc] at after
    exact after.trans (numberIn?_row ht rest within some few)
  have slash : (row date ++ 'T' :: (row time ++ rest)).contains '/' = false := by
    rcases letter with rfl | rfl <;> simp [slash_row hd, slash_row ht]
  have length : (row date ++ 'T' :: (row time ++ rest)).length = 15 + rest.length := by simp [row, eight, six]; omega
  have last : rest = ['Z'] → (row date ++ 'T' :: (row time ++ rest))[15]? = some 'Z' := by
    rintro rfl
    have before : (row date ++ 'T' :: row time).length = 15 := by simp [row, eight, six]
    rw [show row date ++ 'T' :: (row time ++ ['Z']) = (row date ++ 'T' :: row time) ++ ['Z'] by simp, ← before]
    exact List.getElem?_concat_length
  have form : 15 + rest.length = 15 ∨ (15 + rest.length = 16 ∧ (row date ++ 'T' :: (row time ++ rest))[15]? = some 'Z') := by
    rcases letter with rfl | rfl
    · exact .inl rfl
    · exact .inr ⟨rfl, last rfl⟩
  rw [finish?, day 0 4 (by omega) (by decide) (by decide), day 4 2 (by omega) (by decide) (by decide),
    day 6 2 (by omega) (by decide) (by decide), slash, length]
  simp only [Option.bind_eq_bind, Option.bind_some, Bool.false_eq_true, if_false, if_neg (show ¬ 15 + rest.length = 8 by omega), if_pos form,
    clock 0 2 (by omega) (by decide) (by decide), clock 2 2 (by omega) (by decide) (by decide),
    clock 4 2 (by omega) (by decide) (by decide)]
  rfl

end Rows

theorem eight_eq : ∀ {digits : List Nat}, digits.length = 8 →
    (digits.drop 0).take 4 ++ ((digits.drop 4).take 2 ++ (digits.drop 6).take 2) = digits
  | [_, _, _, _, _, _, _, _], _ => rfl

theorem six_eq : ∀ {digits : List Nat}, digits.length = 6 →
    (digits.drop 0).take 2 ++ ((digits.drop 2).take 2 ++ (digits.drop 4).take 2) = digits
  | [_, _, _, _, _, _], _ => rfl

theorem ofDigits?_digits (e : Stamp) : ofDigits? e.day.digits e.clock.digits = some e.plain := by
  have year : digitsValue ((e.day.digits.drop 0).take 4) = e.day.year := digitsValue_quad _
  have month : digitsValue ((e.day.digits.drop 4).take 2) = e.day.month := digitsValue_pair _
  have day : digitsValue ((e.day.digits.drop 6).take 2) = e.day.day := digitsValue_pair _
  have hour : digitsValue ((e.clock.digits.drop 0).take 2) = e.clock.hour := digitsValue_pair _
  have minute : digitsValue ((e.clock.digits.drop 2).take 2) = e.clock.minute := digitsValue_pair _
  have second : digitsValue ((e.clock.digits.drop 4).take 2) = e.clock.second := digitsValue_pair _
  rw [ofDigits?, year, month, day, hour, minute, second, e.of?_plain]

/-- No other digits than its own make a timestamp. -/
theorem digits_of_ofDigits? {date time : List Nat} {e : Stamp} (hd : AreDigits date) (ht : AreDigits time)
    (eight : date.length = 8) (six : time.length = 6) (found : ofDigits? date time = some e) :
    e.day.digits = date ∧ e.clock.digits = time := by
  unfold ofDigits? Stamp.of? at found
  split at found
  · rename_i day clock onDay onClock
    obtain rfl := Option.some.inj found
    obtain ⟨year, month, number⟩ := Day.of?_eq_some.mp onDay
    obtain ⟨valid, rfl⟩ : ∃ valid, Clock.mk _ _ _ _ valid = clock := by
      unfold Clock.of? at onClock
      split at onClock
      · exact ⟨_, Option.some.inj onClock⟩
      · cases onClock
    constructor
    · show quad day.year ++ (pair day.month ++ pair day.day) = date
      rw [year, month, number, quad_digitsValue (hd.drop_take _ _) (by simp; omega),
        pair_digitsValue (hd.drop_take _ _) (by simp; omega), pair_digitsValue (hd.drop_take _ _) (by simp; omega), eight_eq eight]
    · show pair _ ++ (pair _ ++ pair _) = time
      rw [pair_digitsValue (ht.drop_take _ _) (by simp; omega), pair_digitsValue (ht.drop_take _ _) (by simp; omega),
        pair_digitsValue (ht.drop_take _ _) (by simp; omega), six_eq six]
  · cases found

/-! ### Written moments -/

theorem momentText_eq (s : Stamp) : momentText s = row s.day.digits ++ 'T' :: (row s.clock.digits ++ ['Z']) := by
  obtain ⟨hy, hm, hd⟩ := s.day.parts_lt
  obtain ⟨hh, hn, hs, -⟩ := s.clock.valid
  rw [momentText, ofNatPadded_four hy, ofNatPadded_two _ hm, ofNatPadded_two _ hd, ofNatPadded_two _ (by omega),
    ofNatPadded_two _ (by omega), ofNatPadded_two _ (by omega)]
  simp only [Day.digits, Clock.digits, row_append, List.append_assoc, List.cons_append]

/-- A written moment is read as the timestamp in whole seconds. -/
theorem finish?_momentText (s : Stamp) : finish? (momentText s) = some s.plain := by
  rw [momentText_eq, finish?_moment s.day.areDigits_digits s.clock.areDigits_digits rfl rfl (.inr rfl), ofDigits?_digits]

theorem noBlank_momentText (s : Stamp) : NoBlank (momentText s) := by
  have letter : NoBlank ['Z'] := List.forall_mem_singleton.mpr (by decide)
  rw [momentText_eq]
  exact (noBlank_row s.day.areDigits_digits).append (((noBlank_row s.clock.areDigits_digits).append letter).cons (by decide))

theorem upper_momentText (s : Stamp) : Upper (momentText s) := by
  have letter : Upper ['Z'] := List.forall_mem_singleton.mpr (by decide)
  rw [momentText_eq]
  exact (upper_row s.day.areDigits_digits).append (((upper_row s.clock.areDigits_digits).append letter).cons (by decide))

theorem not_mem_momentText (s : Stamp) {c : Char} (hc : c ∈ numberMarks) (hT : c ≠ 'T') (hZ : c ≠ 'Z') : c ∉ momentText s := by
  rw [momentText_eq]
  simp [not_mem_row s.day.areDigits_digits hc, not_mem_row s.clock.areDigits_digits hc, hT, hZ]

/-! ### Ends -/

/-- An end in a form that rules have for it: a date in eight digits, or a date and a time of six digits, which may be
marked as universal time. -/
inductive IsEnd : Text → Prop where
  | date {date : List Nat} (hd : AreDigits date) (eight : date.length = 8) : IsEnd (row date)
  | moment {date time : List Nat} {rest : Text} (hd : AreDigits date) (ht : AreDigits time) (eight : date.length = 8)
    (six : time.length = 6) (letter : rest = [] ∨ rest = ['Z']) : IsEnd (row date ++ 'T' :: (row time ++ rest))

/-- An end that a document can state has no zone and no part of a second. -/
theorem IsEnd.plain_eq {value : Text} (form : IsEnd value) {e : Stamp} (found : finish? value = some e) : e.plain = e := by
  cases form with
  | date hd eight =>
    rw [finish?_date hd eight] at found
    obtain ⟨rfl, time⟩ := digits_of_ofDigits? hd Clock.midnight.areDigits_digits eight rfl found
    rw [← time, ofDigits?_digits] at found
    exact Option.some.inj found
  | moment hd ht eight six letter =>
    rw [finish?_moment hd ht eight six letter] at found
    obtain ⟨rfl, rfl⟩ := digits_of_ofDigits? hd ht eight six found
    rw [ofDigits?_digits] at found
    exact Option.some.inj found

/-- An end that a document can state is what a rule with it is evaluated to. -/
theorem IsEnd.until?_eq {value : Text} (form : IsEnd value) {e : Stamp} (today : Stamp) (found : finish? value = some e) :
    RuleSpec.until? today value = some e := by
  have plain := form.plain_eq found
  have read : FreeForm.readLocal today.day.year (.ofDay today.day) value = .ok e := by
    cases form with
    | date hd eight =>
      rw [finish?_date hd eight] at found
      obtain ⟨rfl, -⟩ := digits_of_ofDigits? hd Clock.midnight.areDigits_digits eight rfl found
      have start : some (Stamp.ofDay e.day) = some e := (ofDigits?_digits (.ofDay e.day)).symm.trans found
      rw [FreeForm.readLocal_day, Option.some.inj start]
    | moment hd ht eight six letter =>
      rw [finish?_moment hd ht eight six letter] at found
      obtain ⟨rfl, rfl⟩ := digits_of_ofDigits? hd ht eight six found
      rcases letter with rfl | rfl
      · rw [List.append_nil, FreeForm.readLocal_moment, plain]
      · rw [FreeForm.readLocal_universal, plain]
  rw [RuleSpec.until?, RuleSpec.finishOf, read]
  rfl

/-- The end that a document states is read back. -/
theorem until?_momentText (today s : Stamp) : RuleSpec.until? today (momentText s) = some s.plain := by
  have form : IsEnd (momentText s) :=
    momentText_eq s ▸ .moment s.day.areDigits_digits s.clock.areDigits_digits rfl rfl (.inr rfl)
  exact form.until?_eq today (finish?_momentText s)

end Document

end Cadence
