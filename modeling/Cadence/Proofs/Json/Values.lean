import Cadence.Json.Reader
import Cadence.Proofs.Failure
import Cadence.Proofs.Text.Numeral

/-!
# The values of JSON texts

A JSON text writes null, truth values, whole numbers that are not too long, decimals, texts, and lists and objects of
such values, an object having each name once and no more than so many of them standing inside one another. There are
no days and no timestamps among the values, so what is a date among them is a text.
-/

namespace Cadence

/-- A value that a JSON text may write, with at most `room` lists and objects inside one another. -/
inductive Datum.IsJson : Nat → Datum → Prop where
  | null (room : Nat) : IsJson room .null
  | bool (room : Nat) (b : Bool) : IsJson room (.bool b)
  | int (room : Nat) (n : Int) (short : n.natAbs < 10 ^ Text.maxDigits) : IsJson room (.int n)
  | notNumber (room : Nat) : IsJson room (.real .nan)
  | infinite (room : Nat) (negative : Bool) : IsJson room (.real (.infinity negative))
  | decimal (room : Nat) (negative : Bool) (digits : Nat) (exponent : Int) :
      IsJson room (.real (.ofDecimal negative digits exponent))
  | text (room : Nat) (s : Text) : IsJson room (.text s)
  | list (room : Nat) (items : List Datum) (inside : ∀ x ∈ items, IsJson room x) : IsJson (room + 1) (.list items)
  | object (room : Nat) (members : List (Text × Datum)) (names : (members.map (·.1)).Nodup)
      (inside : ∀ m ∈ members, IsJson room m.2) : IsJson (room + 1) (.object members)

theorem Datum.IsJson.ne_stamp {room : Nat} {x : Datum} (json : x.IsJson room) (s : Stamp) : x ≠ .stamp s := by
  rintro rfl
  cases json

theorem Datum.IsJson.members {room : Nat} {members : List (Text × Datum)} (json : (Datum.object members).IsJson room) :
    ∀ m ∈ members, m.2.IsJson (room - 1) := by
  cases json with
  | object room _ _ inside => exact inside

theorem Datum.IsJson.mono {room more : Nat} {x : Datum} (json : x.IsJson room) (le : room ≤ more) : x.IsJson more := by
  induction json generalizing more with
  | null => exact .null more
  | bool _ b => exact .bool more b
  | int _ n short => exact .int more n short
  | notNumber => exact .notNumber more
  | infinite _ negative => exact .infinite more negative
  | decimal _ negative digits exponent => exact .decimal more negative digits exponent
  | text _ s => exact .text more s
  | list room items _ ih =>
    obtain ⟨more, rfl⟩ : ∃ m, more = m + 1 := ⟨more - 1, by omega⟩
    exact .list more items fun x member => ih x member (Nat.le_of_succ_le_succ le)
  | object room members names _ ih =>
    obtain ⟨more, rfl⟩ : ∃ m, more = m + 1 := ⟨more - 1, by omega⟩
    exact .object more members names fun m member => ih m member (Nat.le_of_succ_le_succ le)

/-! ### Members -/

namespace Datum

variable {name : Text} {value : Datum} {members : List (Text × Datum)} {p : Datum → Prop}

theorem mem_names_setMember {other : Text} :
    other ∈ (setMember name value members).map (·.1) ↔ other = name ∨ other ∈ members.map (·.1) := by
  induction members with
  | nil => simp [setMember]
  | cons m members ih =>
    obtain ⟨key, old⟩ := m
    unfold setMember
    split
    · rename_i same
      simp [same]
    · simp only [List.map_cons, List.mem_cons, ih]
      exact or_left_comm

theorem nodup_setMember (nodup : (members.map (·.1)).Nodup) : ((setMember name value members).map (·.1)).Nodup := by
  induction members with
  | nil => simp [setMember]
  | cons m members ih =>
    obtain ⟨key, old⟩ := m
    obtain ⟨new, nodup⟩ := List.nodup_cons.mp nodup
    unfold setMember
    split
    · exact List.nodup_cons.mpr ⟨new, nodup⟩
    · rename_i other
      refine List.nodup_cons.mpr ⟨fun member => ?_, ih nodup⟩
      rcases mem_names_setMember.mp member with same | member
      · exact other same
      · exact new member

theorem forall_setMember (own : p value) (all : ∀ m ∈ members, p m.2) : ∀ m ∈ setMember name value members, p m.2 := by
  induction members with
  | nil => simpa [setMember] using own
  | cons m members ih =>
    obtain ⟨key, old⟩ := m
    obtain ⟨first, others⟩ := List.forall_mem_cons.mp all
    unfold setMember
    split
    · exact List.forall_mem_cons.mpr ⟨own, others⟩
    · exact List.forall_mem_cons.mpr ⟨first, ih others⟩

/-- A member of an object, or null where there is none, is as all members are if null is. -/
theorem forall_lookup (null : p .null) (all : ∀ m ∈ members, p m.2) : p (lookup name members) := by
  induction members with
  | nil => exact null
  | cons m members ih =>
    obtain ⟨key, old⟩ := m
    obtain ⟨first, others⟩ := List.forall_mem_cons.mp all
    unfold lookup
    split
    · exact first
    · exact ih others

theorem IsJson.lookup {room : Nat} (all : ∀ m ∈ members, m.2.IsJson room) (name : Text) :
    (lookup name members).IsJson room :=
  forall_lookup (.null room) all

end Datum

namespace Json

variable {s rest : Text} {x : Datum} {room fuel : Nat}

/-! ### Numbers -/

theorem isPlainDigit_lt {c : Char} (digit : isPlainDigit c = true) : c.toNat - 48 < 10 := by
  unfold isPlainDigit at digit
  have last : c.toNat ≤ '9'.toNat := of_decide_eq_true (Bool.and_eq_true_iff.mp digit).2
  have nine : '9'.toNat = 57 := rfl
  omega

theorem digitsSize_lt {digits : Text} (plain : ∀ c ∈ digits, isPlainDigit c = true) :
    digitsSize digits < 10 ^ digits.length := by
  have areDigits : Text.AreDigits (digits.map fun c => c.toNat - 48) := by
    intro d member
    obtain ⟨c, inside, rfl⟩ := List.mem_map.mp member
    exact isPlainDigit_lt (plain c inside)
  simpa [digitsSize] using Text.digitsValue_lt areDigits

/-- The digits of a whole number at the start of a row of digits. A zero stands alone. -/
def wholeDigits (run : Text) : Text :=
  match run with
  | '0' :: _ => ['0']
  | _ => run

/-- A number from its whole digits on. -/
def numberFrom (negative : Bool) (whole s : Text) : Except Flaw (Datum × Text) :=
  if whole.isEmpty then .error .malformed
  else
    let (places, rest) := fraction (s.drop whole.length)
    let (power, after) := exponent rest
    if places.isEmpty && power.isNone then
      if Text.maxDigits < whole.length then .error .longNumber
      else
        let size : Int := digitsSize whole
        .ok (.int (if negative then -size else size), after)
    else
      .ok (.real (.ofDecimal negative (digitsSize (whole ++ places)) (power.getD 0 - places.length)), after)

theorem number_eq (negative : Bool) (s : Text) :
    number negative s = numberFrom negative (wholeDigits (s.takeWhile isPlainDigit)) s := rfl

theorem isPlainDigit_of_mem_wholeDigits {c : Char} (member : c ∈ wholeDigits (s.takeWhile isPlainDigit)) :
    isPlainDigit c = true := by
  unfold wholeDigits at member
  split at member
  · rw [List.mem_singleton.mp member]
    rfl
  · exact List.all_eq_true.mp List.all_takeWhile c member

theorem isJson_of_number {negative : Bool} (read : number negative s = .ok (x, rest)) : x.IsJson room := by
  rw [number_eq] at read
  have plain : ∀ c ∈ wholeDigits (s.takeWhile isPlainDigit), isPlainDigit c = true :=
    fun c member => isPlainDigit_of_mem_wholeDigits member
  generalize wholeDigits (s.takeWhile isPlainDigit) = whole at read plain
  unfold numberFrom at read
  dsimp only at read
  split at read
  · cases read
  · split at read
    · split at read
      · cases read
      · rename_i short
        cases read
        have small : digitsSize whole < 10 ^ Text.maxDigits :=
          Nat.lt_of_lt_of_le (digitsSize_lt plain) (Nat.pow_le_pow_right (by decide) (Nat.le_of_not_lt short))
        refine .int room _ ?_
        cases negative
        · exact small
        · rw [if_pos rfl, Int.natAbs_neg]
          exact small
    · cases read
      exact .decimal room negative _ _

theorem isJson_of_word? (found : word? s = some (x, rest)) : x.IsJson room := by
  obtain ⟨⟨name, value⟩, member, read⟩ := List.exists_of_findSome?_eq_some found
  obtain ⟨after, -, same⟩ := Option.map_eq_some_iff.mp read
  cases same
  simp only [words, List.mem_cons, Prod.mk.injEq, List.not_mem_nil, or_false] at member
  obtain ⟨-, rfl⟩ | ⟨-, rfl⟩ | ⟨-, rfl⟩ | ⟨-, rfl⟩ | ⟨-, rfl⟩ | ⟨-, rfl⟩ := member
  · exact .null room
  · exact .bool room true
  · exact .bool room false
  · exact .notNumber room
  · exact .infinite room false
  · exact .infinite room true

/-! ### Values -/

/-- What is read at one depth of the search is a value that a text may write. -/
structure ReadsJson (fuel : Nat) : Prop where
  value : ∀ room s x rest, Json.value fuel room s = .ok (x, rest) → x.IsJson room
  items : ∀ room done s x rest, (∀ y ∈ done, y.IsJson room) → Json.items fuel room done s = .ok (x, rest) →
    x.IsJson (room + 1)
  members : ∀ room done s x rest, (done.map (·.1)).Nodup → (∀ m ∈ done, m.2.IsJson room) →
    Json.members fuel room done s = .ok (x, rest) → x.IsJson (room + 1)

theorem ReadsJson.value_succ (reads : ReadsJson fuel) (read : Json.value (fuel + 1) room s = .ok (x, rest)) :
    x.IsJson room := by
  unfold Json.value at read
  split at read
  · rename_i found
    cases read
    exact isJson_of_word? found
  · split at read
    · split at read <;> cases read
      exact .text room _
    · split at read
      · cases read
      · split at read
        · cases read
          exact .list _ [] (List.forall_mem_nil _)
        · exact reads.items _ _ _ _ _ (List.forall_mem_nil _) read
    · split at read
      · cases read
      · split at read
        · cases read
          exact .object _ [] .nil (List.forall_mem_nil _)
        · exact reads.members _ [] _ _ _ List.nodup_nil (List.forall_mem_nil _) read
    · exact isJson_of_number read
    · exact isJson_of_number read

theorem ReadsJson.items_succ {done : List Datum} (reads : ReadsJson fuel) (before : ∀ y ∈ done, y.IsJson room)
    (read : Json.items (fuel + 1) room done s = .ok (x, rest)) : x.IsJson (room + 1) := by
  unfold Json.items at read
  obtain ⟨⟨item, after⟩, found, read⟩ := bind_eq_ok.mp read
  have all := List.forall_mem_cons.mpr ⟨reads.value _ _ _ _ found, before⟩
  dsimp only at read
  split at read
  · exact reads.items _ _ _ _ _ all read
  · cases read
    exact .list room _ fun y member => all y (List.mem_reverse.mp member)
  · cases read

theorem ReadsJson.members_succ {done : List (Text × Datum)} (reads : ReadsJson fuel) (names : (done.map (·.1)).Nodup)
    (before : ∀ m ∈ done, m.2.IsJson room) (read : Json.members (fuel + 1) room done s = .ok (x, rest)) :
    x.IsJson (room + 1) := by
  unfold Json.members at read
  split at read
  · split at read
    · cases read
    · split at read
      · obtain ⟨⟨item, after⟩, found, read⟩ := bind_eq_ok.mp read
        have all (name : Text) : ∀ m ∈ Datum.setMember name item done, m.2.IsJson room :=
          Datum.forall_setMember (reads.value _ _ _ _ found) before
        have distinct (name : Text) : ((Datum.setMember name item done).map (·.1)).Nodup := Datum.nodup_setMember names
        dsimp only at read
        split at read
        · exact reads.members _ _ _ _ _ (distinct _) (all _) read
        · cases read
          exact .object room _ (distinct _) (all _)
        · cases read
      · cases read
  · cases read

theorem readsJson (fuel : Nat) : ReadsJson fuel := by
  induction fuel with
  | zero =>
    refine ⟨fun _ _ _ _ read => ?_, fun _ _ _ _ _ _ read => ?_, fun _ _ _ _ _ _ _ read => ?_⟩
    · unfold Json.value at read
      cases read
    · unfold Json.items at read
      cases read
    · unfold Json.members at read
      cases read
  | succ fuel ih =>
    exact ⟨fun _ _ _ _ => ih.value_succ, fun _ _ _ _ _ => ih.items_succ, fun _ _ _ _ _ => ih.members_succ⟩

/-- What a text is read to is a value that a text may write. -/
theorem isJson_of_read (read : Json.read s = .ok x) : x.IsJson maxDepth := by
  obtain ⟨⟨found, after⟩, inside, read⟩ := bind_eq_ok.mp read
  dsimp only at read
  split at read <;> cases read
  exact (readsJson _).value _ _ _ _ inside

end Json

end Cadence
