import Cadence.Proofs.Json.Numbers
import Cadence.Proofs.Json.Strings

/-!
# Values read back

A value that a JSON text may write is read back from the text that it is written in, whatever it holds: its numbers keep
their digits, its texts their characters, and its objects their members in their order. Only texts with two halves of a pair
beside one another are read as others.
-/

namespace Cadence

open Text

mutual
/-- No text in the value, and no name, has two halves of a pair beside one another. -/
def Datum.isPaired : Datum → Bool
  | .text s => Text.isPaired s
  | .list items => itemsPaired items
  | .object members => membersPaired members
  | _ => true

/-- All items are so. -/
def Datum.itemsPaired : List Datum → Bool
  | [] => true
  | item :: rest => isPaired item && itemsPaired rest

/-- All members are so, with their names. -/
def Datum.membersPaired : List (Text × Datum) → Bool
  | [] => true
  | (name, value) :: rest => Text.isPaired name && isPaired value && membersPaired rest
end

namespace Json

variable {c : Char} {s t rest : Text} {room fuel : Nat} {x : Datum} {negative : Bool} {m : Nat} {e : Int}

/-! ### The first character -/

/-- The characters that a word begins with. -/
def wordStarts : List Char := ['n', 't', 'f', 'N', 'I', '-']

theorem word?_of_first (other : c ∉ wordStarts) (s : Text) : word? (c :: s) = none := by
  simp only [wordStarts, List.mem_cons, List.not_mem_nil, or_false, not_or] at other
  obtain ⟨n, t, f, nan, infinity, minus⟩ := other
  simp [word?, words, following?, List.findSome?, Ne.symm n, Ne.symm t, Ne.symm f, Ne.symm nan, Ne.symm infinity, Ne.symm minus]

theorem word?_minus (other : c ≠ 'I') (s : Text) : word? ('-' :: c :: s) = none := by
  simp [word?, words, following?, List.findSome?, Ne.symm other]

/-- A text that a digit begins is read as a number. -/
theorem value_digit (digit : isPlainDigit c = true) (s : Text) : value (fuel + 1) room (c :: s) = number false (c :: s) := by
  have other : c ∉ wordStarts := by
    intro member
    simp only [wordStarts, List.mem_cons, List.not_mem_nil, or_false] at member
    obtain rfl | rfl | rfl | rfl | rfl | rfl := member <;> cases digit
  unfold value
  rw [word?_of_first other]
  dsimp only
  split
  · rename_i same
    cases same
    cases digit
  · rename_i same
    cases same
    cases digit
  · rename_i same
    cases same
    cases digit
  · rename_i same
    cases same
    cases digit
  · rfl

/-- A minus sign before a digit belongs to the number. -/
theorem value_minus (digit : isPlainDigit c = true) (s : Text) : value (fuel + 1) room ('-' :: c :: s) = number true (c :: s) := by
  have other : c ≠ 'I' := by
    rintro rfl
    cases digit
  rw [value, word?_minus other]

/-- What is read as a number begins with a digit. -/
theorem exists_digit_of_number {read : Datum × Text} (found : number negative s = .ok read) :
    ∃ c t, s = c :: t ∧ isPlainDigit c = true := by
  cases s with
  | nil => cases found
  | cons c t =>
    refine ⟨c, t, rfl, ?_⟩
    by_contra other
    rw [number_eq, List.takeWhile_cons_of_neg other] at found
    cases found

/-- The text of a number without its sign. -/
def sizeText (m : Nat) (e : Int) : Text := if m = 0 then "0.0" else Binary64.finiteText m e

/-- Every binary number is read back. -/
theorem number_sizeText (held : Binary64.IsCanonical m e) (ends : EndsValue rest) :
    number negative (sizeText m e ++ rest) = .ok (.real (.finite negative m e), rest) := by
  unfold sizeText
  split
  · rename_i zero
    subst zero
    have least : e = Binary64.leastExponent := held.normal.resolve_left (by decide)
    have read := @number_decimal _ _ _ _ negative ['0'] none rfl (arePlain_zeros 1) (List.cons_ne_nil _ _) (by rintro _ ⟨⟩; rfl)
      (fraction_point (show ArePlain ['0'] from arePlain_zeros 1) (List.cons_ne_nil _ _) ends.stopsDigits) ends.exponent
      (.inl (List.cons_ne_nil _ _))
    exact least ▸ read
  · rename_i nonzero
    obtain ⟨digits, last, written, pos, own⟩ := Binary64.finiteText_spec held (Nat.pos_of_ne_zero nonzero)
    rw [written, number_decimalText pos last ends, own]

/-- A number with its sign is read as its size with the sign. -/
theorem value_signed (read : number negative (s ++ rest) = .ok (x, rest)) :
    value (fuel + 1) room ((if negative then '-' :: s else s) ++ rest) = .ok (x, rest) := by
  obtain ⟨c, t, same, digit⟩ := exists_digit_of_number read
  cases negative with
  | false =>
    show value (fuel + 1) room (s ++ rest) = _
    rw [same] at read ⊢
    rw [value_digit digit, read]
  | true =>
    show value (fuel + 1) room ('-' :: (s ++ rest)) = _
    rw [same] at read ⊢
    rw [value_minus digit, read]

theorem value_int {n : Int} (short : n.natAbs < 10 ^ maxDigits) (ends : EndsValue rest) :
    value (fuel + 1) room (ofInt n ++ rest) = .ok (.int n, rest) := by
  have few {k : Nat} (less : k < 10 ^ maxDigits) : (ofNat k).length ≤ maxDigits := length_ofNat_le (by decide) less
  cases n with
  | ofNat k => exact value_signed (show number false _ = _ from number_ofNat (few short) ends)
  | negSucc k => exact value_signed (show number true _ = _ from number_ofNat (few short) ends)

/-- Every binary number is read back as a value. -/
theorem value_real {x : Binary64} (held : x.IsHeld) (ends : EndsValue rest) :
    value (fuel + 1) room (x.text "NaN" "Infinity" ++ rest) = .ok (.real x, rest) := by
  cases x with
  | nan => rfl
  | infinity negative => cases negative <;> rfl
  | finite negative m e => exact value_signed (number_sizeText held ends)

/-! ### Lists and objects -/

theorem skip_of_first (solid : isSpace c = false) (s : Text) : skip (c :: s) = c :: s :=
  List.dropWhile_cons_of_neg (by rw [solid]; decide)

/-- The text begins as that of a value. -/
def BeginsValue (s : Text) : Prop := ∃ c t, s = c :: t ∧ isSpace c = false ∧ c ≠ ']'

theorem BeginsValue.skip (begins : BeginsValue s) (rest : Text) : skip (s ++ rest) = s ++ rest := by
  obtain ⟨c, t, rfl, solid, -⟩ := begins
  exact skip_of_first solid _

/-- The value is read back from its text, whatever ends it, and no list ends before its text. -/
structure IsReadBack (room : Nat) (x : Datum) : Prop where
  begins : BeginsValue x.json
  reads : ∀ fuel rest, EndsValue rest → 2 * x.json.length ≤ fuel → value fuel room (x.json ++ rest) = .ok (x, rest)

/-- A value that is read in one step is read back. -/
theorem IsReadBack.of_step (begins : BeginsValue x.json)
    (step : ∀ fuel rest, EndsValue rest → value (fuel + 1) room (x.json ++ rest) = .ok (x, rest)) : IsReadBack room x where
  begins := begins
  reads fuel rest ends enough := by
    obtain ⟨c, t, same, -⟩ := begins
    cases fuel with
    | zero =>
      rw [same, List.length_cons] at enough
      omega
    | succ fuel => exact step fuel rest ends

theorem endsValue_comma (s : Text) : EndsValue (',' :: s) := by
  rintro _ ⟨⟩
  exact .inl rfl

theorem endsValue_bracket (s : Text) : EndsValue (']' :: s) := by
  rintro _ ⟨⟩
  exact .inr (.inl rfl)

theorem endsValue_brace (s : Text) : EndsValue ('\x7d' :: s) := by
  rintro _ ⟨⟩
  exact .inr (.inr rfl)

theorem BeginsValue.append (begins : BeginsValue s) (t : Text) : BeginsValue (s ++ t) := by
  obtain ⟨c, more, rfl, solid, other⟩ := begins
  exact ⟨c, more ++ t, rfl, solid, other⟩

theorem BeginsValue.joinWith (begins : BeginsValue s) (sep : Text) (more : List Text) : BeginsValue (joinWith sep (s :: more)) := by
  cases more with
  | nil => exact begins
  | cons t more => exact (begins.append sep).append _

/-- The items of a list are read back one after the other. -/
theorem items_joined {more done : List Datum} (all : ∀ y ∈ x :: more, IsReadBack room y)
    (enough : 2 * (joinWith ", " (Datum.jsonItems (x :: more))).length + 2 ≤ fuel) :
    items fuel room done (joinWith ", " (Datum.jsonItems (x :: more)) ++ ']' :: rest) =
      .ok (.list (done.reverse ++ x :: more), rest) := by
  induction more generalizing x done fuel with
  | nil =>
    obtain ⟨fuel, rfl⟩ : ∃ f, fuel = f + 1 := ⟨fuel - 1, by omega⟩
    have own := (all x List.mem_cons_self).reads fuel (']' :: rest) (endsValue_bracket rest)
      (by simp only [Datum.jsonItems, joinWith] at enough; omega)
    simp only [Datum.jsonItems, joinWith]
    unfold items
    rw [own]
    show Except.ok (Datum.list (x :: done).reverse, rest) = _
    rw [List.reverse_cons]
  | cons y more ih =>
    obtain ⟨fuel, rfl⟩ : ∃ f, fuel = f + 1 := ⟨fuel - 1, by omega⟩
    obtain ⟨first, others⟩ := List.forall_mem_cons.mp all
    have split : joinWith ", " (Datum.jsonItems (x :: y :: more)) = x.json ++ ',' :: ' ' :: joinWith ", " (Datum.jsonItems (y :: more)) := by
      simp only [Datum.jsonItems, joinWith, List.append_assoc]
      rfl
    rw [split, List.length_append, List.length_cons, List.length_cons] at enough
    have own := first.reads fuel (',' :: ' ' :: (joinWith ", " (Datum.jsonItems (y :: more)) ++ ']' :: rest)) (endsValue_comma _) (by omega)
    have begins : BeginsValue (joinWith ", " (Datum.jsonItems (y :: more))) :=
      (others y List.mem_cons_self).begins.joinWith ", " (Datum.jsonItems more)
    rw [split, List.append_assoc]
    unfold items
    rw [List.cons_append, List.cons_append, own]
    show items fuel room (x :: done) (Json.skip (joinWith ", " (Datum.jsonItems (y :: more)) ++ ']' :: rest)) = _
    rw [begins.skip, ih others (by omega), List.reverse_cons, List.append_assoc]
    rfl

/-- What follows the opening of a list is read as its items unless it closes the list. -/
theorem value_bracket (begins : BeginsValue s) (rest : Text) :
    value (fuel + 1) (room + 1) ('[' :: (s ++ rest)) = items fuel room [] (s ++ rest) := by
  have solid := begins.skip rest
  obtain ⟨c, t, rfl, -, other⟩ := begins
  unfold value
  rw [word?_of_first (by decide)]
  dsimp only
  split
  · rename_i same
    cases same
  · rename_i same
    cases same
    rw [solid]
    split
    · rename_i closes
      exact absurd (List.cons.inj closes).1 other
    · rfl
  · rename_i same
    cases same
  · rename_i same
    cases same
  · rename_i list _ _
    exact absurd rfl (list _)

theorem isReadBack_list {items : List Datum} (all : ∀ y ∈ items, IsReadBack room y) : IsReadBack (room + 1) (.list items) := by
  refine ⟨⟨'[', _, rfl, rfl, by decide⟩, fun fuel rest ends enough => ?_⟩
  simp only [Datum.json, List.cons_append, List.append_assoc, List.length_cons, List.length_append, List.length_nil] at enough ⊢
  obtain ⟨fuel, rfl⟩ : ∃ f, fuel = f + 1 := ⟨fuel - 1, by omega⟩
  cases items with
  | nil => rfl
  | cons x more =>
    have begins := (all x List.mem_cons_self).begins.joinWith ", " (Datum.jsonItems more)
    exact (value_bracket begins _).trans (items_joined all (by omega))

theorem value_brace (s : Text) : value (fuel + 1) (room + 1) ('\x7b' :: '"' :: s) = members fuel room [] ('"' :: s) := rfl

theorem BeginsValue.skip_blank (begins : BeginsValue s) : Json.skip (' ' :: s) = s := by
  obtain ⟨c, t, rfl, solid, -⟩ := begins
  exact skip_of_first solid t

section Member
variable {name : Text} {done : List (Text × Datum)} (paired : Text.isPaired name = true) (begins : BeginsValue s)
include paired begins

/-- A member that another follows is read. -/
theorem members_next (read : value fuel room s = .ok (x, ',' :: rest)) :
    members (fuel + 1) room done ('"' :: (name.flatMap writeChar ++ '"' :: ':' :: ' ' :: s)) =
      members fuel room (Datum.setMember name x done) (Json.skip rest) := by
  rw [members, string?_writeString paired]
  dsimp only
  rw [skip_of_first (by decide)]
  split
  · rename_i same
    cases same
    rw [begins.skip_blank, read]
    rfl
  · rename_i other
    exact absurd rfl (other _)

/-- The last member is read. -/
theorem members_last (read : value fuel room s = .ok (x, '\x7d' :: rest)) :
    members (fuel + 1) room done ('"' :: (name.flatMap writeChar ++ '"' :: ':' :: ' ' :: s)) =
      .ok (.object (Datum.setMember name x done), rest) := by
  rw [members, string?_writeString paired]
  dsimp only
  rw [skip_of_first (by decide)]
  split
  · rename_i same
    cases same
    rw [begins.skip_blank, read]
    rfl
  · rename_i other
    exact absurd rfl (other _)

end Member

/-- A member's name is read back with its value. -/
structure IsMember (room : Nat) (member : Text × Datum) : Prop where
  name : Text.isPaired member.1 = true
  value : IsReadBack room member.2

theorem setMember_new {name : Text} {done : List (Text × Datum)} (new : name ∉ done.map (·.1)) :
    Datum.setMember name x done = done ++ [(name, x)] := by
  induction done with
  | nil => rfl
  | cons member done ih =>
    obtain ⟨key, old⟩ := member
    rw [List.map_cons, List.mem_cons, not_or] at new
    rw [Datum.setMember, if_neg (Ne.symm new.1), ih new.2]
    rfl

/-- A member as it is written. -/
theorem memberText (name : Text) (x : Datum) : writeString name ++ ": " ++ x.json =
    '"' :: (name.flatMap writeChar ++ '"' :: ':' :: ' ' :: x.json) := by
  simp only [writeString, List.cons_append, List.append_assoc]
  rfl

/-- The members of an object are read back one after the other. -/
theorem members_joined {name : Text} {more done : List (Text × Datum)} (all : ∀ member ∈ (name, x) :: more, IsMember room member)
    (names : ((done ++ (name, x) :: more).map (·.1)).Nodup)
    (enough : 2 * (joinWith ", " (Datum.jsonMembers ((name, x) :: more))).length + 2 ≤ fuel) :
    members fuel room done (joinWith ", " (Datum.jsonMembers ((name, x) :: more)) ++ '\x7d' :: rest) =
      .ok (.object (done ++ (name, x) :: more), rest) := by
  have new : name ∉ done.map (·.1) := by
    intro member
    rw [List.map_append, List.nodup_append] at names
    exact names.2.2 name member name List.mem_cons_self rfl
  induction more generalizing name x done fuel with
  | nil =>
    obtain ⟨fuel, rfl⟩ : ∃ f, fuel = f + 1 := ⟨fuel - 1, by omega⟩
    obtain ⟨paired, own⟩ := all (name, x) List.mem_cons_self
    replace own : IsReadBack room x := own
    simp only [Datum.jsonMembers, joinWith, memberText, List.length_cons, List.length_append] at enough ⊢
    have read := own.reads fuel ('\x7d' :: rest) (endsValue_brace rest) (by omega)
    simp only [List.cons_append, List.append_assoc]
    rw [members_last paired (own.begins.append _) read, setMember_new new]
  | cons next more ih =>
    obtain ⟨fuel, rfl⟩ : ∃ f, fuel = f + 1 := ⟨fuel - 1, by omega⟩
    obtain ⟨⟨paired, own⟩, others⟩ := List.forall_mem_cons.mp all
    replace own : IsReadBack room x := own
    obtain ⟨other, y⟩ := next
    have split : joinWith ", " (Datum.jsonMembers ((name, x) :: (other, y) :: more)) =
        '"' :: (name.flatMap writeChar ++ '"' :: ':' :: ' ' :: (x.json ++ ',' :: ' ' :: joinWith ", " (Datum.jsonMembers ((other, y) :: more)))) := by
      rw [show joinWith ", " (Datum.jsonMembers ((name, x) :: (other, y) :: more)) =
        (writeString name ++ ": " ++ x.json) ++ ", " ++ joinWith ", " (Datum.jsonMembers ((other, y) :: more)) from rfl, memberText]
      simp only [List.cons_append, List.append_assoc]
      rfl
    have left : Json.skip (' ' :: (joinWith ", " (Datum.jsonMembers ((other, y) :: more)) ++ '\x7d' :: rest)) =
        joinWith ", " (Datum.jsonMembers ((other, y) :: more)) ++ '\x7d' :: rest := by
      obtain ⟨t, begins⟩ : ∃ t, joinWith ", " (Datum.jsonMembers ((other, y) :: more)) = '"' :: t := by
        cases more with
        | nil => exact ⟨_, memberText other y⟩
        | cons next more => exact ⟨_, congrArg (· ++ _ ++ _) (memberText other y)⟩
      rw [begins]
      rfl
    rw [split] at enough ⊢
    simp only [List.length_cons, List.length_append] at enough
    have read := own.reads fuel (',' :: ' ' :: (joinWith ", " (Datum.jsonMembers ((other, y) :: more)) ++ '\x7d' :: rest))
      (endsValue_comma _) (by omega)
    have names : ((done ++ [(name, x)] ++ (other, y) :: more).map (·.1)).Nodup := by
      rwa [List.append_assoc, List.singleton_append]
    have fresh : other ∉ (done ++ [(name, x)]).map (·.1) := by
      intro member
      rw [List.map_append, List.nodup_append] at names
      exact names.2.2 other member other List.mem_cons_self rfl
    simp only [List.cons_append, List.append_assoc]
    rw [members_next paired (own.begins.append _) read, setMember_new new, left, ih others names (by omega) fresh,
      List.append_assoc]
    rfl

/-- What follows the opening of an object is read as its members. -/
theorem isReadBack_object {members : List (Text × Datum)} (all : ∀ member ∈ members, IsMember room member)
    (names : (members.map (·.1)).Nodup) : IsReadBack (room + 1) (.object members) := by
  refine ⟨⟨'\x7b', _, rfl, rfl, by decide⟩, fun fuel rest ends enough => ?_⟩
  simp only [Datum.json, List.cons_append, List.append_assoc, List.length_cons, List.length_append, List.length_nil] at enough ⊢
  obtain ⟨fuel, rfl⟩ : ∃ f, fuel = f + 1 := ⟨fuel - 1, by omega⟩
  cases members with
  | nil => rfl
  | cons member more =>
    obtain ⟨name, x⟩ := member
    obtain ⟨t, begins⟩ : ∃ t, joinWith ", " (Datum.jsonMembers ((name, x) :: more)) = '"' :: t := by
      cases more with
      | nil => exact ⟨_, memberText name x⟩
      | cons next more => exact ⟨_, congrArg (· ++ _ ++ _) (memberText name x)⟩
    have joined : Json.members fuel room [] (joinWith ", " (Datum.jsonMembers ((name, x) :: more)) ++ '\x7d' :: rest) =
        .ok (.object ([] ++ (name, x) :: more), rest) := members_joined all names (by omega)
    rw [begins] at joined ⊢
    exact (value_brace _).trans joined

/-! ### Every value -/

theorem of_itemsPaired {items : List Datum} (paired : Datum.itemsPaired items = true) : ∀ y ∈ items, y.isPaired = true := by
  induction items with
  | nil => exact List.forall_mem_nil _
  | cons x items ih =>
    obtain ⟨first, others⟩ := Bool.and_eq_true_iff.mp paired
    exact List.forall_mem_cons.mpr ⟨first, ih others⟩

theorem of_membersPaired {members : List (Text × Datum)} (paired : Datum.membersPaired members = true) :
    ∀ member ∈ members, Text.isPaired member.1 = true ∧ member.2.isPaired = true := by
  induction members with
  | nil => exact List.forall_mem_nil _
  | cons member members ih =>
    obtain ⟨own, others⟩ := Bool.and_eq_true_iff.mp paired
    exact List.forall_mem_cons.mpr ⟨Bool.and_eq_true_iff.mp own, ih others⟩

theorem beginsValue_digit (digit : isPlainDigit c = true) (s : Text) : BeginsValue (c :: s) := by
  refine ⟨c, s, rfl, Bool.eq_false_iff.mpr fun space => ?_, ?_⟩
  · simp only [isSpace, Bool.or_eq_true, decide_eq_true_eq] at space
    obtain ((rfl | rfl) | rfl) | rfl := space <;> cases digit
  · rintro rfl
    cases digit

theorem beginsValue_signed (read : number negative s = .ok (x, rest)) : BeginsValue (if negative then '-' :: s else s) := by
  obtain ⟨c, t, rfl, digit⟩ := exists_digit_of_number read
  cases negative with
  | false => exact beginsValue_digit digit t
  | true => exact ⟨'-', _, rfl, rfl, by decide⟩

/-- A value that a text may write is read back. -/
theorem isReadBack_of_isJson (json : x.IsJson room) (paired : x.isPaired = true) : IsReadBack room x := by
  induction json with
  | null room => exact .of_step ⟨'n', _, rfl, rfl, by decide⟩ fun _ _ _ => rfl
  | bool room b => cases b <;> exact .of_step ⟨_, _, rfl, rfl, by decide⟩ fun _ _ _ => rfl
  | int room n short =>
    have digits (k : Nat) : BeginsValue (ofNat k) := by
      obtain ⟨c, t, same⟩ := List.exists_cons_of_ne_nil (ofNat_ne_nil k)
      rw [same]
      exact beginsValue_digit (arePlain_ofNat k c (same ▸ List.mem_cons_self)) t
    have begins : BeginsValue (ofInt n) := by
      cases n with
      | ofNat k => exact digits k
      | negSucc k => exact ⟨'-', _, rfl, rfl, by decide⟩
    exact .of_step begins fun _ _ ends => value_int short ends
  | notNumber room => exact .of_step ⟨'N', _, rfl, rfl, by decide⟩ fun _ _ ends => value_real (x := .nan) trivial ends
  | infinite room negative =>
    exact .of_step (by cases negative <;> exact ⟨_, _, rfl, rfl, by decide⟩) fun _ _ ends => value_real (x := .infinity negative) trivial ends
  | decimal room negative digits exponent =>
    have held := Binary64.isHeld_ofDecimal negative digits exponent
    generalize Binary64.ofDecimal negative digits exponent = x at held
    have begins : BeginsValue (x.text "NaN" "Infinity") := by
      cases x with
      | nan => exact ⟨'N', _, rfl, rfl, by decide⟩
      | infinity negative => cases negative <;> exact ⟨_, _, rfl, rfl, by decide⟩
      | finite negative m e =>
        have read : number negative (sizeText m e ++ []) = .ok (.real (.finite negative m e), []) :=
          number_sizeText held (by rintro _ ⟨⟩)
        rw [List.append_nil] at read
        exact beginsValue_signed read
    exact .of_step begins fun _ _ ends => value_real held ends
  | text room s =>
    refine .of_step ⟨'"', _, rfl, rfl, by decide⟩ fun fuel rest _ => ?_
    have written : (Datum.text s).json ++ rest = '"' :: (s.flatMap writeChar ++ '"' :: rest) := by
      simp only [Datum.json, writeString, List.cons_append, List.append_assoc, List.nil_append]
    rw [written, value, word?_of_first (by decide)]
    dsimp only
    rw [string?_writeString (show Text.isPaired s = true from paired)]
  | list room items _ ih => exact isReadBack_list fun y member => ih y member (of_itemsPaired paired y member)
  | object room members names _ ih =>
    refine isReadBack_object (fun member inside => ?_) names
    obtain ⟨name, value⟩ := of_membersPaired paired member inside
    exact ⟨name, ih member inside value⟩

/-- What a text may write is read back from the text that it is written in. -/
theorem read_json (json : x.IsJson maxDepth) (paired : x.isPaired = true) : read x.json = .ok x := by
  obtain ⟨begins, reads⟩ := isReadBack_of_isJson json paired
  have found := reads (2 * x.json.length + 2) [] (by rintro _ ⟨⟩) (by omega)
  rw [List.append_nil] at found
  have start : skip x.json = x.json := by simpa using begins.skip []
  rw [read, start, found]
  rfl

end Json

end Cadence
