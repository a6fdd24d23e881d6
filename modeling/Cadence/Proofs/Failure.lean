import Cadence.Failure

/-!
# Steps that may fail

Steps one after another give a result when each of them does.
-/

namespace Cadence

variable {ε α β : Type}

theorem bind_eq_ok {x : Except ε α} {f : α → Except ε β} {b : β} :
    (x >>= f) = .ok b ↔ ∃ a, x = .ok a ∧ f a = .ok b := by
  cases x with
  | error e => simp [bind, Except.bind]
  | ok a => simp [bind, Except.bind]

theorem bind_eq_error {x : Except ε α} {f : α → Except ε β} {e : ε} :
    (x >>= f) = .error e ↔ x = .error e ∨ ∃ a, x = .ok a ∧ f a = .error e := by
  cases x with
  | error e' => simp [bind, Except.bind]
  | ok a => simp [bind, Except.bind]

theorem bind_eq_bind {x : Except ε α} {f g : α → Except ε β} (same : ∀ a, x = .ok a → f a = g a) : (x >>= f) = (x >>= g) := by
  cases x with
  | error e => rfl
  | ok a => exact same a rfl

theorem map_eq_ok {x : Except ε α} {f : α → β} {b : β} : x.map f = .ok b ↔ ∃ a, x = .ok a ∧ b = f a := by
  cases x with
  | error e => simp [Except.map]
  | ok a => simp [Except.map, eq_comm]

theorem map_eq_error {x : Except ε α} {f : α → β} {e : ε} : x.map f = .error e ↔ x = .error e := by
  cases x <;> simp [Except.map]

theorem mapError_eq_ok {ε' : Type} {x : Except ε α} {f : ε → ε'} {a : α} : x.mapError f = .ok a ↔ x = .ok a := by
  cases x with
  | error e => exact ⟨nofun, nofun⟩
  | ok b => exact ⟨fun same => congrArg Except.ok (Except.ok.inj same), fun same => congrArg Except.ok (Except.ok.inj same)⟩

theorem mapError_inl_eq_error {ε' : Type} {x : Except ε α} {e : ε} :
    x.mapError (Sum.inl : ε → ε ⊕ ε') = .error (.inl e) ↔ x = .error e := by
  cases x with
  | ok a => exact ⟨nofun, nofun⟩
  | error e' =>
    exact ⟨fun same => congrArg _ (Sum.inl.inj (Except.error.inj same)), fun same => by rw [Except.error.inj same]; rfl⟩

theorem toOption_eq_some {x : Except ε α} {a : α} (found : x.toOption = some a) : x = .ok a := by
  cases x <;> cases found
  rfl

theorem forM_eq_ok {check : α → Except ε Unit} {l : List α} : l.forM check = .ok () ↔ ∀ a ∈ l, check a = .ok () := by
  induction l with
  | nil => simp [pure, Except.pure]
  | cons a l ih =>
    rw [List.forM, bind_eq_ok, List.forall_mem_cons, ih]
    constructor
    · rintro ⟨u, head, tail⟩
      exact ⟨head, tail⟩
    · rintro ⟨head, tail⟩
      exact ⟨(), head, tail⟩

/-- What every step of a loop keeps, the loop keeps. -/
theorem foldlM_invariant {f : β → α → Except ε β} {holds : β → Prop} {l : List α} {start stop : β}
    (step : ∀ a ∈ l, ∀ b next, holds b → f b a = .ok next → holds next) (initially : holds start)
    (ran : l.foldlM f start = .ok stop) : holds stop := by
  induction l generalizing start with
  | nil =>
    cases ran
    exact initially
  | cons a l ih =>
    rw [List.foldlM_cons, bind_eq_ok] at ran
    obtain ⟨next, first, rest⟩ := ran
    exact ih (fun x member => step x (List.mem_cons_of_mem a member))
      (step a List.mem_cons_self start next initially first) rest

/-- Where a loop comes to its end, every step of it does. -/
theorem step_of_foldlM {f : β → α → Except ε β} {l : List α} {start stop : β} (ran : l.foldlM f start = .ok stop) :
    ∀ a ∈ l, ∃ b next, f b a = .ok next := by
  induction l generalizing start with
  | nil => exact nofun
  | cons a l ih =>
    rw [List.foldlM_cons, bind_eq_ok] at ran
    obtain ⟨next, first, rest⟩ := ran
    exact List.forall_mem_cons.mpr ⟨⟨start, next, first⟩, ih rest⟩

/-- A loop fails as one of its steps does. -/
theorem exists_of_foldlM_error {f : β → α → Except ε β} {l : List α} {start : β} {e : ε}
    (failed : l.foldlM f start = .error e) : ∃ a ∈ l, ∃ b, f b a = .error e := by
  induction l generalizing start with
  | nil => cases failed
  | cons a l ih =>
    rw [List.foldlM_cons, bind_eq_error] at failed
    rcases failed with failed | ⟨next, -, failed⟩
    · exact ⟨a, List.mem_cons_self, start, failed⟩
    · obtain ⟨a', member, step⟩ := ih failed
      exact ⟨a', List.mem_cons_of_mem a member, step⟩

/-- A loop whose steps add what their element gives adds what all elements give. -/
theorem held_of_foldlM {γ : Type} {step : β → α → Except ε β} (held : β → List γ) (gives : α → Option γ)
    (adds : ∀ b a next, step b a = .ok next → held next = held b ++ (gives a).toList) :
    ∀ {l : List α} {start stop : β}, l.foldlM step start = .ok stop → held stop = held start ++ l.filterMap gives
  | [], start, stop, ran => by
    cases ran
    rw [List.filterMap_nil, List.append_nil]
  | a :: l, start, stop, ran => by
    rw [List.foldlM_cons, bind_eq_ok] at ran
    obtain ⟨next, first, rest⟩ := ran
    rw [held_of_foldlM held gives adds rest, adds start a next first, List.append_assoc]
    cases given : gives a with
    | none => rw [List.filterMap_cons_none given, Option.toList_none, List.nil_append]
    | some c => rw [List.filterMap_cons_some given, Option.toList_some, List.singleton_append]

theorem exists_of_forM_error {check : α → Except ε Unit} {l : List α} {e : ε} (failed : l.forM check = .error e) :
    ∃ a ∈ l, check a = .error e := by
  induction l with
  | nil => cases failed
  | cons a l ih =>
    rw [List.forM, bind_eq_error] at failed
    rcases failed with failed | ⟨⟨⟩, -, failed⟩
    · exact ⟨a, List.mem_cons_self, failed⟩
    · obtain ⟨a', member, failed⟩ := ih failed
      exact ⟨a', List.mem_cons_of_mem a member, failed⟩

theorem exists_of_mapM_error {f : α → Except ε β} {l : List α} {e : ε} (failed : l.mapM f = .error e) :
    ∃ a ∈ l, f a = .error e := by
  induction l with
  | nil => cases failed
  | cons a l ih =>
    rw [List.mapM_cons, bind_eq_error] at failed
    rcases failed with failed | ⟨b, -, failed⟩
    · exact ⟨a, List.mem_cons_self, failed⟩
    · rcases bind_eq_error.mp failed with failed | ⟨rest, -, failed⟩
      · obtain ⟨a', member, step⟩ := ih failed
        exact ⟨a', List.mem_cons_of_mem a member, step⟩
      · cases failed

/-- A loop comes to its end if all of its steps do. -/
theorem exists_mapM {f : α → Except ε β} {l : List α} (steps : ∀ a ∈ l, ∃ b, f a = .ok b) : ∃ results, l.mapM f = .ok results := by
  cases ran : l.mapM f with
  | ok results => exact ⟨results, rfl⟩
  | error e =>
    obtain ⟨a, member, failed⟩ := exists_of_mapM_error ran
    obtain ⟨b, found⟩ := steps a member
    rw [found] at failed
    cases failed

/-- Every result of a loop is that of one of its steps. -/
theorem exists_of_mem_mapM {f : α → Except ε β} {l : List α} {results : List β} (ran : l.mapM f = .ok results) :
    ∀ b ∈ results, ∃ a ∈ l, f a = .ok b := by
  induction l generalizing results with
  | nil =>
    cases ran
    exact nofun
  | cons a l ih =>
    rw [List.mapM_cons, bind_eq_ok] at ran
    obtain ⟨b, first, ran⟩ := ran
    obtain ⟨rest, others, ran⟩ := bind_eq_ok.mp ran
    cases ran
    refine List.forall_mem_cons.mpr ⟨⟨a, List.mem_cons_self, first⟩, fun b member => ?_⟩
    obtain ⟨a', member, found⟩ := ih others b member
    exact ⟨a', List.mem_cons_of_mem a member, found⟩

/-- The results of a loop are in order if its steps keep the order of what they are taken over. -/
theorem pairwise_of_mapM {f : α → Except ε β} {before : α → α → Prop} {before' : β → β → Prop} {l : List α}
    {results : List β} (keeps : ∀ a a' b b', before a a' → f a = .ok b → f a' = .ok b' → before' b b')
    (sorted : l.Pairwise before) (ran : l.mapM f = .ok results) : results.Pairwise before' := by
  induction l generalizing results with
  | nil =>
    cases ran
    exact List.Pairwise.nil
  | cons a l ih =>
    rw [List.mapM_cons, bind_eq_ok] at ran
    obtain ⟨b, first, ran⟩ := ran
    obtain ⟨rest, others, ran⟩ := bind_eq_ok.mp ran
    cases ran
    obtain ⟨head, tail⟩ := List.pairwise_cons.mp sorted
    refine List.Pairwise.cons (fun b' member => ?_) (ih tail others)
    obtain ⟨a', member, found⟩ := exists_of_mem_mapM others b' member
    exact keeps a a' b b' (head a' member) first found

@[simp] theorem liftFault_ok (a : α) : liftFault (.ok a) = .ok a := rfl

@[simp] theorem liftFault_error (f : Fault) : liftFault (.error f : Except Fault α) = .error (.fault f) := rfl

theorem liftFault_eq_ok {r : Except Fault α} {a : α} : liftFault r = .ok a ↔ r = .ok a := by
  constructor
  · intro lifted
    cases r with
    | error e => cases lifted
    | ok b =>
      cases lifted
      rfl
  · rintro rfl
    rfl

theorem liftFault_eq_error {r : Except Fault α} {e : Failure} : liftFault r = .error e ↔ ∃ f, r = .error f ∧ e = .fault f := by
  cases r with
  | ok a => exact ⟨nofun, nofun⟩
  | error f =>
    constructor
    · rintro ⟨⟩
      exact ⟨f, rfl, rfl⟩
    · rintro ⟨_, ⟨⟩, rfl⟩
      rfl

/-! ### Recovering -/

theorem Failure.isValue_of_isRule {e : Failure} (rule : e.isRule = true) : e.isValue = true := by
  cases e <;> first | rfl | cases rule

theorem Failure.isValue_of_isDate {e : Failure} (date : e.isDate = true) : e.isValue = true := by
  cases e <;> first | rfl | cases date

theorem Failure.isValueOrRange_of_isValue {e : Failure} (value : e.isValue = true) : e.isValueOrRange = true := by
  cases e with
  | fault f => exact Bool.or_eq_true_iff.mpr (.inl value)
  | _ => exact value

theorem Failure.isValueOrKind_of_isValue {e : Failure} (value : e.isValue = true) : e.isValueOrKind = true := by
  cases e with
  | fault f => exact Bool.or_eq_true_iff.mpr (.inl value)
  | _ => exact value

theorem exists_recover {r : Result α} {recovers : Failure → Bool} {fallback : α}
    (recovered : ∀ e, r = .error e → recovers e = true) : ∃ a, r.recover recovers fallback = .ok a := by
  cases r with
  | ok a => exact ⟨a, rfl⟩
  | error e => exact ⟨fallback, if_pos (recovered e rfl)⟩

/-- What is left of a result is the result itself or what stands in for it. -/
theorem eq_ok_or_of_recover {r : Result α} {recovers : Failure → Bool} {fallback a : α}
    (recovered : r.recover recovers fallback = .ok a) : r = .ok a ∨ a = fallback := by
  cases r with
  | ok b => exact .inl recovered
  | error e =>
    unfold Result.recover at recovered
    dsimp only at recovered
    split at recovered
    · exact .inr (Except.ok.inj recovered).symm
    · cases recovered

end Cadence
