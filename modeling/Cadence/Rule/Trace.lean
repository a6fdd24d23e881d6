import Cadence.Datum

/-!
# Traces

The timestamps of a rule in the order in which they are found. A trace goes on only as far as it is
asked to, ends when there are no more timestamps, and may fail on the way. `Trace.toList` is all of it;
the queries `take`, `between` and `after` and the operations on traces look at no more than they need.
-/

namespace Cadence

/-- Timestamps found one after the other. -/
inductive Trace where
  /-- There are no more. -/
  | done
  /-- Looking for the next one fails. -/
  | failed (f : Fault)
  /-- One timestamp, and the rest when it is asked for. -/
  | item (s : Stamp) (rest : Unit → Trace)

namespace Trace

/-- All timestamps, and the fault if looking for more of them fails. -/
def toList : Trace → List Stamp × Option Fault
  | done => ([], none)
  | failed f => ([], some f)
  | item s rest => let (found, fault) := toList (rest ()); (s :: found, fault)

/-- The timestamps of a list and then those of a trace. -/
def prepend (found : List Stamp) (rest : Unit → Trace) : Trace :=
  match found with
  | [] => rest ()
  | s :: more => item s fun _ => prepend more rest

/-- The timestamps of a list. -/
def ofList (found : List Stamp) : Trace := prepend found fun _ => done

/-! ### Limits -/

/-- The timestamps up to the first one after `last`. -/
def upTo (last : Stamp) : Trace → Trace
  | done => done
  | failed f => failed f
  | item s rest => if last.before s then done else item s fun _ => upTo last (rest ())

/-- The timestamps that are not before `first`. -/
def onwards (first : Stamp) : Trace → Trace
  | done => done
  | failed f => failed f
  | item s rest => if s.before first then onwards first (rest ()) else item s fun _ => onwards first (rest ())

/-- The first `count` timestamps. The end comes when the next one is found, or no more are. -/
def first : Nat → Trace → Trace
  | _, done => done
  | _, failed f => failed f
  | 0, item _ _ => done
  | count + 1, item s rest => item s fun _ => first count (rest ())

/-! ### Sets of traces -/

/-- A timestamp before those of a trace, or after the earlier ones among them; `rest` makes what comes
    after the timestamp from what then is left of the trace. -/
def insertBefore (s : Stamp) (rest : Trace → Trace) : Trace → Trace
  | done => item s fun _ => rest done
  | failed f => failed f
  | item t more =>
    if ! s.comparable t then failed .kind
    else if t.before s then item t fun _ => insertBefore s rest (more ())
    else item s fun _ => rest (item t more)

/-- The timestamps of both traces in order. -/
def merge : Trace → Trace → Trace
  | done, other => other
  | failed f, _ => failed f
  | item s rest, other => insertBefore s (fun left => merge (rest ()) left) other

/-- The timestamps without those that repeat the one before; `last` is the one before the first. -/
def distinctFrom (last : Option Stamp) : Trace → Trace
  | done => done
  | failed f => failed f
  | item s rest =>
    if last.any (·.same s) then distinctFrom last (rest ())
    else item s fun _ => distinctFrom (some s) (rest ())

/-- The timestamps of a trace without repetitions. -/
def distinct (t : Trace) : Trace := distinctFrom none t

/-- The trace from the first timestamp on that is not before `s`. -/
def skipBefore (s : Stamp) : Trace → Trace
  | done => done
  | failed f => failed f
  | item t rest =>
    if ! s.comparable t then failed .kind
    else if t.before s then skipBefore s (rest ())
    else item t rest

/-- The timestamps of a trace that are not in another. -/
def without : Trace → Trace → Trace
  | done, _ => done
  | failed f, _ => failed f
  | item s rest, excluded =>
    match skipBefore s excluded with
    | failed f => failed f
    | done => item s fun _ => without (rest ()) done
    | item t more =>
      if t.same s then without (rest ()) (item t more)
      else item s fun _ => without (rest ()) (item t more)

/-! ### Queries -/

/-- The first timestamps, at most so many. Nothing is looked for behind them. -/
def take : Nat → Trace → Except Fault (List Stamp)
  | 0, _ => .ok []
  | _ + 1, done => .ok []
  | _ + 1, failed f => .error f
  | count + 1, item s rest => (take count (rest ())).map (s :: ·)

/-- The timestamps from `low` to `high`, both included. -/
def between (low high : Stamp) : Trace → Except Fault (List Stamp)
  | done => .ok []
  | failed f => .error f
  | item s rest =>
    if ! s.comparable high then .error .kind
    else if high.before s then .ok []
    else if ! s.comparable low then .error .kind
    else if s.before low then between low high (rest ())
    else (between low high (rest ())).map (s :: ·)

/-- The first timestamp after `low`, or at it if that counts. -/
def after (low : Stamp) (inclusive : Bool) : Trace → Except Fault (Option Stamp)
  | done => .ok none
  | failed f => .error f
  | item s rest =>
    if ! s.comparable low then .error .kind
    else if low.before s || (inclusive && ! s.before low) then .ok (some s)
    else after low inclusive (rest ())

/-! ### The whole trace -/

theorem toList_item (s : Stamp) (rest : Unit → Trace) :
    (item s rest).toList = (s :: (rest ()).toList.1, (rest ()).toList.2) := rfl

theorem toList_prepend (found : List Stamp) (rest : Unit → Trace) :
    (prepend found rest).toList = (found ++ (rest ()).toList.1, (rest ()).toList.2) := by
  induction found with
  | nil => rfl
  | cons s more ih => rw [prepend, toList_item]; simp [ih]

theorem toList_ofList (found : List Stamp) : (ofList found).toList = (found, none) := by
  simp [ofList, toList_prepend, toList]

/-- Taking as many timestamps as a trace has is the same as taking them from its list. -/
theorem take_of_toList {t : Trace} {found : List Stamp} (h : t.toList = (found, none)) (n : Nat) :
    t.take n = .ok (found.take n) := by
  induction t generalizing found n with
  | done =>
    obtain ⟨rfl⟩ : found = [] := by simpa [toList] using h.symm
    cases n <;> simp [take]
  | failed f => simp [toList] at h
  | item s rest ih =>
    rw [toList_item] at h
    obtain ⟨rfl, hf⟩ := Prod.mk.inj h
    cases n with
    | zero => simp [take]
    | succ n =>
      have rest_eq : (rest ()).toList = ((rest ()).toList.1, none) := by rw [← hf]
      simp [take, ih () rest_eq n, Except.map]

end Trace

end Cadence
