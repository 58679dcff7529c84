/-
# Actions

An operation on a machine, a heap or a root stack is an `Action`: it may fail,
it changes a state, it writes journal records and it may print.  A failing
action keeps the state it had reached, because an operation that breaks off
leaves behind what it had done so far.

The state is taken apart and put back by patterns, never held on to, so that the
arrays inside it are updated in place.
-/

import MarkSweep.Failure
import MarkSweep.Journal

namespace MarkSweep

/-- A state with what has been recorded and printed on the way to it. -/
structure Session (σ : Type) where
  state : σ
  /-- The records so far, latest first. -/
  journal : List Record := []
  /-- The text printed so far. -/
  output : String := ""

/-- The records of a session in the order in which they were made. -/
def Session.records {σ : Type} (session : Session σ) : List Record :=
  session.journal.reverse

/-- An operation on a state `σ` that answers an `α` or fails. -/
abbrev Action (σ α : Type) : Type :=
  EStateM Failure (Session σ) α

namespace Action

variable {σ τ α : Type}

/-- Reads off the state. -/
@[inline] def observe (f : σ → α) : Action σ α :=
  fun session => .ok (f session.state) session

/-- Changes the state. -/
@[inline] def update (f : σ → σ) : Action σ Unit :=
  fun ⟨state, journal, output⟩ => .ok () ⟨f state, journal, output⟩

/-- Replaces the state and answers with what the change found. -/
@[inline] def transition (f : σ → α × σ) : Action σ α :=
  fun ⟨state, journal, output⟩ =>
    match f state with
    | (a, state) => .ok a ⟨state, journal, output⟩

/-- Writes a record into the journal. -/
@[inline] def record (r : Record) : Action σ Unit :=
  fun ⟨state, journal, output⟩ => .ok () ⟨state, r :: journal, output⟩

/-- Writes records into the journal, in the order in which they are given. -/
@[inline] def recordAll (rs : List Record) : Action σ Unit :=
  fun ⟨state, journal, output⟩ => .ok () ⟨state, rs.reverse ++ journal, output⟩

/-- Prints a text. -/
@[inline] def print (text : String) : Action σ Unit :=
  fun ⟨state, journal, output⟩ => .ok () ⟨state, journal, output ++ text⟩

/-- Breaks off for a broken precondition. -/
@[inline] def abort (cause : Fault) : Action σ α :=
  throw (.fault cause)

/-- Runs an action on a part of the state.  `split` takes the part out and says
how to put it back. -/
@[inline] def focus (split : σ → τ × (τ → σ)) (act : Action τ α) : Action σ α :=
  fun ⟨state, journal, output⟩ =>
    match split state with
    | (part, restore) =>
      match act ⟨part, journal, output⟩ with
      | .ok a ⟨part, journal, output⟩ => .ok a ⟨restore part, journal, output⟩
      | .error e ⟨part, journal, output⟩ => .error e ⟨restore part, journal, output⟩

/-- The session that an action leaves, however it ends. -/
def after (act : Action σ α) (session : Session σ) : Session σ :=
  match act session with
  | .ok _ session => session
  | .error _ session => session

/-- What an action fails with, unless it succeeds. -/
def failure? (act : Action σ α) (session : Session σ) : Option Failure :=
  match act session with
  | .ok _ _ => none
  | .error failure _ => some failure

/-! What each of these does to a session, and how actions follow each other. -/

@[simp] theorem observe_apply (f : σ → α) (session : Session σ) :
    observe f session = .ok (f session.state) session := rfl

@[simp] theorem update_apply (f : σ → σ) (state : σ) (journal : List Record) (output : String) :
    update f ⟨state, journal, output⟩ = .ok () ⟨f state, journal, output⟩ := rfl

@[simp] theorem transition_apply (f : σ → α × σ) (state : σ) (journal : List Record)
    (output : String) :
    transition f ⟨state, journal, output⟩ =
      .ok (f state).1 ⟨(f state).2, journal, output⟩ := rfl

@[simp] theorem record_apply (r : Record) (state : σ) (journal : List Record)
    (output : String) :
    record r ⟨state, journal, output⟩ = .ok () ⟨state, r :: journal, output⟩ := rfl

@[simp] theorem recordAll_apply (rs : List Record) (state : σ) (journal : List Record)
    (output : String) :
    recordAll rs ⟨state, journal, output⟩ =
      .ok () ⟨state, rs.reverse ++ journal, output⟩ := rfl

@[simp] theorem print_apply (text : String) (state : σ) (journal : List Record)
    (output : String) :
    print text ⟨state, journal, output⟩ = .ok () ⟨state, journal, output ++ text⟩ := rfl

@[simp] theorem throw_apply (failure : Failure) (session : Session σ) :
    (throw failure : Action σ α) session = .error failure session := rfl

@[simp] theorem abort_apply (cause : Fault) (session : Session σ) :
    (abort cause : Action σ α) session = .error (.fault cause) session := rfl

@[simp] theorem pure_apply (a : α) (session : Session σ) :
    (pure a : Action σ α) session = .ok a session := rfl

@[simp] theorem bind_apply {β : Type} (act : Action σ α) (next : α → Action σ β)
    (session : Session σ) :
    (act >>= next) session =
      match act session with
      | .ok a session => next a session
      | .error failure session => .error failure session := by
  cases h : act session <;> simp [bind, EStateM.bind, h]

@[simp] theorem map_apply {β : Type} (f : α → β) (act : Action σ α) (session : Session σ) :
    (f <$> act) session =
      match act session with
      | .ok a session => .ok (f a) session
      | .error failure session => .error failure session := by
  cases h : act session <;> simp [Functor.map, EStateM.map, h]

@[simp] theorem after_map {β : Type} (f : α → β) (act : Action σ α) (session : Session σ) :
    after (f <$> act) session = after act session := by
  rw [after, map_apply, after]
  cases act session <;> rfl

theorem map_of_ok {β : Type} {act : Action σ α} {session session' : Session σ} {a : α}
    (h : act session = .ok a session') (f : α → β) :
    (f <$> act) session = .ok (f a) session' := by
  rw [map_apply, h]

theorem map_of_error {β : Type} {act : Action σ α} {session session' : Session σ}
    {failure : Failure} (h : act session = .error failure session') (f : α → β) :
    (f <$> act) session = .error failure session' := by
  rw [map_apply, h]

theorem after_of_ok {act : Action σ α} {session session' : Session σ} {a : α}
    (h : act session = .ok a session') : after act session = session' := by
  rw [after, h]

theorem after_of_error {act : Action σ α} {session session' : Session σ} {failure : Failure}
    (h : act session = .error failure session') : after act session = session' := by
  rw [after, h]

theorem failure?_of_ok {act : Action σ α} {session session' : Session σ} {a : α}
    (h : act session = .ok a session') : failure? act session = none := by
  rw [failure?, h]

theorem failure?_of_error {act : Action σ α} {session session' : Session σ} {failure : Failure}
    (h : act session = .error failure session') : failure? act session = some failure := by
  rw [failure?, h]

theorem failure?_eq_none_iff {act : Action σ α} {session : Session σ} :
    failure? act session = none ↔ ∃ a session', act session = .ok a session' := by
  refine ⟨fun h => ?_, fun ⟨a, session', h⟩ => failure?_of_ok h⟩
  cases hact : act session with
  | ok a session' => exact ⟨a, session', rfl⟩
  | error failure session' =>
    rw [failure?_of_error hact] at h
    cases h

theorem failure?_eq_some_iff {act : Action σ α} {session : Session σ} {failure : Failure} :
    failure? act session = some failure ↔ ∃ session', act session = .error failure session' := by
  refine ⟨fun h => ?_, fun ⟨session', h⟩ => failure?_of_error h⟩
  cases hact : act session with
  | ok a session' =>
    rw [failure?_of_ok hact] at h
    cases h
  | error failure' session' =>
    rw [failure?_of_error hact] at h
    exact ⟨session', Option.some.inj h ▸ rfl⟩

end Action

end MarkSweep
