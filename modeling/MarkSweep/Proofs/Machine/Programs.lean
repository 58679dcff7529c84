/-
# Programs

A program that knows no handles names cells by where they are: a `Place` is a position on
the root stack and the links to follow from there.  Such a program can name only what is
live (`Place.live_of_cell?`), so an instruction is legal whenever its places name cells and
the one to be filled is a pair (`Instruction.legal_of_operation?`).

`trace` is what a program can tell of its run: how each instruction ended, and the machine
it left.  Collections that the program asks for are made, and left out.

On machines that mirror each other a place names cells that mirror each other
(`Mirrors.cell?`), so instructions become the same operations up to the renaming
(`Mirrors.operation?`).
-/

import MarkSweep.Proofs.Machine.Mirroring

namespace MarkSweep

/-- One of the two links of a pair. -/
inductive Side where
  | first
  | second
  deriving DecidableEq

/-- A link of a payload. -/
def Payload.link? (payload : Payload) : Side → Option Ref
  | .first => payload.first?
  | .second => payload.second?

/-- The cell that is reached from another along links. -/
def Heap.walk (heap : Heap) (r : Ref) : List Side → Option Ref
  | [] => some r
  | side :: path => do heap.walk (← (← heap.payload? r).link? side) path

/-- A position on the root stack, counted from the bottom, and links to follow from
there. -/
structure Place where
  position : Nat
  path : List Side := []
  deriving DecidableEq

/-- The cell at a place, if there is one. -/
def Place.cell? (machine : Machine) (place : Place) : Option Ref := do
  machine.heap.walk (← machine.roots.toList[place.position]?) place.path

/-- The pair at a place, if there is one. -/
def Place.pair? (machine : Machine) (place : Place) : Option Ref :=
  (place.cell? machine).filter fun r => (machine.heap.payload? r).any (·.kind = .pair)

/-- An operation on cells that are named by places. -/
inductive Instruction where
  | pushScalar (value : Int64)
  | makePair
  | pushRoot (place : Place)
  | popRoot
  | collect
  | setPair (pair first second : Place)
  deriving DecidableEq

/-- How an instruction ended. -/
inductive Outcome where
  /-- The operation was made, and failed if there is a failure. -/
  | ended (failure? : Option Failure)
  /-- A place names no cell, or the one to be filled is no pair. -/
  | unnamed
  deriving DecidableEq

namespace Instruction

/-- The operation on the cells that the places name. -/
def operation? (machine : Machine) : Instruction → Option Operation
  | .pushScalar value => some (.pushScalar value)
  | .makePair => some .makePair
  | .pushRoot place => (place.cell? machine).map .pushRoot
  | .popRoot => some .popRoot
  | .collect => some .collect
  | .setPair pair first second => do
    return .setPair (← pair.pair? machine) (← first.cell? machine) (← second.cell? machine)

/-- How an instruction ends, and what it leaves. -/
def perform (instruction : Instruction) (session : Session Machine) :
    Outcome × Session Machine :=
  match instruction.operation? session.state with
  | none => (.unnamed, session)
  | some op => (.ended (op.act.failure? session), op.act.after session)

/-- The outcomes of the instructions of a program, each with the machine it left.
Collections are made and not counted as instructions. -/
def trace : List Instruction → Session Machine → List (Outcome × Machine)
  | [], _ => []
  | instruction :: program, session =>
    match instruction.perform session with
    | (outcome, session) =>
      if instruction = .collect then
        trace program session
      else
        (outcome, session.state) :: trace program session

/-- What a program leaves. -/
def final (program : List Instruction) (session : Session Machine) : Session Machine :=
  program.foldl (fun session instruction => (instruction.perform session).2) session

theorem trace_collect (program : List Instruction) (session : Session Machine) :
    trace (.collect :: program) session = trace program (collect.perform session).2 := by
  rw [trace]
  exact if_pos rfl

theorem trace_cons {instruction : Instruction} (h : instruction ≠ .collect)
    (program : List Instruction) (session : Session Machine) :
    trace (instruction :: program) session =
      ((instruction.perform session).1, (instruction.perform session).2.state) ::
        trace program (instruction.perform session).2 := by
  rw [trace]
  exact if_neg h

end Instruction

namespace Operation

/-- The operation on renamed operands. -/
def rename (f : Ref → Ref) : Operation → Operation
  | .pushRoot r => .pushRoot (f r)
  | .setPair pair first second => .setPair (f pair) (f first) (f second)
  | op => op

/-- The operands are live, and only pairs are filled. -/
def Named (machine : Machine) : Operation → Prop
  | .pushRoot r => r ∈ machine.live
  | .setPair pair first second =>
    (pair ∈ machine.live ∧ ∃ old₁ old₂, machine.heap.payload? pair = some (.pair old₁ old₂)) ∧
      first ∈ machine.live ∧ second ∈ machine.live
  | _ => True

theorem Named.legal {machine : Machine} {op : Operation} (h : op.Named machine)
    (hs : machine.Sound) : op.Legal machine := by
  cases op with
  | setPair pair first second =>
    obtain ⟨⟨-, hpair⟩, hfirst, hsecond⟩ := h
    exact ⟨hpair, hs.contains_of_live hfirst, hs.contains_of_live hsecond⟩
  | _ => trivial

end Operation

variable {machine left right : Machine} {f : Ref → Ref} {r s : Ref}

/-! ### What places name -/

theorem Payload.mem_edges_of_link? {payload : Payload} {side : Side}
    (h : payload.link? side = some r) : r ∈ payload.edges := by
  cases side with
  | first => exact Payload.mem_edges_iff.2 (Or.inl h)
  | second => exact Payload.mem_edges_iff.2 (Or.inr h)

theorem Payload.link?_rename (f : Ref → Ref) (payload : Payload) (side : Side) :
    (payload.rename f).link? side = (payload.link? side).map f := by
  cases payload <;> cases side <;> rfl

/-- Links lead from live cells to live cells. -/
theorem Machine.live_of_walk (path : List Side) (hr : r ∈ machine.live)
    (h : machine.heap.walk r path = some s) : s ∈ machine.live := by
  induction path generalizing r with
  | nil =>
    obtain rfl := Option.some.inj h
    exact hr
  | cons side path ih =>
    obtain ⟨payload, hp, hnext⟩ := Option.bind_eq_some_iff.1 h
    obtain ⟨next, hlink, hwalk⟩ := Option.bind_eq_some_iff.1 hnext
    exact ih (.edge hr hp (Payload.mem_edges_of_link? hlink)) hwalk

/-- What a place names is live. -/
theorem Place.live_of_cell? {place : Place} (h : place.cell? machine = some r) :
    r ∈ machine.live := by
  obtain ⟨root, hroot, hwalk⟩ := Option.bind_eq_some_iff.1 h
  exact machine.live_of_walk place.path (.root (List.mem_of_getElem? hroot)) hwalk

theorem Place.cell?_of_pair? {place : Place} (h : place.pair? machine = some r) :
    place.cell? machine = some r ∧
      ∃ first second, machine.heap.payload? r = some (.pair first second) := by
  obtain ⟨hcell, hpair⟩ := Option.filter_eq_some_iff.1 h
  obtain ⟨payload, hp, hkind⟩ := (Option.any_eq_true _ _).1 hpair
  cases payload with
  | scalar value => simp [Payload.kind] at hkind
  | pair first second => exact ⟨hcell, first, second, hp⟩

/-- An instruction becomes an operation on cells that are live. -/
theorem Instruction.named_of_operation? {instruction : Instruction} {op : Operation}
    (h : instruction.operation? machine = some op) : op.Named machine := by
  cases instruction with
  | pushRoot place =>
    obtain ⟨r, hr, rfl⟩ := Option.map_eq_some_iff.1 h
    exact Place.live_of_cell? hr
  | setPair pair first second =>
    obtain ⟨p, hpair, h⟩ := Option.bind_eq_some_iff.1 h
    obtain ⟨x, hfirst, h⟩ := Option.bind_eq_some_iff.1 h
    obtain ⟨y, hsecond, h⟩ := Option.bind_eq_some_iff.1 h
    obtain rfl := Option.some.inj h
    obtain ⟨hcell, hp⟩ := Place.cell?_of_pair? hpair
    exact ⟨⟨Place.live_of_cell? hcell, hp⟩, Place.live_of_cell? hfirst,
      Place.live_of_cell? hsecond⟩
  | pushScalar value =>
    obtain rfl := Option.some.inj h
    trivial
  | _ =>
    obtain rfl := Option.some.inj h
    trivial

/-! ### Places on machines that mirror each other -/

namespace Machine.Mirrors

theorem walk (h : left.Mirrors f right) (path : List Side) (hr : r ∈ left.live) :
    right.heap.walk (f r) path = (left.heap.walk r path).map f := by
  induction path generalizing r with
  | nil => rfl
  | cons side path ih =>
    rw [Heap.walk, Heap.walk, h.payload r hr]
    cases hp : left.heap.payload? r with
    | none => rfl
    | some payload =>
      show ((payload.rename f).link? side).bind _ = Option.map f ((payload.link? side).bind _)
      rw [Payload.link?_rename]
      cases hlink : payload.link? side with
      | none => rfl
      | some next => exact ih (.edge hr hp (Payload.mem_edges_of_link? hlink))

theorem cell? (h : left.Mirrors f right) (place : Place) :
    place.cell? right = (place.cell? left).map f := by
  rw [Place.cell?, Place.cell?, h.roots, List.getElem?_map]
  cases hroot : left.roots.toList[place.position]? with
  | none => rfl
  | some root => exact h.walk place.path (.root (List.mem_of_getElem? hroot))

theorem pair? (h : left.Mirrors f right) (place : Place) :
    place.pair? right = (place.pair? left).map f := by
  rw [Place.pair?, Place.pair?, h.cell? place]
  cases hcell : place.cell? left with
  | none => rfl
  | some r =>
    have hkind : (right.heap.payload? (f r)).any (·.kind = .pair) =
        (left.heap.payload? r).any (·.kind = .pair) := by
      rw [h.payload r (Place.live_of_cell? hcell)]
      cases left.heap.payload? r with
      | none => rfl
      | some payload => cases payload <;> rfl
    rw [Option.map_some, Option.filter_some, Option.filter_some, hkind]
    split_ifs <;> rfl

/-- **An instruction becomes the same operation on both machines**, up to the renaming, or
none on either. -/
theorem operation? (h : left.Mirrors f right) (instruction : Instruction) :
    instruction.operation? right = (instruction.operation? left).map (Operation.rename f) := by
  cases instruction with
  | pushRoot place =>
    rw [Instruction.operation?, Instruction.operation?, h.cell? place, Option.map_map,
      Option.map_map]
    rfl
  | setPair pair first second =>
    rw [Instruction.operation?, Instruction.operation?, h.pair? pair, h.cell? first,
      h.cell? second]
    cases pair.pair? left <;> cases first.cell? left <;> cases second.cell? left <;> rfl
  | _ => rfl

end Machine.Mirrors

end MarkSweep
