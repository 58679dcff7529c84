/-
# The inventory of a heap

The arena, the allocation list, the free list and the count of a heap tell the same story,
and so does its history.  The inventory of a run (`Heap.inventory`) is kept beside it: a cell
enters it in front when it is allocated, and leaves it when a sweep finds it unmarked.  After
any commands whatever, made with handles that resolve or do not, and however they ended, the
heap holds exactly its inventory, in that order (`Heap.consistent_carryOut`).

`Stocks` is the invariant.  One command keeps it while the inventory is brought up to date
(`Stocks.enter`), and a run does so by induction on its commands (`Stocks.inventory`).  Nothing
is ever left waiting to be marked, either (`Heap.worklist_carryOut`).
-/

import MarkSweep.Proofs.Heap.Marking
import MarkSweep.Proofs.Heap.Sweeping

namespace MarkSweep

/-- The payload with both links filled, if it has links. -/
def Payload.filled (first second : Ref) : Payload → Payload
  | .scalar value => .scalar value
  | .pair _ _ => .pair (some first) (some second)

namespace Heap

/-- What a heap can be asked for on its own.  The handles need not resolve. -/
inductive Command where
  | allocate (payload : Payload)
  | setPair (pair first second : Ref)
  | mark (root : Ref)
  | markFrom (roots : List Ref)
  | sweep
  deriving DecidableEq

namespace Command

/-- What the heap does. -/
def act : Command → Action Heap Unit
  | .allocate payload => (fun _ => ()) <$> Heap.allocate payload
  | .setPair pair first second => Heap.setPair pair first second
  | .mark root => (fun _ => ()) <$> Heap.mark root
  | .markFrom roots => (fun _ => ()) <$> Heap.markFrom roots
  | .sweep => (fun _ => ()) <$> Heap.sweep

/-- The inventory after a command on a heap: the handles with the payloads they were given,
the latest first. -/
def enter (session : Session Heap) (stock : List (Ref × Payload)) :
    Command → List (Ref × Payload)
  | .allocate payload =>
    match Heap.allocate payload session with
    | .ok r _ => (r, payload) :: stock
    | .error _ _ => stock
  | .setPair pair first second =>
    stock.map fun (r, payload) => (r, if r = pair then payload.filled first second else payload)
  | .sweep => stock.filter fun (r, _) => session.state.Marked r
  | .mark _ | .markFrom _ => stock

end Command

/-- What is left after commands in this order, whether they succeed or fail. -/
def carryOut (commands : List Command) (session : Session Heap) : Session Heap :=
  commands.foldl (fun session command => command.act.after session) session

/-- The inventory after commands in this order. -/
def inventory : List Command → Session Heap → List (Ref × Payload) → List (Ref × Payload)
  | [], _, stock => stock
  | command :: commands, session, stock =>
    inventory commands (command.act.after session) (command.enter session stock)

/-- The heap holds these cells, the latest first. -/
structure Stocks (heap : Heap) (stock : List (Ref × Payload)) : Prop where
  listed : heap.Listed (stock.map Prod.fst)
  payload : ∀ entry ∈ stock, heap.payload? entry.1 = some entry.2

namespace Stocks

variable {heap heap' : Heap} {stock : List (Ref × Payload)} {session : Session Heap}

theorem empty : ({} : Heap).Stocks [] where
  listed := Listed.empty
  payload _ hentry := absurd hentry List.not_mem_nil

theorem sameButMarks (h : heap.Stocks stock) (hs : heap.SameButMarks heap') :
    heap'.Stocks stock where
  listed := hs.listed h.listed
  payload entry hentry := (hs.payload entry.1).trans (h.payload entry hentry)

theorem occupy {index : Nat} (h : heap.Stocks stock) (hv : heap.vacancy = .ok index)
    (payload : Payload) :
    (heap.occupy index payload).Stocks ((heap.handle index, payload) :: stock) where
  listed := h.listed.occupy hv payload
  payload entry hentry := by
    rw [payload?_occupy hv]
    rcases List.mem_cons.1 hentry with rfl | hentry
    · rw [if_pos rfl]
    · have hnew : entry.1 ≠ heap.handle index := by
        intro heq
        have hc := h.listed.mem_iff.1 (List.mem_map_of_mem hentry)
        rw [heq, contains_handle_of_vacancy hv] at hc
        cases hc
      rw [if_neg hnew]
      exact h.payload entry hentry

/-- A pair may be filled with any links at all. -/
theorem fill (h : heap.Stocks stock) {pair : Ref} (hpair : heap.contains pair = true)
    (first second : Ref) (hkind : ∀ payload, heap.payload? pair = some payload →
      payload.filled first second = .pair (some first) (some second)) :
    (heap.fill pair first second).Stocks (stock.map fun (r, payload) =>
      (r, if r = pair then payload.filled first second else payload)) where
  listed := by
    have hrefs : (stock.map fun (r, payload) =>
        (r, if r = pair then payload.filled first second else payload)).map Prod.fst =
          stock.map Prod.fst := by
      rw [List.map_map]
      rfl
    rw [hrefs]
    exact h.listed.update pair fun _ => rfl
  payload entry hentry := by
    obtain ⟨⟨r, payload⟩, hold, rfl⟩ := List.mem_map.1 hentry
    have hp := h.payload _ hold
    simp only [payload?_fill hpair]
    by_cases hr : r = pair
    · subst hr
      rw [if_pos rfl, if_pos rfl, hkind payload hp]
    · rw [if_neg hr, if_neg hr, hp]

theorem enter_setPair (h : session.state.Stocks stock) (pair first second : Ref) :
    ((setPair pair first second).after session).state.Stocks
      (Command.enter session stock (.setPair pair first second)) := by
  rcases setPair_cases pair first second session with ⟨hpair, hafter⟩ | ⟨old₁, old₂, hp, hafter⟩
  · -- where nothing is filled the inventory stays as it is
    have hfilled : ∀ entry ∈ stock, entry.1 = pair →
        entry.2.filled first second = entry.2 := by
      rintro ⟨r, payload⟩ hentry rfl
      cases payload with
      | scalar value => rfl
      | pair old₁ old₂ => exact absurd (h.payload _ hentry) (hpair old₁ old₂)
    have hsame : Command.enter session stock (.setPair pair first second) = stock := by
      refine (List.map_congr_left fun entry hentry => ?_).trans (List.map_id stock)
      by_cases hr : entry.1 = pair
      · simp only [if_pos hr, hfilled entry hentry hr, id]
      · simp only [if_neg hr, id]
    rw [hafter, hsame]
    exact h
  · rw [hafter]
    refine h.fill (contains_iff_payload?.2 ⟨_, hp⟩) first second fun payload hpayload => ?_
    obtain rfl := Option.some.inj (hp.symm.trans hpayload)
    rfl

theorem enter_allocate (h : session.state.Stocks stock) (payload : Payload) :
    ((allocate payload).after session).state.Stocks
      (Command.enter session stock (.allocate payload)) := by
  obtain ⟨heap, journal, output⟩ := session
  rcases allocate_cases h.listed payload journal output with ⟨-, hallocate⟩ |
    ⟨index, hv, hallocate⟩
  · rw [Command.enter, hallocate, Action.after_of_error hallocate]
    exact h
  · rw [Command.enter, hallocate, Action.after_of_ok hallocate]
    exact h.occupy hv payload

theorem enter_sweep (h : session.state.Stocks stock) :
    (sweep.after session).state.Stocks (Command.enter session stock .sweep) := by
  obtain ⟨heap, journal, output⟩ := session
  obtain ⟨swept, hswept, hsweep⟩ := sweep_eq_ok h.listed journal output
  rw [Command.enter, Action.after_of_ok hsweep]
  refine ⟨?_, fun entry hentry => ?_⟩
  · have hrefs : (stock.filter fun (r, _) => heap.Marked r).map Prod.fst =
        heap.survivors (stock.map Prod.fst) := by
      rw [survivors, List.filter_map]
      rfl
    rw [hrefs]
    exact hswept.listed
  · obtain ⟨hold, hmarked⟩ := List.mem_filter.1 hentry
    rw [hswept.payload, if_pos (of_decide_eq_true hmarked)]
    exact h.payload entry hold

/-- **The heap keeps to its inventory under every command**, whether it succeeds or fails. -/
theorem enter (h : session.state.Stocks stock) (command : Command) :
    (command.act.after session).state.Stocks (command.enter session stock) := by
  cases command with
  | allocate payload =>
    rw [Command.act, Action.after_map]
    exact h.enter_allocate payload
  | setPair pair first second => exact h.enter_setPair pair first second
  | mark root =>
    rw [Command.act, Action.after_map]
    exact h.sameButMarks (sameButMarks_mark root session)
  | markFrom roots =>
    rw [Command.act, Action.after_map]
    exact h.sameButMarks (sameButMarks_markFrom roots session)
  | sweep =>
    rw [Command.act, Action.after_map]
    exact h.enter_sweep

/-- The heap keeps to its inventory through a whole run. -/
theorem inventory (h : session.state.Stocks stock) (commands : List Command) :
    (carryOut commands session).state.Stocks (Heap.inventory commands session stock) := by
  induction commands generalizing session stock with
  | nil => exact h
  | cons command commands ih => exact ih (h.enter command)

theorem cells_eq (h : heap.Stocks stock) :
    heap.cells.map (fun (r, cell) => (r, cell.payload)) = stock := by
  have hentry : ∀ entry ∈ stock,
      (heap.payload? entry.1).map (fun payload => (entry.1, payload)) = some entry :=
    fun entry hentry => by rw [h.payload entry hentry]; rfl
  rw [h.listed.cells_eq, List.map_filterMap, List.filterMap_map]
  refine Eq.trans (List.filterMap_congr fun entry hm => ?_) List.filterMap_some
  rw [← hentry entry hm, payload?, Option.map_map]
  simp only [Function.comp_apply, Option.map_map]
  rfl

end Stocks

/-- The arena, the two lists and the count of a heap agree with each other and with an
inventory. -/
structure Consistent (heap : Heap) (stock : List (Ref × Payload)) : Prop where
  /-- Following the links from the head on meets the handles in stock, the latest first, and
  comes to an end. -/
  threads : heap.Threads heap.head (stock.map Prod.fst)
  /-- They are the handles of the slots that are taken. -/
  taken : ∀ i, i ∈ stock.map (fun entry => entry.1.index) ↔
    i < heap.slotCount ∧ ¬ heap.Vacant i
  once : (stock.map fun entry => entry.1.index).Nodup
  current : ∀ entry ∈ stock, heap.handle entry.1.index = entry.1
  count : heap.count = stock.length
  /-- The free list holds the vacant slots, each once. -/
  free : ∀ i, i ∈ heap.free ↔ heap.Vacant i
  free_once : heap.free.Nodup
  slots : heap.count + heap.free.length = heap.slotCount
  cells : heap.cells.map (fun (r, cell) => (r, cell.payload)) = stock

theorem Stocks.consistent {heap : Heap} {stock : List (Ref × Payload)}
    (h : heap.Stocks stock) : heap.Consistent stock := by
  have hindex : stock.map (fun entry => entry.1.index) = (stock.map Prod.fst).map Ref.index :=
    List.map_map.symm
  refine ⟨h.listed.threads, ?_, ?_, fun entry hentry => ?_, ?_, h.listed.mem_free_iff,
    h.listed.free_nodup, h.listed.count_add_length_free, h.cells_eq⟩
  · rw [hindex]
    exact fun _ => h.listed.mem_map_index_iff
  · rw [hindex]
    exact h.listed.nodup_map_index
  · exact (contains_iff.1 (h.listed.mem_iff.1 (List.mem_map_of_mem hentry))).2.2
  · rw [h.listed.count, List.length_map]

/-- **Every heap holds exactly its inventory**, whatever commands it was given and however
they ended: the links from the head on run through the slots that are taken, each once and in
its own generation, the latest cell first; the count is their number; and the free list holds
the other slots.  A sweep can therefore not fail. -/
theorem consistent_carryOut (commands : List Command) :
    (carryOut commands ⟨{}, [], ""⟩).state.Consistent (inventory commands ⟨{}, [], ""⟩ []) ∧
      ∃ freed session, sweep (carryOut commands ⟨{}, [], ""⟩) = .ok freed session := by
  have hstocks : (carryOut commands ⟨{}, [], ""⟩).state.Stocks
      (inventory commands ⟨{}, [], ""⟩ []) := Stocks.empty.inventory commands
  obtain ⟨swept, -, hsweep⟩ := sweep_eq_ok hstocks.listed
    (carryOut commands ⟨{}, [], ""⟩).journal (carryOut commands ⟨{}, [], ""⟩).output
  exact ⟨hstocks.consistent, _, _, hsweep⟩

/-- A dangling link stops a marking halfway; the sweep after it keeps what was marked, and
the slot it vacates is taken by the next cell. -/
example : inventory [.allocate (.scalar 1), .allocate (.pair (some ⟨7, 0⟩) none),
    .allocate (.scalar 3), .mark ⟨1, 0⟩, .mark ⟨2, 0⟩, .sweep, .allocate (.scalar 4),
    .setPair ⟨1, 0⟩ ⟨9, 9⟩ ⟨1, 0⟩] ⟨{}, [], ""⟩ [] =
      [(⟨0, 1⟩, .scalar 4), (⟨2, 0⟩, .scalar 3),
        (⟨1, 0⟩, .pair (some ⟨9, 9⟩) (some ⟨1, 0⟩))] := by
  decide +kernel

/-! ### Between commands -/

/-- A pair that is filled, or not, leaves alone what waits on the heap. -/
theorem worklist_setPair (pair first second : Ref) (session : Session Heap) :
    ((setPair pair first second).after session).state.worklist = session.state.worklist := by
  rcases setPair_cases pair first second session with ⟨-, hafter⟩ | ⟨old₁, old₂, -, hafter⟩
  · rw [hafter]
  · rw [hafter]
    rfl

theorem Stocks.worklist_act {session : Session Heap} {stock : List (Ref × Payload)}
    (h : session.state.Stocks stock) (hidle : session.state.worklist = []) (command : Command) :
    (command.act.after session).state.worklist = [] := by
  cases command with
  | allocate payload =>
    obtain ⟨heap, journal, output⟩ := session
    rw [Command.act, Action.after_map]
    rcases allocate_cases h.listed payload journal output with ⟨-, hrun⟩ | ⟨index, -, hrun⟩
    · rw [Action.after_of_error hrun]
      exact hidle
    · rw [Action.after_of_ok hrun]
      exact hidle
  | setPair pair first second => exact (worklist_setPair pair first second session).trans hidle
  | mark root =>
    rw [Command.act, Action.after_map]
    exact worklist_mark root session
  | markFrom roots =>
    rw [Command.act, Action.after_map]
    exact worklist_markFrom roots hidle
  | sweep =>
    obtain ⟨heap, journal, output⟩ := session
    obtain ⟨swept, hswept, hrun⟩ := sweep_eq_ok h.listed journal output
    rw [Command.act, Action.after_map, Action.after_of_ok hrun]
    exact hswept.worklist.trans hidle

/-- **Nothing waits to be marked between commands**, however they ended. -/
theorem worklist_carryOut (commands : List Command) :
    (carryOut commands ⟨{}, [], ""⟩).state.worklist = [] := by
  suffices h : ∀ (session : Session Heap) (stock : List (Ref × Payload)),
      session.state.Stocks stock → session.state.worklist = [] →
        (carryOut commands session).state.worklist = [] from h _ _ .empty rfl
  induction commands with
  | nil => exact fun _ _ _ hidle => hidle
  | cons command commands ih =>
    exact fun session stock h hidle => ih _ _ (h.enter command) (h.worklist_act hidle command)

end Heap

end MarkSweep
