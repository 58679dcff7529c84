/-
# Reading a dump of the heap back

A dump of the heap has a line for each cell.  The line names the cell by its handle, but the links
of a pair by their slots, so a line by itself does not say which cells it is linked to.  The dump
does.  On a heap that is at rest every link resolves, hence it is to the cell that sits in the slot
now, and that cell has a line of its own with the generation on it.  `Dump.decode?` reads the lines
first and looks the links up in them afterwards.

So nothing is lost in a dump (`Reached.dump_faithful`): the handles and the payloads are read back
from it in their order, and heaps that are dumped alike list the same cells.

Lines are apart because no word has a space or a newline in it, which is a matter of the characters
that numbers are written with (`Plain`).
-/

import MarkSweep.Machine.Dump
import MarkSweep.Proofs.Heap.Seniority
import MarkSweep.Proofs.Machine.Runs
import MarkSweep.Proofs.Unfolding.Decoding

namespace MarkSweep

/-- The cells of the heap by their handles, newest first, with what they hold. -/
def Heap.payloads (heap : Heap) : List (Ref × Payload) :=
  heap.cells.map fun (r, cell) => (r, cell.payload)

variable {heap : Heap} {refs : List Ref} {r s : Ref} {payload : Payload}

theorem Heap.Listed.map_fst_payloads (h : heap.Listed refs) :
    heap.payloads.map Prod.fst = refs := by
  rw [← h.handles_eq, handles, payloads, List.map_map]
  rfl

theorem Heap.Listed.payload?_of_mem (h : heap.Listed refs) (hmem : (r, payload) ∈ heap.payloads) :
    heap.payload? r = some payload := by
  obtain ⟨⟨s, cell⟩, hcell, heq⟩ := List.mem_map.1 hmem
  obtain ⟨rfl, rfl⟩ := Prod.mk.inj heq
  rw [h.cells_eq, List.mem_filterMap] at hcell
  obtain ⟨t, -, ht⟩ := hcell
  obtain ⟨found, hfound, hentry⟩ := Option.map_eq_some_iff.1 ht
  obtain ⟨rfl, rfl⟩ := Prod.mk.inj hentry
  rw [payload?, hfound]
  rfl

namespace Dump

/-! ### The reader -/

/-- What a line tells of a payload: of links the slots alone. -/
inductive Outline where
  | scalar (value : Int64)
  | pair (first second : Option Nat)

/-- The parts of a text between the places where a character stands. -/
def parts (c : Char) (text : String) : List String :=
  (text.split c).toList.map fun part => part.copy

/-- The lines of a text in which every line is ended. -/
def lines (text : String) : List String :=
  (parts '\n' text).dropLast

/-- Reads a number, if nothing follows it. -/
def number? {α : Type} (read : List Char → Option (α × Nat)) (cs : List Char) : Option α :=
  match read cs with
  | none => none
  | some (n, k) => if k = cs.length then some n else none

/-- Reads a slot. -/
def slot? (word : String) : Option Nat :=
  match word.toList with
  | '#' :: digits => number? Unfolding.readNat digits
  | _ => none

/-- Reads a link of a pair. -/
def link? (word : String) : Option (Option Nat) :=
  if word = "nil" then some none else (slot? word).map some

/-- Reads what a line tells of the payload. -/
def outline? : List String → Option Outline
  | ["Scalar", value] => do
    let value ← number? Unfolding.readInt value.toList
    return .scalar (Int64.ofInt value)
  | ["Pair", first, second] => do
    let first ← link? first
    let second ← link? second
    return .pair first second
  | _ => none

/-- Reads a line. -/
def line? (line : String) : Option (Ref × Outline) :=
  match parts ' ' line with
  | slot :: "gen" :: generation :: rest => do
    let index ← slot? slot
    let generation ← number? Unfolding.readNat generation.toList
    let outline ← outline? rest
    return (⟨index, UInt32.ofNat generation⟩, outline)
  | _ => none

/-- The handle for a link, if it is filled: that of the cell in the slot. -/
def resolve? (refs : List Ref) : Option Nat → Option (Option Ref)
  | none => some none
  | some index => (refs.find? fun r => r.index = index).map some

/-- The payload, when these are the cells. -/
def Outline.fill? (refs : List Ref) : Outline → Option Payload
  | .scalar value => some (.scalar value)
  | .pair first second => do
    let first ← resolve? refs first
    let second ← resolve? refs second
    return .pair first second

/-- The cells that a text is a dump of. -/
def decode? (text : String) : Option (List (Ref × Payload)) := do
  let entries ← (lines text).mapM line?
  entries.mapM fun (r, outline) => (outline.fill? (entries.map Prod.fst)).map (r, ·)

/-! ### Words -/

/-- There is no space in the word, and no newline. -/
def Plain (word : String) : Prop :=
  ' ' ∉ word.toList ∧ '\n' ∉ word.toList

theorem plain_repr (n : Nat) : Plain n.repr := by
  constructor <;>
    exact fun hc => absurd (Unfolding.isDigit_of_mem_repr hc) (by decide)

theorem plain_int_repr (z : Int) : Plain z.repr := by
  constructor <;>
    exact fun hc => absurd (Unfolding.mem_int_repr hc) (by decide)

theorem toList_text (r : Ref) : r.text.toList = '#' :: r.index.repr.toList := by
  rw [Ref.text, String.toList_append]
  rfl

theorem plain_text (r : Ref) : Plain r.text := by
  obtain ⟨hspace, hnewline⟩ := plain_repr r.index
  rw [Plain, toList_text, List.mem_cons, List.mem_cons]
  exact ⟨by simpa using hspace, by simpa using hnewline⟩

theorem plain_linkText (link : Option Ref) : Plain (Payload.linkText link) := by
  cases link with
  | none => constructor <;> decide
  | some r => exact plain_text r

/-- The words for a payload. -/
def payloadWords : Payload → List String
  | .scalar value => ["Scalar", value.toInt.repr]
  | .pair first second => ["Pair", Payload.linkText first, Payload.linkText second]

/-- The words of a line. -/
def words (r : Ref) (payload : Payload) : List String :=
  r.text :: "gen" :: r.generation.toNat.repr :: payloadWords payload

theorem plain_of_mem_words {word : String} (h : word ∈ words r payload) : Plain word := by
  have hliteral : Plain "gen" ∧ Plain "Scalar" ∧ Plain "Pair" := by
    refine ⟨?_, ?_, ?_⟩ <;> constructor <;> decide
  obtain ⟨hgen, hscalar, hpair⟩ := hliteral
  have hpayload : ∀ w ∈ payloadWords payload, Plain w := by
    cases payload with
    | scalar value => simp [payloadWords, hscalar, plain_int_repr]
    | pair first second => simp [payloadWords, hpair, plain_linkText]
  rw [words, List.mem_cons, List.mem_cons, List.mem_cons] at h
  rcases h with rfl | rfl | rfl | h
  · exact plain_text r
  · exact hgen
  · exact plain_repr _
  · exact hpayload word h

/-- A line of a dump, without its end. -/
def line (r : Ref) (payload : Payload) : String :=
  " ".intercalate (words r payload)

theorem cell_line (r : Ref) (cell : Cell) : cell.line r = line r cell.payload ++ "\n" := by
  rw [Cell.line, line, words, ← String.toList_inj]
  cases cell.payload with
  | scalar value =>
    simp only [payloadWords, String.intercalate_cons_cons, String.intercalate_singleton,
      String.toList_append, List.append_assoc]
    rfl
  | pair first second =>
    simp only [payloadWords, String.intercalate_cons_cons, String.intercalate_singleton,
      Payload.text, String.toList_append, toString, List.append_assoc]
    rfl

theorem notMem_intercalate {c d : Char} {texts : List (List Char)} (hne : c ≠ d)
    (h : ∀ text ∈ texts, c ∉ text) : c ∉ [d].intercalate texts := by
  induction texts with
  | nil => simp
  | cons text texts ih =>
    rw [List.forall_mem_cons] at h
    cases texts with
    | nil => simpa using h.1
    | cons next texts =>
      rw [List.intercalate_cons_cons, List.mem_append, List.mem_append, List.mem_singleton]
      rintro ((htext | rfl) | hrest)
      · exact h.1 htext
      · exact hne rfl
      · exact ih h.2 hrest

theorem newline_notMem_line (r : Ref) (payload : Payload) :
    '\n' ∉ (line r payload).toList := by
  rw [line, String.toList_intercalate]
  refine notMem_intercalate (by decide) fun text htext => ?_
  obtain ⟨word, hword, rfl⟩ := List.mem_map.1 htext
  exact (plain_of_mem_words hword).2

/-! ### Reading back -/

theorem parts_intercalate {c : Char} {texts : List String} (h : ∀ text ∈ texts, c ∉ text.toList)
    (hne : texts ≠ []) : parts c ((String.singleton c).intercalate texts) = texts := by
  rw [parts, String.toList_split_intercalate h, if_neg hne]

theorem number?_of_read {α : Type} {read : List Char → Option (α × Nat)} {cs : List Char} {n : α}
    (h : read (cs ++ []) = some (n, cs.length)) : number? read cs = some n := by
  rw [List.append_nil] at h
  rw [number?, h]
  exact if_pos rfl

theorem number?_repr (n : Nat) : number? Unfolding.readNat n.repr.toList = some n :=
  number?_of_read (Unfolding.readNat_repr n Unfolding.endsNumber_nil)

theorem number?_int_repr (z : Int) : number? Unfolding.readInt z.repr.toList = some z :=
  number?_of_read (Unfolding.readInt_repr z Unfolding.endsNumber_nil)

theorem slot?_text (r : Ref) : slot? r.text = some r.index := by
  rw [slot?, toList_text]
  exact number?_repr r.index

theorem link?_linkText (link : Option Ref) :
    link? (Payload.linkText link) = some (link.map Ref.index) := by
  cases link with
  | none => rfl
  | some r =>
    have hne : r.text ≠ "nil" := by
      intro heq
      have hchars := congrArg String.toList heq
      rw [toList_text] at hchars
      cases hchars
    rw [Payload.linkText, link?, if_neg hne, slot?_text]
    rfl

/-- What a line tells of this payload. -/
def outline : Payload → Outline
  | .scalar value => .scalar value
  | .pair first second => .pair (first.map Ref.index) (second.map Ref.index)

theorem outline?_payloadWords (payload : Payload) :
    outline? (payloadWords payload) = some (outline payload) := by
  cases payload with
  | scalar value => simp [payloadWords, outline?, number?_int_repr, outline]
  | pair first second => simp [payloadWords, outline?, link?_linkText, outline]

/-- A line is read back. -/
theorem line?_line (r : Ref) (payload : Payload) :
    line? (line r payload) = some (r, outline payload) := by
  have hparts : parts ' ' (line r payload) = words r payload :=
    parts_intercalate (fun word hword => (plain_of_mem_words hword).1) (List.cons_ne_nil _ _)
  rw [line?, hparts, words]
  simp [slot?_text, number?_repr, outline?_payloadWords, -Nat.toList_repr]

/-- Lines that are ended stand between their ends. -/
theorem join_ended (texts : List String) :
    String.join (texts.map (· ++ "\n")) = "\n".intercalate (texts ++ [""]) := by
  induction texts with
  | nil => rfl
  | cons text texts ih =>
    rw [List.map_cons, String.join_cons, ih, List.cons_append,
      String.intercalate_cons_of_ne_nil (by simp)]

theorem dump_eq (heap : Heap) :
    heap.dump = String.join ((heap.payloads.map fun (r, payload) => line r payload).map
      (· ++ "\n")) := by
  rw [Heap.dump, Heap.payloads, List.map_map, List.map_map]
  exact congrArg String.join (List.map_congr_left fun (r, cell) _ => cell_line r cell)

/-- The lines of a dump. -/
theorem lines_dump (heap : Heap) :
    lines heap.dump = heap.payloads.map fun (r, payload) => line r payload := by
  have hnewline : ∀ text ∈ (heap.payloads.map fun (r, payload) => line r payload) ++ [""],
      '\n' ∉ text.toList := by
    intro text htext
    rcases List.mem_append.1 htext with htext | htext
    · obtain ⟨⟨r, payload⟩, -, rfl⟩ := List.mem_map.1 htext
      exact newline_notMem_line r payload
    · rw [List.mem_singleton.1 htext]
      simp
  rw [lines, dump_eq, join_ended]
  exact (congrArg List.dropLast (parts_intercalate hnewline (by simp))).trans List.dropLast_concat

/-- A cell is found by its slot. -/
theorem find?_index (h : heap.Listed refs) (hs : heap.contains s = true) :
    (refs.find? fun r => r.index = s.index) = some s := by
  cases hfind : refs.find? fun r => r.index = s.index with
  | none => exact absurd (List.find?_eq_none.1 hfind s (h.mem_iff.2 hs)) (by simp)
  | some r =>
    have hr := h.mem_iff.1 (List.mem_of_find?_eq_some hfind)
    have hindex : r.index = s.index := by simpa using List.find?_some hfind
    rw [Heap.eq_of_index_eq hr hs hindex]

/-- Links are looked up among the cells of a heap in which they resolve. -/
theorem fill?_outline (h : heap.Listed refs)
    (hedges : ∀ s ∈ payload.edges, heap.contains s = true) :
    (outline payload).fill? refs = some payload := by
  have hresolve : ∀ link : Option Ref, (∀ s ∈ link, heap.contains s = true) →
      resolve? refs (link.map Ref.index) = some link := by
    intro link hlink
    cases link with
    | none => rfl
    | some s =>
      have hfind := find?_index h (hlink s rfl)
      simp only [Option.map_some, resolve?, hfind]
  cases payload with
  | scalar value => rfl
  | pair first second =>
    have hfirst := hresolve first fun s hs => hedges s (Payload.mem_edges_iff.2 (Or.inl hs))
    have hsecond := hresolve second fun s hs => hedges s (Payload.mem_edges_iff.2 (Or.inr hs))
    simp [outline, Outline.fill?, hfirst, hsecond]

theorem mapM_eq_some_map {α β : Type} {f : α → Option β} {g : α → β} {xs : List α}
    (h : ∀ x ∈ xs, f x = some (g x)) : xs.mapM f = some (xs.map g) := by
  induction xs with
  | nil => rfl
  | cons x xs ih =>
    rw [List.forall_mem_cons] at h
    rw [List.mapM_cons, h.1, ih h.2]
    rfl

/-- **A dump of a heap is read back**, if the links of its cells resolve. -/
theorem decode?_dump (h : heap.Listed refs) (hw : heap.Whole) :
    decode? heap.dump = some heap.payloads := by
  have hentries : (lines heap.dump).mapM line? =
      some (heap.payloads.map fun (r, payload) => (r, outline payload)) := by
    rw [lines_dump, List.mapM_map]
    exact mapM_eq_some_map fun (r, payload) _ => line?_line r payload
  have hrefs : (heap.payloads.map fun (r, payload) => (r, outline payload)).map Prod.fst =
      refs := by
    rw [← h.map_fst_payloads, List.map_map]
    rfl
  have hfill : ∀ entry ∈ heap.payloads,
      ((outline entry.2).fill? refs).map (entry.1, ·) = some (id entry) := by
    rintro ⟨r, payload⟩ hmem
    rw [fill?_outline h (hw r payload (h.payload?_of_mem hmem))]
    rfl
  rw [decode?, hentries, Option.bind_eq_bind, Option.bind_some, hrefs, List.mapM_map]
  exact (mapM_eq_some_map hfill).trans (congrArg some (List.map_id _))

end Dump

open Machine

/-- The dump of a heap says all that there is to it. -/
structure Heap.Dumped (heap : Heap) : Prop where
  decodes : Dump.decode? heap.dump = some heap.payloads
  /-- There is a line for each cell. -/
  lines : (Dump.lines heap.dump).length = heap.count
  /-- Every line is ended, and there is nothing else. -/
  ended : String.join ((Dump.lines heap.dump).map (· ++ "\n")) = heap.dump

variable {settings : Settings} {session : Session Machine}

/-- **A dump of the heap loses nothing**, at any point of any run.  One reader finds all cells
with all that they hold, so two machines whose heaps are dumped alike have the same cells in the
same order, whatever their settings are. -/
theorem Reached.dump_faithful (h : Reached settings session) : session.state.heap.Dumped ∧
    ∀ settings' session', Reached settings' session' →
      session'.state.heap.dump = session.state.heap.dump →
      session'.state.heap.payloads = session.state.heap.payloads := by
  have hdecodes : ∀ settings session, Reached settings session →
      Dump.decode? session.state.heap.dump = some session.state.heap.payloads := by
    intro settings session hreached
    obtain ⟨hs, -⟩ := hreached.sound
    obtain ⟨refs, hrefs⟩ := hs.heap.listed
    exact Dump.decode?_dump hrefs hs.heap.whole
  obtain ⟨hs, -⟩ := h.sound
  obtain ⟨refs, hrefs⟩ := hs.heap.listed
  refine ⟨⟨hdecodes settings session h, ?_, ?_⟩, fun settings' session' h' hdump => ?_⟩
  · rw [Dump.lines_dump, List.length_map, hrefs.count, ← hrefs.map_fst_payloads, List.length_map]
  · rw [Dump.lines_dump, ← Dump.dump_eq]
  · have hsame := hdecodes settings' session' h'
    rw [hdump, hdecodes settings session h] at hsame
    exact (Option.some.inj hsame).symm

/-- A slot is vacated and taken again, and a pair is linked to the cell there and to itself. -/
def relinked (settings : Settings) : Session Machine :=
  Operation.performAll [.pushScalar 1, .popRoot, .collect, .pushScalar 2, .pushScalar (-3),
    .makePair, .setPair ⟨2, 0⟩ ⟨0, 1⟩ ⟨2, 0⟩] ⟨initial settings, [], ""⟩

/-- The dump does not say at the link that the cell is the second one in its slot, but it is read
back as that, and whatever the settings were. -/
theorem relinked_dumped :
    (relinked {}).state.heap.dump =
      "#2 gen 0 Pair #0 #2\n#1 gen 0 Scalar -3\n#0 gen 1 Scalar 2\n" ∧
    Dump.decode? (relinked {}).state.heap.dump =
      some [(⟨2, 0⟩, .pair (some ⟨0, 1⟩) (some ⟨2, 0⟩)), (⟨1, 0⟩, .scalar (-3)),
        (⟨0, 1⟩, .scalar 2)] ∧
    (relinked { stackCapacity := 2 }).state.heap.payloads = (relinked {}).state.heap.payloads := by
  have hplain : Reached {} (relinked {}) := reached_performAll (by decide)
    ⟨trivial, trivial, trivial, trivial, trivial, trivial,
      ⟨⟨some ⟨1, 0⟩, some ⟨0, 1⟩, by decide +kernel⟩, by decide +kernel, by decide +kernel⟩,
      trivial⟩
  have hshort : Reached { stackCapacity := 2 } (relinked { stackCapacity := 2 }) :=
    reached_performAll (by decide) ⟨trivial, trivial, trivial, trivial, trivial, trivial,
      ⟨⟨some ⟨1, 0⟩, some ⟨0, 1⟩, by decide +kernel⟩, by decide +kernel, by decide +kernel⟩,
      trivial⟩
  obtain ⟨hdumped, hothers⟩ := Reached.dump_faithful hplain
  have hpayloads : (relinked {}).state.heap.payloads =
      [(⟨2, 0⟩, .pair (some ⟨0, 1⟩) (some ⟨2, 0⟩)), (⟨1, 0⟩, .scalar (-3)),
        (⟨0, 1⟩, .scalar 2)] := by decide +kernel
  refine ⟨by decide +kernel, ?_, hothers _ _ hshort (by decide +kernel)⟩
  rw [hdumped.decodes, hpayloads]

end MarkSweep
