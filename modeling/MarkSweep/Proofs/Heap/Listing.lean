/-
# The allocation list

The cells of a heap hang on one list, newest first, and the vacant slots on
another.  `Heap.Listed` says that the two agree with the arena: the list from the
head on meets every handle that resolves, each once, as many as are counted, and
the free list holds every vacant slot once.

Nothing a heap does breaks this.  A new cell goes in front (`Listed.occupy`),
changes to cells in place leave the list alone (`Listed.update`), and taking out
the cell behind the last survivor closes the gap (`Listed.unlink`), which is the
one step of a sweep that bends a link.

The two lists share out the arena between them (`Listed.perm_range`), and the walk
along the allocation list comes to its end (`Listed.cells_eq`).
-/

import MarkSweep.Proofs.Heap.Views
import Mathlib.Data.List.Nodup

namespace MarkSweep

namespace Heap

/-- The allocation list from a link on meets these handles, in this order, and then
ends. -/
def Threads (heap : Heap) : (link : Option Ref) → (refs : List Ref) → Prop
  | link, [] => link = none
  | link, r :: rest => link = some r ∧ ∃ next, heap.next? r = some next ∧ heap.Threads next rest

/-- The allocation list consists of these handles, and the list, the count and the
free list fit the arena. -/
structure Listed (heap : Heap) (refs : List Ref) : Prop where
  threads : heap.Threads heap.head refs
  nodup : refs.Nodup
  /-- Whatever resolves is on the list. -/
  mem_of_contains : ∀ r, heap.contains r = true → r ∈ refs
  count : heap.count = refs.length
  free_nodup : heap.free.Nodup
  mem_free_iff : ∀ i, i ∈ heap.free ↔ heap.Vacant i

variable {heap heap' : Heap} {refs : List Ref}

theorem Threads.contains :
    ∀ {refs : List Ref} {link : Option Ref}, heap.Threads link refs →
      ∀ r ∈ refs, heap.contains r = true
  | [], _, _, _, hr => absurd hr List.not_mem_nil
  | _ :: _, _, ⟨_, next, hnext, hrest⟩, r, hr => by
      rcases List.mem_cons.1 hr with rfl | hr
      · exact contains_iff_next?.2 ⟨next, hnext⟩
      · exact hrest.contains r hr

/-- The list depends on the links of the cells that are on it and on nothing else. -/
theorem Threads.congr :
    ∀ {refs : List Ref} {link : Option Ref}, heap.Threads link refs →
      (∀ r ∈ refs, heap'.next? r = heap.next? r) → heap'.Threads link refs
  | [], _, hl, _ => hl
  | r :: _, _, ⟨hl, next, hnext, hrest⟩, h =>
      ⟨hl, next, (h r List.mem_cons_self).trans hnext,
        hrest.congr fun s hs => h s (List.mem_cons_of_mem _ hs)⟩

theorem Threads.head? {link : Option Ref} (h : heap.Threads link refs) : link = refs.head? := by
  cases refs with
  | nil => exact h
  | cons r rest => exact h.1

/-- Each handle on the list is followed by what its link says. -/
theorem Threads.next? {r : Ref} {rest : List Ref} :
    ∀ {kept : List Ref} {link : Option Ref}, heap.Threads link (kept ++ r :: rest) →
      heap.next? r = some rest.head?
  | [], _, ⟨_, _, hnext, hrest⟩ => hrest.head? ▸ hnext
  | _ :: _, _, ⟨_, _, _, hrest⟩ => hrest.next?

/-- Bending the link in front of a handle past it takes the handle off the list. -/
theorem Threads.unlink {r : Ref} {next : Option Ref} {rest : List Ref}
    (hnext : heap.next? r = some next) :
    ∀ {kept : List Ref} {link : Option Ref}, heap.Threads link (kept ++ r :: rest) →
      (kept ++ r :: rest).Nodup →
      (∀ s ∈ kept ++ rest, kept.getLast? ≠ some s → heap'.next? s = heap.next? s) →
      (∀ p, kept.getLast? = some p → heap'.next? p = some next) →
      heap'.Threads (if kept = [] then next else link) (kept ++ rest)
  | [], _, ⟨_, next', hnext', hrest⟩, _, hsame, _ => by
      obtain rfl : next' = next := Option.some.inj (hnext'.symm.trans hnext)
      exact hrest.congr fun s hs => hsame s hs (by simp)
  | p :: kept, link, ⟨hl, after, hafter, hrest⟩, hnd, hsame, hlast => by
      obtain ⟨hp, hnd⟩ := List.nodup_cons.1 hnd
      have ih := Threads.unlink hnext hrest hnd
        (fun s hs hne => hsame s (List.mem_cons_of_mem _ hs) (by
          cases kept with
          | nil =>
            rintro h
            obtain rfl : p = s := by simpa using h
            exact hp (List.mem_cons_of_mem _ (by simpa using hs))
          | cons q kept => rwa [List.getLast?_cons_cons]))
        (fun q hq => hlast q (by
          cases kept with
          | nil => simp at hq
          | cons q' kept => rwa [List.getLast?_cons_cons]))
      refine ⟨by rw [if_neg (List.cons_ne_nil p kept)]; exact hl, _, ?_, ih⟩
      cases kept with
      | nil => exact hlast p rfl
      | cons q kept =>
        rw [if_neg (List.cons_ne_nil q kept), ← hafter]
        refine hsame p List.mem_cons_self fun h => hp ?_
        rw [List.getLast?_cons_cons] at h
        exact List.mem_append_left _ (List.mem_of_getLast? h)

/-- The slot for a new cell is the one vacated last, or a new one when none is
vacant. -/
theorem free_of_vacancy {index : Nat} (h : heap.vacancy = .ok index) :
    (heap.free = [] ∧ index = heap.slotCount) ∨ heap.free = index :: heap.free.tail := by
  unfold vacancy at h
  split at h
  · rename_i hfree
    split at h
    · exact Or.inl ⟨hfree, (Except.ok.inj h).symm⟩
    · cases h
  · rename_i i rest hfree
    right
    split at h
    · cases h
    · split at h
      · cases h
      · obtain rfl := Except.ok.inj h
        rw [hfree]
        rfl

/-- Only a full arena keeps a heap from a new slot. -/
theorem maxSlots_le_of_vacancy (h : heap.vacancy = .error .outOfMemory) :
    maxSlots ≤ heap.slotCount := by
  unfold vacancy at h
  split at h
  · split_ifs at h with hlt
    exact Nat.not_lt.1 hlt
  · split at h
    · cases h
    · split at h <;> cases h

/-- A new slot can be numbered. -/
theorem slotCount_lt_of_vacancy {index : Nat} (h : heap.vacancy = .ok index)
    (hfree : heap.free = []) : heap.slotCount < maxSlots := by
  rw [vacancy, hfree] at h
  by_contra hge
  rw [if_neg hge] at h
  cases h

namespace Listed

theorem mem_iff (h : heap.Listed refs) {r : Ref} : r ∈ refs ↔ heap.contains r = true :=
  ⟨h.threads.contains r, h.mem_of_contains r⟩

theorem empty : ({} : Heap).Listed [] where
  threads := rfl
  nodup := List.nodup_nil
  mem_of_contains r h := by simp [Heap.contains, get?] at h
  count := rfl
  free_nodup := List.nodup_nil
  mem_free_iff i := by simp [Vacant]

/-- What a heap lists depends on its head, its count, its free list, the links and the
vacant slots. -/
theorem congr (h : heap.Listed refs) (head : heap'.head = heap.head)
    (count : heap'.count = heap.count) (free : heap'.free = heap.free)
    (next : ∀ r, heap'.next? r = heap.next? r) (vacant : ∀ i, heap'.Vacant i ↔ heap.Vacant i) :
    heap'.Listed refs where
  threads := head ▸ h.threads.congr fun r _ => next r
  nodup := h.nodup
  mem_of_contains r hr := h.mem_of_contains r (by
    rw [contains_iff_next?, ← next r]
    exact contains_iff_next?.1 hr)
  count := count.trans h.count
  free_nodup := free ▸ h.free_nodup
  mem_free_iff i := by rw [free, h.mem_free_iff, vacant]

/-- Changing cells in place leaves the list alone, as long as their links stay. -/
theorem update (h : heap.Listed refs) (r : Ref) {f : Cell → Cell}
    (hf : ∀ cell, (f cell).next = cell.next) : (heap.update r f).Listed refs :=
  h.congr rfl rfl rfl (fun s => map_get?_update Cell.next heap r s f hf)
    fun i => vacant_update heap r f i

/-- A new cell goes in front. -/
theorem occupy {index : Nat} (h : heap.Listed refs) (hv : heap.vacancy = .ok index)
    (payload : Payload) : (heap.occupy index payload).Listed (heap.handle index :: refs) := by
  have hnew := contains_handle_of_vacancy hv
  have hfresh : heap.handle index ∉ refs := fun hr => by
    rw [h.threads.contains _ hr] at hnew
    cases hnew
  refine ⟨⟨rfl, heap.head, ?_, h.threads.congr fun r hr => ?_⟩, List.nodup_cons.2 ⟨hfresh, h.nodup⟩,
    fun r hr => ?_, ?_, ?_, fun i => ?_⟩
  · rw [next?_occupy hv, if_pos rfl]
  · rw [next?_occupy hv, if_neg (by rintro rfl; exact hfresh hr)]
  · rw [contains_iff_next?, next?_occupy hv] at hr
    split_ifs at hr with hri
    · exact hri ▸ List.mem_cons_self
    · exact List.mem_cons_of_mem _ (h.mem_of_contains r (contains_iff_next?.2 hr))
  · rw [count_occupy, h.count, List.length_cons]
  · exact h.free_nodup.sublist (List.tail_sublist _)
  · rw [vacant_occupy hv, ← h.mem_free_iff, free_occupy]
    rcases free_of_vacancy hv with ⟨hfree, -⟩ | hfree
    · simp [hfree]
    · have hnd := h.free_nodup
      rw [hfree, List.nodup_cons] at hnd
      rw [hfree, List.tail_cons, List.mem_cons]
      constructor
      · intro hi
        exact ⟨Or.inr hi, by rintro rfl; exact hnd.1 hi⟩
      · rintro ⟨rfl | hi, hne⟩
        · exact absurd rfl hne
        · exact hi

/-- The slot that heads the free list is the next one taken. -/
theorem vacancy_of_free {index : Nat} {rest : List Nat} (h : heap.Listed refs)
    (hfree : heap.free = index :: rest) : heap.vacancy = .ok index := by
  obtain ⟨slot, hs, hnone⟩ := (h.mem_free_iff index).1 (hfree ▸ List.mem_cons_self)
  rw [Heap.vacancy, hfree]
  simp [hs, hnone]

/-- Only a full arena keeps a listed heap from finding a slot. -/
theorem vacancy (h : heap.Listed refs) :
    (∃ index, heap.vacancy = .ok index) ∨ heap.vacancy = .error .outOfMemory := by
  cases hfree : heap.free with
  | nil =>
    rw [Heap.vacancy, hfree]
    split_ifs
    · exact Or.inl ⟨_, rfl⟩
    · exact Or.inr rfl
  | cons index rest => exact Or.inl ⟨index, h.vacancy_of_free hfree⟩

/-- A cell behind the last of some survivors is taken out by bending the link in front
of it and freeing it. -/
theorem unlink {kept rest : List Ref} {r : Ref} {next : Option Ref}
    (h : heap.Listed (kept ++ r :: rest)) (hnext : heap.next? r = some next) :
    ((heap.relink kept.getLast? next).release r).Listed (kept ++ rest) := by
  have hmid := List.nodup_middle.1 h.nodup
  obtain ⟨hr, hnd⟩ := List.nodup_cons.1 hmid
  have hcr : (heap.relink kept.getLast? next).contains r = true := by
    rw [contains_relink]
    exact contains_iff_next?.2 ⟨next, hnext⟩
  have hnr : ∀ s ∈ kept ++ rest, s ≠ r := by
    rintro s hs rfl
    exact hr hs
  have hview : ∀ s ∈ kept ++ rest, ((heap.relink kept.getLast? next).release r).next? s =
      (heap.relink kept.getLast? next).next? s := fun s hs => by
    rw [Heap.next?, map_get?_release Cell.next hcr, if_neg (hnr s hs)]
    rfl
  refine ⟨?_, hnd, fun s hs => ?_, ?_, ?_, fun i => ?_⟩
  · have ht : ((heap.relink kept.getLast? next).release r).Threads
        (if kept = [] then next else heap.head) (kept ++ rest) := h.threads.unlink hnext h.nodup
      (fun s hs hne => by rw [hview s hs, next?_relink next hne])
      (fun p hp => by
        have hpk := List.mem_of_getLast? hp
        rw [hview p (List.mem_append_left _ hpk), hp]
        exact next?_relink_self next (h.threads.contains p (List.mem_append_left _ hpk)))
    rw [head_release, head_relink]
    simpa only [List.getLast?_eq_none_iff] using ht
  · rw [contains_iff_next?, Heap.next?, map_get?_release Cell.next hcr] at hs
    split_ifs at hs with hsr
    · obtain ⟨_, hs⟩ := hs
      cases hs
    · have hs' := h.mem_of_contains s (by
        rw [← contains_relink heap kept.getLast? next s]
        exact contains_iff_next?.2 hs)
      rcases List.mem_append.1 hs' with hk | hrr
      · exact List.mem_append_left _ hk
      · exact List.mem_append_right _ ((List.mem_cons.1 hrr).resolve_left hsr)
  · rw [count_release, count_relink, h.count, List.length_append, List.length_append,
      List.length_cons]
    omega
  · rw [free_release, free_relink, List.nodup_cons, h.mem_free_iff]
    exact ⟨not_vacant_of_contains (contains_iff_next?.2 ⟨next, hnext⟩), h.free_nodup⟩
  · rw [vacant_release hcr, vacant_relink, free_release, free_relink, List.mem_cons,
      h.mem_free_iff, or_comm]

/-! ### The two lists and the arena -/

/-- The cells on the list sit in the slots that are taken. -/
theorem mem_map_index_iff (h : heap.Listed refs) {i : Nat} :
    i ∈ refs.map Ref.index ↔ i < heap.slotCount ∧ ¬ heap.Vacant i := by
  rw [List.mem_map]
  constructor
  · rintro ⟨r, hr, rfl⟩
    obtain ⟨hlt, hv, -⟩ := contains_iff.1 (h.mem_iff.1 hr)
    exact ⟨hlt, hv⟩
  · rintro ⟨hlt, hv⟩
    exact ⟨heap.handle i, h.mem_iff.2 (contains_iff.2 ⟨hlt, hv, rfl⟩), rfl⟩

/-- No two of them share a slot. -/
theorem nodup_map_index (h : heap.Listed refs) : (refs.map Ref.index).Nodup :=
  List.Nodup.map_on (fun _ hr _ hs => eq_of_index_eq (h.mem_iff.1 hr) (h.mem_iff.1 hs)) h.nodup

/-- Every slot is on one of the two lists, and once. -/
theorem perm_range (h : heap.Listed refs) :
    (refs.map Ref.index ++ heap.free).Perm (List.range heap.slotCount) := by
  have hdisjoint : ∀ i ∈ refs.map Ref.index, ∀ j ∈ heap.free, i ≠ j := by
    rintro i hi _ hj rfl
    exact (h.mem_map_index_iff.1 hi).2 ((h.mem_free_iff i).1 hj)
  rw [List.perm_ext_iff_of_nodup
    (List.nodup_append.2 ⟨h.nodup_map_index, h.free_nodup, hdisjoint⟩) List.nodup_range]
  intro i
  rw [List.mem_append, h.mem_map_index_iff, h.mem_free_iff, List.mem_range]
  constructor
  · rintro (⟨hlt, -⟩ | hv)
    · exact hlt
    · exact hv.lt
  · intro hlt
    by_cases hv : heap.Vacant i
    · exact Or.inr hv
    · exact Or.inl ⟨hlt, hv⟩

theorem count_add_length_free (h : heap.Listed refs) :
    heap.count + heap.free.length = heap.slotCount := by
  have hlength := h.perm_range.length_eq
  rwa [List.length_append, List.length_map, List.length_range, ← h.count] at hlength

/-- A cell for which there is a slot is not one too many. -/
theorem count_lt_maxSlots {index : Nat} (h : heap.Listed refs) (hv : heap.vacancy = .ok index)
    (hslots : heap.slotCount ≤ maxSlots) : heap.count < maxSlots := by
  have hcount := h.count_add_length_free
  rcases free_of_vacancy hv with ⟨hfree, -⟩ | hfree
  · have hlt := slotCount_lt_of_vacancy hv hfree
    omega
  · rw [hfree, List.length_cons] at hcount
    omega

/-- The arena grows when there are more cells than it ever had slots for. -/
theorem slotCount_occupy {index : Nat} (h : heap.Listed refs) (hv : heap.vacancy = .ok index)
    (payload : Payload) :
    (heap.occupy index payload).slotCount = max heap.slotCount (heap.count + 1) := by
  have hcount := h.count_add_length_free
  rw [Heap.slotCount_occupy]
  rcases free_of_vacancy hv with ⟨hfree, rfl⟩ | hfree
  · rw [hfree, List.length_nil] at hcount
    rw [if_neg (Nat.lt_irrefl _)]
    omega
  · have hlt : index < heap.slotCount :=
      ((h.mem_free_iff index).1 (hfree ▸ List.mem_cons_self)).lt
    rw [hfree, List.length_cons] at hcount
    rw [if_pos hlt]
    omega

end Listed

/-- A new cell is found a slot, unless the arena is full. -/
theorem allocate_cases (h : heap.Listed refs) (payload : Payload) (journal : List Record)
    (output : String) :
    (heap.vacancy = .error .outOfMemory ∧ allocate payload ⟨heap, journal, output⟩ =
      .error .outOfMemory ⟨heap, journal, output⟩) ∨
    ∃ index, heap.vacancy = .ok index ∧ allocate payload ⟨heap, journal, output⟩ =
      .ok (heap.handle index)
        ⟨heap.occupy index payload, .allocated payload.kind index :: journal, output⟩ := by
  rcases h.vacancy with ⟨index, hv⟩ | hv
  · exact Or.inr ⟨index, hv, by simp [allocate, hv]⟩
  · exact Or.inl ⟨hv, by simp [allocate, hv]⟩

/-- An allocation that answers a handle took the slot for it. -/
theorem allocate_eq_ok {payload : Payload} {r : Ref} {session after : Session Heap}
    (h : allocate payload session = .ok r after) :
    ∃ index, session.state.vacancy = .ok index ∧ r = session.state.handle index ∧
      after = ⟨session.state.occupy index payload, .allocated payload.kind index :: session.journal,
        session.output⟩ := by
  obtain ⟨heap, journal, output⟩ := session
  cases hv : heap.vacancy with
  | error failure => simp [allocate, hv] at h
  | ok index =>
    have hrun : allocate payload ⟨heap, journal, output⟩ = .ok (heap.handle index)
        ⟨heap.occupy index payload, .allocated payload.kind index :: journal, output⟩ := by
      simp [allocate, hv]
    rw [hrun] at h
    cases h
    exact ⟨index, rfl, rfl, rfl⟩

/-! ### One cell more -/

/-- The second heap is the first with a new cell in front, in the slot of the index. -/
structure Gains (heap : Heap) (index : Nat) (payload : Payload) (heap' : Heap) : Prop where
  get? : ∀ r, heap'.get? r =
    if r = heap.handle index then some ⟨payload, false, heap.head⟩ else heap.get? r
  head : heap'.head = some (heap.handle index)
  listed : ∀ refs, heap.Listed refs → heap'.Listed (heap.handle index :: refs)

section Gains

variable {index : Nat} {payload : Payload}

theorem gains_occupy (hv : heap.vacancy = .ok index) (payload : Payload) :
    heap.Gains index payload (heap.occupy index payload) :=
  ⟨get?_occupy hv payload, rfl, fun _ h => h.occupy hv payload⟩

/-- A new pair may be filled before anything else is done. -/
theorem gains_fill (hv : heap.vacancy = .ok index) (first second : Ref) :
    heap.Gains index (.pair (some first) (some second))
      ((heap.occupy index (.zeroed .pair)).fill (heap.handle index) first second) where
  get? r := by
    rw [fill, get?_update, get?_occupy hv, get?_occupy hv, if_pos rfl]
    split_ifs <;> rfl
  head := rfl
  listed _ h := (h.occupy hv _).update _ fun _ => rfl

theorem Gains.payload? (h : heap.Gains index payload heap') (r : Ref) :
    heap'.payload? r = if r = heap.handle index then some payload else heap.payload? r := by
  rw [Heap.payload?, h.get?]
  split_ifs <;> rfl

theorem Gains.mark? (h : heap.Gains index payload heap') (r : Ref) :
    heap'.mark? r = if r = heap.handle index then some false else heap.mark? r := by
  rw [Heap.mark?, h.get?]
  split_ifs <;> rfl

end Gains

/-! ### The walk along the list -/

/-- Following the list yields the cells of the handles on it, if it is followed far enough. -/
theorem Threads.follow_eq :
    ∀ {refs : List Ref} {link : Option Ref} {limit : Nat}, heap.Threads link refs →
      refs.length ≤ limit →
        heap.follow limit link = refs.filterMap fun r => (heap.get? r).map fun cell => (r, cell)
  | [], _, limit, hl, _ => by
      obtain rfl := hl
      cases limit <;> rfl
  | r :: rest, _, limit + 1, ⟨hl, next, hnext, hrest⟩, hlimit => by
      obtain rfl := hl
      obtain ⟨cell, hcell, rfl⟩ := Option.map_eq_some_iff.1 hnext
      have ih := hrest.follow_eq (Nat.le_of_succ_le_succ hlimit)
      simp only [follow, hcell, ih, List.filterMap_cons, Option.map_some]

/-- The cells of a heap are the ones on its list. -/
theorem Listed.cells_eq (h : heap.Listed refs) :
    heap.cells = refs.filterMap fun r => (heap.get? r).map fun cell => (r, cell) := by
  refine h.threads.follow_eq ?_
  rw [← h.count, ← h.count_add_length_free]
  exact Nat.le_add_right _ _

end Heap

end MarkSweep
