/-
# What the text of a cell shows

`Heap.Unfolds` says which tree is seen from a link, with the depth counted from the root down to
the limit.  There is one such tree (`Heap.unfolds_iff`), the printer writes the text of it
(`Heap.prettyPrint_eq`), and the tree can be read back (`Unfolding.decode?_text`).

The text shows whether anything was cut off: `(...)` stands in it only for a pair that was cut,
since there are no two dots in a row otherwise.  A tree without cuts is seen whole, at any
greater depth too (`Heap.unfold_of_uncut`).

In a machine whose pairs nobody fills, links lead down the allocation list, so a way along links
is no longer than the list.  At that depth nothing is cut off, and as every link is there and
resolves, the leaves are scalars (`Heap.leaves_scalar`).
-/

import MarkSweep.Proofs.Machine.Immutability
import MarkSweep.Proofs.Machine.Mirroring
import MarkSweep.Proofs.Unfolding.Decoding
import Mathlib.Data.List.Chain

namespace MarkSweep

/-- The word stands somewhere in the text. -/
def Mentions (text word : String) : Prop :=
  word.toList <:+: text.toList

namespace Unfolding

variable {tree leaf : Unfolding}

/-- What is not a pair, from left to right. -/
def leaves : Unfolding → List Unfolding
  | .pair first second => first.leaves ++ second.leaves
  | leaf => [leaf]

/-- The text of a leaf stands in the text of the tree. -/
theorem mentions_of_mem_leaves (h : leaf ∈ tree.leaves) : Mentions tree.text leaf.text := by
  induction tree with
  | pair first second ih₁ ih₂ =>
    unfold Mentions
    rw [text_pair]
    rcases List.mem_append.1 h with h | h
    · exact (ih₁ h).trans ⟨['('], _, rfl⟩
    · refine (ih₂ h).trans ⟨'(' :: (first.text.toList ++ " . ".toList), [')'], ?_⟩
      simp
  | _ =>
    obtain rfl := List.mem_singleton.1 h
    exact List.infix_refl _

/-! ### Dots -/

/-- There are no two dots in a row. -/
def DotsApart (cs : List Char) : Prop :=
  cs.IsChain fun c d => c ≠ '.' ∨ d ≠ '.'

theorem dotsApart_of_forall_ne {cs : List Char} (h : ∀ c ∈ cs, c ≠ '.') : DotsApart cs :=
  List.Pairwise.isChain (List.pairwise_of_forall_mem_list fun c hc _ _ => Or.inl (h c hc))

theorem ne_dot_of_isDigit {c : Char} (h : c.isDigit = true) : c ≠ '.' := by
  rintro rfl
  cases h

/-- Dots stay apart when something else is put between. -/
theorem DotsApart.append {cs ds : List Char} (h : DotsApart cs) (h' : DotsApart ds)
    (hbetween : ∀ d ∈ ds.head?, d ≠ '.') : DotsApart (cs ++ ds) :=
  List.isChain_append.2 ⟨h, h', fun _ _ d hd => Or.inr (hbetween d hd)⟩

/-- Where nothing is cut off, dots stand alone. -/
theorem dotsApart_text (h : .cut ∉ tree.leaves) : DotsApart tree.text.toList := by
  induction tree with
  | nil => exact dotsApart_of_forall_ne (by simp [text])
  | freed index =>
    rw [text_freed]
    refine dotsApart_of_forall_ne fun c hc => ?_
    rcases List.mem_append.1 hc with hc | hc
    · exact (show ∀ c ∈ "<freed #".toList, c ≠ '.' by simp) c hc
    · rcases List.mem_append.1 hc with hc | hc
      · exact ne_dot_of_isDigit (isDigit_of_mem_repr hc)
      · obtain rfl := List.mem_singleton.1 hc
        decide
  | scalar value =>
    refine dotsApart_of_forall_ne fun c hc => ?_
    rcases mem_int_repr hc with rfl | hc
    · decide
    · exact ne_dot_of_isDigit hc
  | cut => exact absurd List.mem_cons_self h
  | pair first second ih₁ ih₂ =>
    have hfirst := ih₁ fun hm => h (List.mem_append_left _ hm)
    have hsecond := ih₂ fun hm => h (List.mem_append_right _ hm)
    have hclosed : DotsApart (second.text.toList ++ [')']) :=
      hsecond.append (List.isChain_singleton _) (by simp)
    have hdot : DotsApart (" . ".toList ++ (second.text.toList ++ [')'])) :=
      List.isChain_append.2 ⟨by decide, hclosed, fun c hc _ _ => Or.inl ?_⟩
    · rw [text_pair]
      refine List.isChain_cons.2 ⟨fun _ _ => Or.inl (by decide), hfirst.append hdot ?_⟩
      intro d hd
      obtain rfl := Option.some.inj hd
      decide
    · obtain rfl := Option.some.inj hc
      decide

/-- **Three dots stand for a cut and for nothing else.** -/
theorem mentions_dots_iff : Mentions tree.text "(...)" ↔ .cut ∈ tree.leaves := by
  constructor
  · intro h
    by_contra hcut
    obtain ⟨before, after, htext⟩ := h
    have hapart := dotsApart_text hcut
    rw [← htext] at hapart
    have hdots : DotsApart "(...)".toList :=
      (List.isChain_append.1 (List.isChain_append.1 hapart).1).2.1
    exact absurd hdots (show ¬ List.IsChain _ _ by decide)
  · exact mentions_of_mem_leaves

/-! ### Trees of scalars -/

/-- The characters that a tree of scalars is written with. -/
theorem mem_text_of_scalar (h : ∀ leaf ∈ tree.leaves, ∃ value, leaf = .scalar value) {c : Char}
    (hc : c ∈ tree.text.toList) : c ∈ "( . )-".toList ∨ c.isDigit = true := by
  induction tree with
  | pair first second ih₁ ih₂ =>
    have hfirst := ih₁ fun leaf hm => h leaf (List.mem_append_left _ hm)
    have hsecond := ih₂ fun leaf hm => h leaf (List.mem_append_right _ hm)
    rw [text_pair] at hc
    simp only [List.mem_cons, List.mem_append, List.not_mem_nil, or_false] at hc
    rcases hc with rfl | hc | hc | hc | rfl
    · exact Or.inl (by decide)
    · exact hfirst hc
    · exact Or.inl ((show ∀ c ∈ " . ".toList, c ∈ "( . )-".toList by simp) c hc)
    · exact hsecond hc
    · exact Or.inl (by decide)
  | scalar value =>
    rcases mem_int_repr hc with rfl | hc
    · exact Or.inl (by decide)
    · exact Or.inr hc
  | _ =>
    obtain ⟨value, hvalue⟩ := h _ List.mem_cons_self
    cases hvalue

/-- A tree of scalars shows none of the other leaves. -/
theorem not_mentions_of_scalar (h : ∀ leaf ∈ tree.leaves, ∃ value, leaf = .scalar value) :
    ¬ Mentions tree.text "(...)" ∧ ¬ Mentions tree.text "nil" ∧ ¬ Mentions tree.text "<freed" := by
  have hmem : ∀ {word : String} {c : Char}, Mentions tree.text word → c ∈ word.toList →
      c ∈ "( . )-".toList ∨ c.isDigit = true := fun hword hc =>
    mem_text_of_scalar h (hword.subset hc)
  refine ⟨fun hcut => ?_, fun hnil => ?_, fun hfreed => ?_⟩
  · obtain ⟨value, hvalue⟩ := h _ (mentions_dots_iff.1 hcut)
    cases hvalue
  · exact absurd (hmem hnil (show 'n' ∈ "nil".toList by decide)) (by decide)
  · exact absurd (hmem hfreed (show '<' ∈ "<freed".toList by decide)) (by decide)

end Unfolding

namespace Heap

variable {heap : Heap} {r : Ref} {link : Option Ref} {depth limit : Nat} {tree : Unfolding}

/-! ### The tree that is seen -/

/-- What is seen from a link that is `depth` pairs below the root, when pairs are cut off that
are `limit` pairs below it or more. -/
inductive Unfolds (heap : Heap) (limit : Nat) : Nat → Option Ref → Unfolding → Prop where
  | nil {depth : Nat} : Unfolds heap limit depth none .nil
  | freed {depth : Nat} {r : Ref} : heap.get? r = none →
      Unfolds heap limit depth (some r) (.freed r.index)
  | scalar {depth : Nat} {r : Ref} {value : Int64} : heap.payload? r = some (.scalar value) →
      Unfolds heap limit depth (some r) (.scalar value)
  | cut {depth : Nat} {r : Ref} {first second : Option Ref} :
      heap.payload? r = some (.pair first second) → limit ≤ depth →
      Unfolds heap limit depth (some r) .cut
  | pair {depth : Nat} {r : Ref} {first second : Option Ref} {left right : Unfolding} :
      heap.payload? r = some (.pair first second) → depth < limit →
      Unfolds heap limit (depth + 1) first left → Unfolds heap limit (depth + 1) second right →
      Unfolds heap limit depth (some r) (.pair left right)

theorem Unfolds.unfold_eq (h : heap.Unfolds limit depth link tree) :
    heap.unfold (limit - depth) link = tree := by
  induction h with
  | nil => exact unfold_none heap _
  | freed hr => exact unfold_freed hr _
  | scalar hp => exact unfold_scalar hp _
  | @cut depth r first second hp hle =>
    rw [Nat.sub_eq_zero_of_le hle]
    exact unfold_pair_zero hp
  | @pair depth r first second left right hp hlt _ _ ih₁ ih₂ =>
    obtain ⟨k, hk⟩ : ∃ k, limit - depth = k + 1 := ⟨limit - depth - 1, by omega⟩
    have hk' : limit - (depth + 1) = k := by omega
    rw [hk'] at ih₁ ih₂
    rw [hk, unfold_pair_succ hp, ih₁, ih₂]

theorem unfolds_unfold (heap : Heap) (limit : Nat) : ∀ (depth : Nat) (link : Option Ref),
    heap.Unfolds limit depth link (heap.unfold (limit - depth) link)
  | depth, none => by
    rw [unfold_none]
    exact .nil
  | depth, some r => by
    rcases payload?_cases heap r with hr | ⟨value, hp⟩ | ⟨first, second, hp⟩
    · rw [unfold_freed hr]
      exact .freed hr
    · rw [unfold_scalar hp]
      exact .scalar hp
    · rcases Nat.lt_or_ge depth limit with hlt | hle
      · have hbelow : limit - depth = limit - (depth + 1) + 1 := by omega
        rw [hbelow, unfold_pair_succ hp]
        exact .pair hp hlt (unfolds_unfold heap limit (depth + 1) first)
          (unfolds_unfold heap limit (depth + 1) second)
      · rw [Nat.sub_eq_zero_of_le hle, unfold_pair_zero hp]
        exact .cut hp hle
termination_by depth => limit - depth

theorem unfolds_iff : heap.Unfolds limit depth link tree ↔
    heap.unfold (limit - depth) link = tree := by
  constructor
  · exact Unfolds.unfold_eq
  · rintro rfl
    exact unfolds_unfold heap limit depth link

/-! ### Cuts -/

/-- **A tree without cuts is the same at any greater depth.** -/
theorem unfold_of_uncut : ∀ {depth depth' : Nat} {link : Option Ref},
    .cut ∉ (heap.unfold depth link).leaves → depth ≤ depth' →
      heap.unfold depth' link = heap.unfold depth link
  | depth, depth', none, _, _ => by rw [unfold_none, unfold_none]
  | depth, depth', some r, huncut, hle => by
    rcases payload?_cases heap r with hr | ⟨value, hp⟩ | ⟨first, second, hp⟩
    · rw [unfold_freed hr, unfold_freed hr]
    · rw [unfold_scalar hp, unfold_scalar hp]
    · cases depth with
      | zero =>
        rw [unfold_pair_zero hp] at huncut
        exact absurd List.mem_cons_self huncut
      | succ depth =>
        obtain ⟨depth', rfl⟩ : ∃ k, depth' = k + 1 := ⟨depth' - 1, by omega⟩
        rw [unfold_pair_succ hp] at huncut ⊢
        have hfirst := unfold_of_uncut (fun hm => huncut (List.mem_append_left _ hm))
          (Nat.le_of_succ_le_succ hle)
        have hsecond := unfold_of_uncut (fun hm => huncut (List.mem_append_right _ hm))
          (Nat.le_of_succ_le_succ hle)
        rw [unfold_pair_succ hp, hfirst, hsecond]
termination_by depth => depth

/-- **Along links that lead down the allocation list nothing is cut off**, at a depth of as many
pairs as there are cells from the first one down.  If the pairs are filled and all links
resolve, only scalars are left at the ends. -/
theorem leaves_scalar {refs : List Ref} (hb : heap.Backward) (hwhole : heap.Whole)
    (hrefs : heap.Listed refs) : ∀ {depth : Nat} {r : Ref}, heap.contains r = true →
    refs.length ≤ refs.idxOf r + depth →
      ∀ leaf ∈ (heap.unfold depth (some r)).leaves, ∃ value, leaf = .scalar value
  | depth, r, hr, hdepth => by
    rcases payload?_cases heap r with hgone | ⟨value, hp⟩ | ⟨first, second, hp⟩
    · rw [get?_eq_none_iff.1 hgone] at hr
      cases hr
    · rw [unfold_scalar hp]
      intro leaf hleaf
      exact ⟨value, List.mem_singleton.1 hleaf⟩
    · have hindex : refs.idxOf r < refs.length := List.idxOf_lt_length_of_mem (hrefs.mem_iff.2 hr)
      obtain ⟨depth, rfl⟩ : ∃ k, depth = k + 1 := ⟨depth - 1, by omega⟩
      have hbelow : ∀ s ∈ (Payload.pair first second).edges,
          ∀ leaf ∈ (heap.unfold depth (some s)).leaves, ∃ value, leaf = .scalar value := by
        intro s hs
        have holder := hb.older r s ⟨_, hp, hs⟩
        rw [hrefs.handles_eq] at holder
        have hlt := idxOf_lt_of_sublist hrefs.nodup holder
        -- a link takes one pair of the depth, and leads down the list by one cell at least
        exact leaves_scalar hb hwhole hrefs (hwhole r _ hp s hs) (by omega)
      obtain ⟨hfirst, hsecond⟩ := hb.filled r _ hp
      obtain ⟨s, rfl⟩ := Option.isSome_iff_exists.1 hfirst
      obtain ⟨t, rfl⟩ := Option.isSome_iff_exists.1 hsecond
      rw [unfold_pair_succ hp]
      intro leaf hleaf
      rcases List.mem_append.1 hleaf with hleaf | hleaf
      · exact hbelow s (Payload.mem_edges_iff.2 (Or.inl rfl)) leaf hleaf
      · exact hbelow t (Payload.mem_edges_iff.2 (Or.inr rfl)) leaf hleaf
termination_by depth => depth

end Heap

/-! ### The text -/

/-- What the text of a cell shows. -/
structure Heap.Legible (heap : Heap) (r : Ref) (depth : Nat) : Prop where
  /-- The text is that of the tree that is seen, which is cut off at the depth. -/
  text : ∃ tree, heap.Unfolds depth 0 (some r) tree ∧ heap.prettyPrint r depth = tree.text
  /-- That tree is what the reader makes of the text. -/
  decodes : ∀ tree, Unfolding.decode? (heap.prettyPrint r depth) = some tree ↔
    heap.Unfolds depth 0 (some r) tree
  /-- A text that shows no cut is the same at any greater depth. -/
  deeper : ¬ Mentions (heap.prettyPrint r depth) "(...)" → ∀ depth', depth ≤ depth' →
    heap.prettyPrint r depth' = heap.prettyPrint r depth

theorem Heap.legible (heap : Heap) (r : Ref) (depth : Nat) : heap.Legible r depth where
  text := ⟨_, unfolds_unfold heap depth 0 (some r), prettyPrint_eq heap r depth⟩
  decodes tree := by
    rw [unfolds_iff, prettyPrint_eq, Unfolding.decode?_text]
    exact Option.some_inj
  deeper huncut depth' hle := by
    rw [prettyPrint_eq] at huncut
    have hleaves := fun hcut => huncut (Unfolding.mentions_dots_iff.2 hcut)
    rw [prettyPrint_eq, prettyPrint_eq, unfold_of_uncut hleaves hle]

open Machine

/-- **The text of a cell is a faithful picture of the tree that is seen from it.**  On any heap
the tree can be read back from the text, so cells with the same text show the same tree; and
after any run of public operations the text of a cell is whole, at a depth of as many pairs as
there are cells. -/
theorem Heap.prettyPrint_faithful {settings : Settings} {machine : Machine}
    (hcreate : create settings = .ok machine) {ops : List Operation}
    (hops : ∀ op ∈ ops, op.Public) :
    (∀ (heap : Heap) (r : Ref) (depth : Nat), heap.Legible r depth) ∧
    (∀ (heap heap' : Heap) (r r' : Ref) (depth depth' : Nat),
      heap.prettyPrint r depth = heap'.prettyPrint r' depth' →
        ∀ tree, heap.Unfolds depth 0 (some r) tree ↔ heap'.Unfolds depth' 0 (some r') tree) ∧
    ∀ heap, heap = (Operation.performAll ops ⟨machine, [], ""⟩).state.heap →
      ∀ (r : Ref) (depth : Nat), heap.contains r = true → heap.count ≤ depth →
        ¬ Mentions (heap.prettyPrint r depth) "(...)" ∧
          ¬ Mentions (heap.prettyPrint r depth) "nil" ∧
          ¬ Mentions (heap.prettyPrint r depth) "<freed" := by
  refine ⟨legible, fun heap heap' r r' depth depth' htext tree => ?_, ?_⟩
  · rw [← (legible heap r depth).decodes, ← (legible heap' r' depth').decodes, htext]
  · rintro heap rfl r depth hr hdepth
    obtain ⟨haccepted, rfl⟩ := create_eq_ok_iff.1 hcreate
    obtain ⟨hs, hb⟩ := @backward_performAll ⟨initial settings, [], ""⟩
      (sound_initial haccepted) backward_empty ops hops
    obtain ⟨refs, hrefs⟩ := hs.heap.listed
    rw [hrefs.count] at hdepth
    rw [prettyPrint_eq]
    exact Unfolding.not_mentions_of_scalar
      (leaves_scalar hb hs.heap.whole hrefs hr (hdepth.trans (Nat.le_add_left ..)))

/-- The three cells that `recycled` leaves. -/
def recycledHeap : Heap :=
  (Operation.performAll recycled ⟨initial {}, [], ""⟩).state.heap

/-- The pair among them is read back from its text, and with three cells there are no more than
three pairs to go through. -/
theorem recycled_faithful :
    Unfolding.decode? (recycledHeap.prettyPrint ⟨0, 1⟩ 3) =
        some (.pair (.scalar 3) (.scalar 2)) ∧
      ¬ Mentions (recycledHeap.prettyPrint ⟨0, 1⟩ 3) "(...)" ∧
      recycledHeap.prettyPrint ⟨0, 1⟩ 8 = recycledHeap.prettyPrint ⟨0, 1⟩ 3 := by
  have hcreate : create {} = .ok (initial {}) := create_eq_ok_iff.2 ⟨by decide, rfl⟩
  have hpublic : ∀ op ∈ recycled, op.Public := by simp [recycled, Operation.Public]
  obtain ⟨hlegible, -, hwhole⟩ := Heap.prettyPrint_faithful hcreate hpublic
  have hpair : recycledHeap.payload? ⟨0, 1⟩ = some (.pair (some ⟨2, 0⟩) (some ⟨1, 0⟩)) := by
    decide +kernel
  have hfirst : recycledHeap.payload? ⟨2, 0⟩ = some (.scalar 3) := by decide +kernel
  have hsecond : recycledHeap.payload? ⟨1, 0⟩ = some (.scalar 2) := by decide +kernel
  have hcount : recycledHeap.count ≤ 3 := by decide +kernel
  have hcontains := Heap.contains_iff_payload?.2 ⟨_, hpair⟩
  have huncut := (hwhole recycledHeap rfl ⟨0, 1⟩ 3 hcontains hcount).1
  exact ⟨((hlegible recycledHeap ⟨0, 1⟩ 3).decodes _).2
      (.pair hpair (by decide) (.scalar hfirst) (.scalar hsecond)),
    huncut, (hlegible recycledHeap ⟨0, 1⟩ 3).deeper huncut 8 (by decide)⟩

end MarkSweep
