/-
# Machines that mirror each other

Two machines that ran the same program may keep its cells in different slots, under
different handles, and among different garbage.  `Machine.Mirrors f` says that this is all
there is between them: `f` renames the live handles of the one to those of the other, the
roots position by position and the payloads with their links.

A function that renames handles well on the live cells renames them onto the live cells
(`Mirrors.bijOn`), so nothing has to be said of the way back.  Every change of a machine
keeps a pair of machines mirrored if it is made to both, for renamed operands; a new cell
extends the renaming (`Mirrors.grow`).

The text that a reader sees of a graph does not depend on handles
(`Mirrors.prettyPrint`, `Mirrors.dumpRoots`).
-/

import MarkSweep.Machine.Dump
import MarkSweep.Proofs.Machine.Runs
import MarkSweep.Proofs.Unfolding.Printing
import Mathlib.Data.Set.Function

namespace MarkSweep

namespace Payload

variable {f g : Ref → Ref} {payload : Payload}

/-- The payload with its links renamed. -/
def rename (f : Ref → Ref) : Payload → Payload
  | .scalar value => .scalar value
  | .pair first second => .pair (first.map f) (second.map f)

theorem edges_rename (f : Ref → Ref) (payload : Payload) :
    (payload.rename f).edges = payload.edges.map f := by
  cases payload with
  | scalar value => rfl
  | pair first second => cases first <;> cases second <;> rfl

/-- Renaming looks at the links alone. -/
theorem rename_congr (h : ∀ r ∈ payload.edges, f r = g r) :
    payload.rename f = payload.rename g := by
  cases payload with
  | scalar value => rfl
  | pair first second =>
    have hfirst : first.map f = first.map g :=
      Option.map_congr fun r hr => h r (mem_edges_iff.2 (Or.inl hr))
    have hsecond : second.map f = second.map g :=
      Option.map_congr fun r hr => h r (mem_edges_iff.2 (Or.inr hr))
    rw [rename, rename, hfirst, hsecond]

end Payload

namespace Machine

variable {f : Ref → Ref} {left right left' right' : Machine} {r : Ref}

/-- The live cells of the second machine are those of the first under other handles. -/
structure Mirrors (f : Ref → Ref) (left right : Machine) : Prop where
  injOn : Set.InjOn f left.live
  roots : right.roots.toList = left.roots.toList.map f
  payload : ∀ r ∈ left.live,
    right.heap.payload? (f r) = (left.heap.payload? r).map (Payload.rename f)

/-- The live cells need not be known exactly: any set will do that has the roots and
everything they lead to. -/
theorem mirrors_of_closed {S : Set Ref} (hroots : ∀ r ∈ left.roots.toList, r ∈ S)
    (hclosed : ∀ r ∈ S, ∀ payload, left.heap.payload? r = some payload →
      ∀ s ∈ payload.edges, s ∈ S)
    (hinj : Set.InjOn f S) (hmap : right.roots.toList = left.roots.toList.map f)
    (hpayload : ∀ r ∈ S,
      right.heap.payload? (f r) = (left.heap.payload? r).map (Payload.rename f)) :
    left.Mirrors f right where
  injOn := hinj.mono fun _ hr => hr.of_closed hroots fun s payload hs hp t ht =>
    hclosed s hs payload hp t ht
  roots := hmap
  payload r hr := hpayload r (hr.of_closed hroots fun s payload hs hp t ht =>
    hclosed s hs payload hp t ht)

namespace Mirrors

theorem live_of_live (h : left.Mirrors f right) (hr : r ∈ left.live) : f r ∈ right.live := by
  induction hr with
  | root hr => exact .root (h.roots ▸ List.mem_map_of_mem hr)
  | @edge r s payload hr hp hs ih =>
    have hp' : right.heap.payload? (f r) = some (payload.rename f) := by
      rw [h.payload r hr, hp, Option.map_some]
    have hs' : f s ∈ (payload.rename f).edges := by
      rw [Payload.edges_rename]
      exact List.mem_map_of_mem hs
    exact .edge ih hp' hs'

theorem exists_of_live (h : left.Mirrors f right) (hr : r ∈ right.live) :
    ∃ s ∈ left.live, f s = r := by
  induction hr with
  | root hr =>
    rw [h.roots] at hr
    obtain ⟨s, hs, rfl⟩ := List.mem_map.1 hr
    exact ⟨s, .root hs, rfl⟩
  | edge _ hp hs ih =>
    obtain ⟨t, ht, rfl⟩ := ih
    rw [h.payload t ht] at hp
    obtain ⟨payload, hpayload, rfl⟩ := Option.map_eq_some_iff.1 hp
    rw [Payload.edges_rename] at hs
    obtain ⟨u, hu, rfl⟩ := List.mem_map.1 hs
    exact ⟨u, .edge ht hpayload hu, rfl⟩

/-- **The renaming is a bijection between the live cells.** -/
theorem bijOn (h : left.Mirrors f right) : Set.BijOn f left.live right.live :=
  ⟨fun _ => h.live_of_live, h.injOn, fun _ hr => h.exists_of_live hr⟩

theorem ncard_live (h : left.Mirrors f right) : right.live.ncard = left.live.ncard := by
  rw [← h.bijOn.image_eq, h.injOn.ncard_image]

theorem depth (h : left.Mirrors f right) : right.depth = left.depth := by
  rw [depth_eq, depth_eq, h.roots, List.length_map]

/-! ### Changes that keep machines mirrored -/

/-- What a machine keeps of itself when it makes room is mirrored by the other. -/
theorem keeps_left (h : left.Mirrors f right) (hk : left.Keeps left') :
    left'.Mirrors f right where
  injOn := by
    rw [hk.live]
    exact h.injOn
  roots := by rw [hk.roots, h.roots]
  payload r hr := by
    rw [hk.live] at hr
    rw [hk.payload r hr, h.payload r hr]

theorem keeps_right (h : left.Mirrors f right) (hk : right.Keeps right') :
    left.Mirrors f right' where
  injOn := h.injOn
  roots := by rw [hk.roots, h.roots]
  payload r hr := by rw [hk.payload _ (h.live_of_live hr), h.payload r hr]

/-- Other roots, if they were live. -/
theorem withRoots (h : left.Mirrors f right) {roots : List Ref}
    (hroots : ∀ r ∈ roots, r ∈ left.live) :
    (left.withRoots roots).Mirrors f (right.withRoots (roots.map f)) := by
  refine mirrors_of_closed (S := left.live) (fun r hr => ?_)
    (fun r hr payload hp s hs => .edge hr hp hs) h.injOn ?_ h.payload
  · rw [roots_withRoots] at hr
    exact hroots r hr
  · rw [roots_withRoots, roots_withRoots]

/-- Other links of a live pair, if they were live. -/
theorem withLinks (h : left.Mirrors f right) (hl : left.Sound) (hr : right.Sound)
    {pair first second : Ref} (hpair : pair ∈ left.live) (hfirst : first ∈ left.live)
    (hsecond : second ∈ left.live) :
    (left.withLinks pair first second).Mirrors f
      (right.withLinks (f pair) (f first) (f second)) := by
  have hleft := left.heap.payload?_fill (hl.contains_of_live hpair) first second
  have hright := right.heap.payload?_fill (hr.contains_of_live (h.live_of_live hpair))
    (f first) (f second)
  refine mirrors_of_closed (S := left.live) (fun r hm => .root hm)
    (fun r hm payload hp s hs => ?_) h.injOn h.roots fun r hm => ?_
  · rw [heap_withLinks, hleft] at hp
    split_ifs at hp with hrp
    · obtain rfl := Option.some.inj hp
      rcases List.mem_cons.1 hs with rfl | hs
      · exact hfirst
      · rwa [List.mem_singleton.1 hs]
    · exact .edge hm hp hs
  · rw [heap_withLinks, heap_withLinks, hleft, hright]
    by_cases hrp : r = pair
    · rw [if_pos hrp, if_pos (congrArg f hrp)]
      rfl
    · rw [if_neg hrp, if_neg fun hf => hrp (h.injOn hm hpair hf), h.payload r hm]

/-- One new cell on either side, on top of the stack, with links that were live.  The
renaming is extended by it. -/
theorem grow (h : left.Mirrors f right) (payload : Payload) {new new' : Ref}
    {roots : List Ref} (hnew : new ∉ left.live) (hnew' : new' ∉ right.live)
    (hroots : ∀ r ∈ roots, r ∈ left.live) (hedges : ∀ r ∈ payload.edges, r ∈ left.live)
    (hleft : ∀ r, left'.heap.payload? r =
      if r = new then some payload else left.heap.payload? r)
    (hright : ∀ r, right'.heap.payload? r =
      if r = new' then some (payload.rename f) else right.heap.payload? r)
    (hroots' : left'.roots.toList = roots ++ [new])
    (hroots'' : right'.roots.toList = roots.map f ++ [new']) :
    left'.Mirrors (Function.update f new new') right' := by
  have hnot : ∀ r ∈ left.live, r ≠ new := fun r hr hrn => hnew (hrn ▸ hr)
  have hold : ∀ r ∈ left.live, Function.update f new new' r = f r := fun r hr =>
    Function.update_of_ne (hnot r hr) _ _
  have hself : Function.update f new new' new = new' := Function.update_self ..
  have hne : ∀ r ∈ left.live, f r ≠ new' := fun r hr hf => hnew' (hf ▸ h.live_of_live hr)
  refine mirrors_of_closed (S := insert new left.live) (fun r hr => ?_)
    (fun r hr p hp s hs => Or.inr ?_) ?_ ?_ fun r hr => ?_
  · rw [hroots'] at hr
    rcases List.mem_append.1 hr with hr | hr
    · exact Or.inr (hroots r hr)
    · exact Or.inl (List.mem_singleton.1 hr)
  · rw [hleft] at hp
    split_ifs at hp with hrn
    · obtain rfl := Option.some.inj hp
      exact hedges s hs
    · exact .edge (hr.resolve_left hrn) hp hs
  · refine (Set.injOn_insert hnew).2 ⟨h.injOn.congr fun r hr => (hold r hr).symm, ?_⟩
    rw [hself]
    rintro ⟨r, hr, hf⟩
    exact hne r hr ((hold r hr).symm.trans hf)
  · rw [hroots'', hroots', List.map_append, List.map_singleton, hself]
    rw [List.map_congr_left fun r hr => hold r (hroots r hr)]
  · rw [hleft]
    rcases hr with rfl | hr
    · rw [hself, hright, if_pos rfl, if_pos rfl, Option.map_some]
      exact congrArg some (Payload.rename_congr fun s hs => (hold s (hedges s hs)).symm)
    · rw [hold r hr, hright, if_neg (hne r hr), if_neg (hnot r hr), h.payload r hr]
      refine Option.map_congr fun p hp => Payload.rename_congr fun s hs => ?_
      exact (hold s (.edge hr hp hs)).symm

/-! ### What a reader sees -/

/-- The tree below a live link is the same on both sides, to any depth. -/
theorem unfold (h : left.Mirrors f right) (hs : left.Sound) :
    ∀ (depth : Nat) (link : Option Ref), (∀ r ∈ link, r ∈ left.live) →
      right.heap.unfold depth (link.map f) = left.heap.unfold depth link
  | depth, none, _ => by rw [Option.map_none, Heap.unfold_none, Heap.unfold_none]
  | depth, some r, hlink => by
    have hr : r ∈ left.live := hlink r rfl
    obtain ⟨payload, hp⟩ := Heap.contains_iff_payload?.1 (hs.contains_of_live hr)
    have hp' := h.payload r hr
    rw [hp, Option.map_some] at hp'
    rw [Option.map_some]
    cases payload with
    | scalar value => rw [Heap.unfold_scalar hp, Heap.unfold_scalar hp']
    | pair first second =>
      cases depth with
      | zero => rw [Heap.unfold_pair_zero hp, Heap.unfold_pair_zero hp']
      | succ depth =>
        have hfirst : ∀ s ∈ first, s ∈ left.live := fun s hm =>
          .edge hr hp (Payload.mem_edges_iff.2 (Or.inl hm))
        have hsecond : ∀ s ∈ second, s ∈ left.live := fun s hm =>
          .edge hr hp (Payload.mem_edges_iff.2 (Or.inr hm))
        rw [Heap.unfold_pair_succ hp, Heap.unfold_pair_succ hp', h.unfold hs depth first hfirst,
          h.unfold hs depth second hsecond]

theorem prettyPrint (h : left.Mirrors f right) (hs : left.Sound) (hr : r ∈ left.live)
    (depth : Nat) : right.heap.prettyPrint (f r) depth = left.heap.prettyPrint r depth := by
  have hlink : ∀ s ∈ some r, s ∈ left.live := fun s hm => Option.mem_some_iff.1 hm ▸ hr
  rw [Heap.prettyPrint_eq, Heap.prettyPrint_eq]
  exact congrArg Unfolding.text (h.unfold hs depth (some r) hlink)

/-- The dump of the root stack is the same on both sides. -/
theorem dumpRoots (h : left.Mirrors f right) (hs : left.Sound) :
    right.dumpRoots = left.dumpRoots := by
  have hlines : (right.roots.toList.zipIdx.map fun entry =>
      rootLine right.heap entry.2 entry.1) = left.roots.toList.zipIdx.map fun entry =>
        rootLine left.heap entry.2 entry.1 := by
    rw [h.roots, List.zipIdx_map, List.map_map]
    refine List.map_congr_left fun entry hentry => ?_
    have hroot : entry.1 ∈ left.live := .root (List.fst_mem_of_mem_zipIdx hentry)
    show rootLine right.heap entry.2 (f entry.1) = rootLine left.heap entry.2 entry.1
    rw [rootLine, rootLine, h.prettyPrint hs hroot]
  exact congrArg (fun lines => String.join lines.reverse) hlines

end Mirrors

end Machine

end MarkSweep
