/-
# Reading a tree back

The text of a tree says all that there is to it: `Unfolding.decode?` reads the tree back from
its text (`Unfolding.decode?_text`), so trees that are written alike are the same.

The reader goes by the first character.  That is enough but for a parenthesis, which opens a
pair or stands for one that was cut off; there the next character tells, because no tree is
written with a dot in front.  A number ends where no digit follows, and no tree is followed by
one.
-/

import MarkSweep.Unfolding
import Mathlib.Tactic.SplitIfs

namespace MarkSweep

namespace Unfolding

/-! ### Numbers -/

/-- Reads the digits in front as a number, and says how many there are. -/
def readNat (cs : List Char) : Option (Nat × Nat) :=
  match cs.takeWhile Char.isDigit with
  | [] => none
  | digit :: digits => some (Nat.ofDigitChars 10 (digit :: digits) 0, digits.length + 1)

/-- Reads a number with its sign. -/
def readInt : List Char → Option (Int × Nat)
  | '-' :: cs => (readNat cs).map fun (n, k) => (-n, k + 1)
  | cs => (readNat cs).map fun (n, k) => (n, k)

/-- No digit stands in front. -/
def EndsNumber (cs : List Char) : Prop :=
  ∀ c ∈ cs.head?, c.isDigit = false

theorem endsNumber_nil : EndsNumber [] := by
  intro c hc
  cases hc

theorem endsNumber_cons {c : Char} (h : c.isDigit = false) (cs : List Char) :
    EndsNumber (c :: cs) := by
  intro d hd
  obtain rfl := Option.some.inj hd
  exact h

theorem isDigit_of_mem_repr {n : Nat} {c : Char} (h : c ∈ n.repr.toList) : c.isDigit = true := by
  rw [Nat.toList_repr] at h
  exact Nat.isDigit_of_mem_toDigits (by decide) (by decide) h

theorem takeWhile_repr (n : Nat) {rest : List Char} (h : EndsNumber rest) :
    (n.repr.toList ++ rest).takeWhile Char.isDigit = n.repr.toList := by
  have hrest : rest.takeWhile Char.isDigit = [] := by
    cases rest with
    | nil => rfl
    | cons c rest => rw [List.takeWhile_cons_of_neg (by simp [h c rfl])]
  rw [List.takeWhile_append_of_pos fun c hc => isDigit_of_mem_repr hc, hrest, List.append_nil]

theorem readNat_repr (n : Nat) {rest : List Char} (h : EndsNumber rest) :
    readNat (n.repr.toList ++ rest) = some (n, n.repr.toList.length) := by
  unfold readNat
  rw [takeWhile_repr n h, Nat.toList_repr]
  cases hdigits : Nat.toDigits 10 n with
  | nil => exact absurd hdigits Nat.toDigits_ne_nil
  | cons digit digits =>
    dsimp only
    rw [← hdigits, Nat.ofDigitChars_ten_toDigits, hdigits]
    rfl

theorem exists_repr_eq_cons (n : Nat) :
    ∃ digit digits, n.repr.toList = digit :: digits ∧ digit.isDigit = true := by
  cases hdigits : n.repr.toList with
  | nil =>
    rw [Nat.toList_repr] at hdigits
    exact absurd hdigits Nat.toDigits_ne_nil
  | cons digit digits =>
    exact ⟨digit, digits, rfl, isDigit_of_mem_repr (hdigits ▸ List.mem_cons_self)⟩

theorem mem_int_repr {z : Int} {c : Char} (h : c ∈ z.repr.toList) :
    c = '-' ∨ c.isDigit = true := by
  rw [Int.repr_eq_if] at h
  split_ifs at h
  · exact Or.inr (isDigit_of_mem_repr h)
  · rw [String.toList_append] at h
    rcases List.mem_append.1 h with h | h
    · exact Or.inl (List.mem_singleton.1 h)
    · exact Or.inr (isDigit_of_mem_repr h)

theorem exists_int_repr_eq_cons (z : Int) :
    ∃ c cs, z.repr.toList = c :: cs ∧ (c = '-' ∨ c.isDigit = true) := by
  cases hcs : z.repr.toList with
  | nil =>
    rw [Int.repr_eq_if] at hcs
    split_ifs at hcs
    · obtain ⟨digit, digits, hdigits, -⟩ := exists_repr_eq_cons z.toNat
      rw [hdigits] at hcs
      cases hcs
    · rw [String.toList_append] at hcs
      cases hcs
  | cons c cs => exact ⟨c, cs, rfl, mem_int_repr (hcs ▸ List.mem_cons_self)⟩

theorem readInt_repr (z : Int) {rest : List Char} (h : EndsNumber rest) :
    readInt (z.repr.toList ++ rest) = some (z, z.repr.toList.length) := by
  rw [Int.repr_eq_if]
  split_ifs with hz
  · obtain ⟨digit, digits, hdigits, hdigit⟩ := exists_repr_eq_cons z.toNat
    have hnat := readNat_repr z.toNat h
    rw [hdigits] at hnat ⊢
    rw [List.cons_append] at hnat ⊢
    unfold readInt
    split
    next heq =>
      obtain ⟨rfl, -⟩ := List.cons.inj heq
      cases hdigit
    · rw [hnat]
      simp [Int.toNat_of_nonneg hz]
  · rw [String.toList_append]
    show (readNat ((-z).toNat.repr.toList ++ rest)).map _ = _
    rw [readNat_repr _ h]
    simp
    omega

/-! ### Trees -/

/-- Reads a tree off the front, and says how many characters it takes. -/
def read (cs : List Char) : Option (Unfolding × Nat) :=
  match cs with
  | 'n' :: 'i' :: 'l' :: _ => some (.nil, 3)
  | '<' :: 'f' :: 'r' :: 'e' :: 'e' :: 'd' :: ' ' :: '#' :: number =>
    match readNat number with
    | none => none
    | some (index, k) =>
      if (number.drop k).head? = some '>' then some (.freed index, k + 9) else none
  | '(' :: '.' :: '.' :: '.' :: ')' :: _ => some (.cut, 5)
  | '(' :: inside =>
    match read inside with
    | none => none
    | some (first, i) =>
      if " . ".toList <+: inside.drop i then
        match read (inside.drop (i + 3)) with
        | none => none
        | some (second, j) =>
          if (inside.drop (i + 3 + j)).head? = some ')' then
            some (.pair first second, i + 3 + j + 2)
          else
            none
      else
        none
  | number =>
    match readInt number with
    | none => none
    | some (value, k) => some (.scalar (Int64.ofInt value), k)
termination_by cs.length
decreasing_by
  · exact Nat.lt_succ_self _
  · rw [List.length_drop, List.length_cons]
    omega

theorem text_pair (first second : Unfolding) : (pair first second).text.toList =
    '(' :: (first.text.toList ++ (" . ".toList ++ (second.text.toList ++ [')']))) := by
  rw [text]
  simp only [String.toList_append, List.append_assoc]
  rfl

theorem text_freed (index : Nat) :
    (freed index).text.toList = "<freed #".toList ++ (index.repr.toList ++ ['>']) := by
  rw [text]
  simp only [String.toList_append, List.append_assoc]
  rfl

theorem text_scalar (value : Int64) : (scalar value).text.toList = value.toInt.repr.toList := rfl

/-- No tree is written with a dot in front. -/
theorem exists_text_eq_cons (tree : Unfolding) : ∃ c cs, tree.text.toList = c :: cs ∧ c ≠ '.' := by
  cases tree with
  | nil => exact ⟨'n', _, rfl, by decide⟩
  | freed index => exact ⟨'<', _, text_freed index, by decide⟩
  | scalar value =>
    obtain ⟨c, cs, hcs, hc⟩ := exists_int_repr_eq_cons value.toInt
    refine ⟨c, cs, hcs, ?_⟩
    rintro rfl
    exact absurd hc (by decide)
  | cut => exact ⟨'(', _, rfl, by decide⟩
  | pair first second => exact ⟨'(', _, text_pair first second, by decide⟩

theorem read_number {c : Char} {cs : List Char} {z : Int} {k : Nat}
    (hc : c = '-' ∨ c.isDigit = true) (h : readInt (c :: cs) = some (z, k)) :
    read (c :: cs) = some (.scalar (Int64.ofInt z), k) := by
  have hne : ∀ {d : Char}, d ≠ '-' → d.isDigit = false → c ≠ d := by
    rintro d hminus hdigit rfl
    rcases hc with rfl | hc
    · exact hminus rfl
    · rw [hdigit] at hc
      cases hc
  have hn : c ≠ 'n' := hne (by decide) (by decide)
  have hf : c ≠ '<' := hne (by decide) (by decide)
  have hp : c ≠ '(' := hne (by decide) (by decide)
  rw [read]
  · rw [h]
  · exact fun _ heq => hn (List.cons.inj heq).1
  · exact fun _ heq => hf (List.cons.inj heq).1
  · exact fun _ heq => hp (List.cons.inj heq).1
  · exact fun _ heq => hp (List.cons.inj heq).1

theorem read_pair {inside : List Char} {first second : Unfolding} {i j : Nat}
    (hdot : inside.head? ≠ some '.') (hfirst : read inside = some (first, i))
    (hbetween : " . ".toList <+: inside.drop i)
    (hsecond : read (inside.drop (i + 3)) = some (second, j))
    (hclose : (inside.drop (i + 3 + j)).head? = some ')') :
    read ('(' :: inside) = some (.pair first second, i + 3 + j + 2) := by
  rw [read]
  · rw [hfirst]
    dsimp only
    rw [if_pos hbetween, hsecond]
    dsimp only
    rw [if_pos hclose]
  · rintro tail rfl
    exact hdot rfl

/-- **A tree is read back from its text**, whatever follows that does not go on with its last
number. -/
theorem read_text (tree : Unfolding) {rest : List Char} (h : EndsNumber rest) :
    read (tree.text.toList ++ rest) = some (tree, tree.text.toList.length) := by
  induction tree generalizing rest with
  | nil =>
    show read ('n' :: 'i' :: 'l' :: rest) = _
    rw [read]
    rfl
  | freed index =>
    have hnumber := readNat_repr index (endsNumber_cons (show '>'.isDigit = false by decide) rest)
    rw [text_freed]
    show read ('<' :: 'f' :: 'r' :: 'e' :: 'e' :: 'd' :: ' ' :: '#' ::
      ((index.repr.toList ++ ['>']) ++ rest)) = _
    rw [List.append_assoc, List.singleton_append, read, hnumber]
    dsimp only
    rw [List.drop_left, List.head?_cons, if_pos rfl]
    simp
  | scalar value =>
    obtain ⟨c, cs, hcs, hc⟩ := exists_int_repr_eq_cons value.toInt
    have hnumber := readInt_repr value.toInt h
    rw [text_scalar]
    rw [hcs, List.cons_append] at hnumber ⊢
    rw [read_number hc hnumber, Int64.ofInt_toInt]
  | cut =>
    show read ('(' :: '.' :: '.' :: '.' :: ')' :: rest) = _
    rw [read]
    rfl
  | pair first second ih₁ ih₂ =>
    have hfirst := @ih₁ (" . ".toList ++ (second.text.toList ++ ')' :: rest))
      (endsNumber_cons (by decide) _)
    have hsecond := @ih₂ (')' :: rest) (endsNumber_cons (by decide) _)
    have hdrop : (first.text.toList ++ (" . ".toList ++ (second.text.toList ++ ')' :: rest))).drop
        (first.text.toList.length + 3) = second.text.toList ++ ')' :: rest := by
      rw [← List.drop_drop, List.drop_left]
      rfl
    have hdot : (first.text.toList ++ (" . ".toList ++
        (second.text.toList ++ ')' :: rest))).head? ≠ some '.' := by
      obtain ⟨c, cs, hcs, hc⟩ := exists_text_eq_cons first
      rw [hcs]
      exact fun heq => hc (Option.some.inj heq)
    have hpair := read_pair hdot hfirst (by rw [List.drop_left]; exact List.prefix_append _ _)
      (by rw [hdrop, hsecond])
      (by rw [← List.drop_drop, hdrop, List.drop_left]; rfl)
    rw [text_pair, List.cons_append]
    simp only [List.append_assoc, List.singleton_append]
    rw [hpair]
    simp
    omega

/-- The tree that a text is written for. -/
def decode? (text : String) : Option Unfolding :=
  match read text.toList with
  | none => none
  | some (tree, k) => if k = text.toList.length then some tree else none

/-- **No text is written for two trees**: one reader finds the tree of every text. -/
theorem decode?_text (tree : Unfolding) : decode? tree.text = some tree := by
  have hread := read_text tree endsNumber_nil
  rw [List.append_nil] at hread
  rw [decode?, hread]
  exact if_pos rfl

end Unfolding

end MarkSweep
