import Mathlib.Tactic.Ring

/-!
# Merkle roots

The two ways in which `crypto/merkle/tree.go` computes the root of a tree: from the top, where a list
is split at the largest power of two below its length, and level by level, where neighbours are
paired and a last node without one is carried. The second writes each level over the one before it,
which it has read that far. The hash function is a parameter.

One level up leaves the root as it is: the left half has an even length, so no pair is split between
the halves, and half the largest power of two below a length is the largest one below half of it.

## Main results

* `root_pairs` — a level has the root of the level below
* `iterative_root_eq` — so both ways lead to the same root
-/

namespace CometBFT.Merkle

open Function List

/-- The largest power of two less than a length of at least two. -/
def getSplitPoint (length : ℕ) : ℕ :=
  let k := 2 ^ length.log2
  if k = length then k / 2 else k

theorem getSplitPoint_spec {n : ℕ} (h : 2 ≤ n) :
    ∃ j, getSplitPoint n = 2 ^ j ∧ 0 < 2 ^ j ∧ 2 ^ j < n ∧ n ≤ 2 ^ (j + 1) := by
  have hle := Nat.log2_self_le (n := n) (by omega)
  have hlt := Nat.lt_log2_self (n := n)
  unfold getSplitPoint
  dsimp only
  split
  · rename_i heq
    cases hlog : n.log2 with
    | zero =>
      rw [hlog] at heq
      omega
    | succ j =>
      rw [hlog, pow_succ] at heq
      exact ⟨j, by rw [pow_succ]; omega, Nat.two_pow_pos j, by omega, by rw [pow_succ, heq]⟩
  · exact ⟨_, rfl, Nat.two_pow_pos _, by omega, hlt.le⟩

theorem getSplitPoint_eq {n j : ℕ} (h₁ : 2 ^ j < n) (h₂ : n ≤ 2 ^ (j + 1)) :
    getSplitPoint n = 2 ^ j := by
  have hpos := Nat.two_pow_pos j
  obtain ⟨i, heq, -, h₃, h₄⟩ := getSplitPoint_spec (n := n) (by omega)
  have hij := (Nat.pow_lt_pow_iff_right one_lt_two).mp (h₁.trans_le h₄)
  have hji := (Nat.pow_lt_pow_iff_right one_lt_two).mp (h₃.trans_le h₂)
  rw [heq, show i = j by omega]

section

variable {α H : Type*} (empty : H) (inner : H → H → H)

/-! ### From the top -/

/-- The recursion of `hashFromByteSlices`. -/
def hashTree (leaf : α → H) : List α → H
  | [] => empty
  | [item] => leaf item
  | a :: b :: items =>
    let k := getSplitPoint (a :: b :: items).length
    inner (hashTree leaf ((a :: b :: items).take k)) (hashTree leaf ((a :: b :: items).drop k))
termination_by items => items.length
decreasing_by
  all_goals
    obtain ⟨j, heq, hpos, hlt, -⟩ := @getSplitPoint_spec (a :: b :: items).length (by simp)
    simp only [heq, length_take, length_drop]
    omega

/-! ### Level by level -/

/-- The loop over a level, with the read and the write position. -/
def levelLoop (size rp wp : ℕ) (items : ℕ → H) : (ℕ → H) × ℕ :=
  if rp < size then
    if rp + 1 < size then
      levelLoop size (rp + 2) (wp + 1) (update items wp (inner (items rp) (items (rp + 1))))
    else levelLoop size (rp + 1) (wp + 1) (update items wp (items rp))
  else (items, wp)
termination_by size - rp

theorem levelLoop_size (size rp wp : ℕ) (items : ℕ → H) :
    (levelLoop inner size rp wp items).2 = wp + (size - rp + 1) / 2 := by
  fun_induction levelLoop inner size rp wp items <;> omega

/-- The loop over the levels. -/
def levels (size : ℕ) (items : ℕ → H) : H :=
  match size with
  | 0 => empty
  | 1 => items 0
  | size + 2 =>
    levels (levelLoop inner (size + 2) 0 0 items).2 (levelLoop inner (size + 2) 0 0 items).1
termination_by size
decreasing_by
  rw [levelLoop_size]
  omega

/-! ### One level up -/

/-- What a level becomes. -/
def pairs : List H → List H
  | [] => []
  | [a] => [a]
  | a :: b :: rest => inner a b :: pairs rest

variable {empty inner}

theorem length_pairs (l : List H) : (pairs inner l).length = (l.length + 1) / 2 := by
  fun_induction pairs inner l with
  | case1 => simp
  | case2 a => simp
  | case3 a b rest ih =>
    simp only [length_cons, ih]
    omega

theorem pairs_append {l l' : List H} (h : l.length % 2 = 0) :
    pairs inner (l ++ l') = pairs inner l ++ pairs inner l' := by
  fun_induction pairs inner l with
  | case1 => rfl
  | case2 a => cases h
  | case3 a b rest ih =>
    simp only [length_cons] at h
    rw [cons_append, cons_append, pairs, ih (by omega), cons_append]

theorem hashTree_split {leaf : α → H} {l : List α} (h : 2 ≤ l.length) :
    hashTree empty inner leaf l =
      inner (hashTree empty inner leaf (l.take (getSplitPoint l.length)))
        (hashTree empty inner leaf (l.drop (getSplitPoint l.length))) := by
  match l with
  | a :: b :: items => rw [hashTree]

theorem hashTree_map {leaf : α → H} (l : List α) :
    hashTree empty inner id (l.map leaf) = hashTree empty inner leaf l := by
  fun_induction hashTree empty inner leaf l with
  | case1 => rw [map_nil, hashTree]
  | case2 item => rw [map_singleton, hashTree, id]
  | case3 a b items k ih₁ ih₂ =>
    rw [hashTree_split (by simp), length_map, ← map_take, ← map_drop, ih₁, ih₂]

/-- **The root stays.** -/
theorem root_pairs {l : List H} (h : 2 ≤ l.length) :
    hashTree empty inner id (pairs inner l) = hashTree empty inner id l := by
  induction hn : l.length using Nat.strong_induction_on generalizing l with
  | _ n ih =>
    subst hn
    obtain ⟨j, hj, -, hlt, hle⟩ := getSplitPoint_spec h
    rw [hashTree_split h, hj]
    cases j with
    | zero =>
      -- two nodes, which become the root
      match l with
      | [a, b] => simp [pairs, hashTree, take]
      | a :: b :: c :: rest => simp at hle
    | succ j =>
      have hpos := Nat.two_pow_pos j
      rw [pow_succ, pow_succ] at hle
      rw [pow_succ] at hlt ⊢
      have htake : (l.take (2 ^ j * 2)).length = 2 ^ j * 2 := length_take_of_le hlt.le
      have hleft : (pairs inner (l.take (2 ^ j * 2))).length = 2 ^ j := by
        rw [length_pairs]
        omega
      have hsplit := @pairs_append _ inner (l.take (2 ^ j * 2)) (l.drop (2 ^ j * 2))
        (by omega)
      rw [take_append_drop] at hsplit
      have hpoint : getSplitPoint (pairs inner l).length = 2 ^ j := by
        rw [length_pairs]
        exact getSplitPoint_eq (by omega) (by rw [pow_succ]; omega)
      rw [hashTree_split (by rw [length_pairs]; omega), hpoint, hsplit, take_left' hleft,
        drop_left' hleft, ih _ (by omega) (by omega) rfl]
      congr 1
      match hdrop : l.drop (2 ^ j * 2) with
      | [] => rfl
      | [a] => rfl
      | a :: b :: rest =>
        have := congrArg length hdrop
        rw [length_drop] at this
        exact ih _ (by omega) (by simp) rfl

theorem map_write {items : ℕ → H} {wp rp : ℕ} (h : wp < rp) (v : H) (n : ℕ) :
    (range (wp + 1)).map (update items wp v) = (range wp).map items ++ [v] ∧
      (range' rp n).map (update items wp v) = (range' rp n).map items := by
  have hkeep : ∀ i, i ≠ wp → update items wp v i = items i := fun i hi =>
    update_of_ne hi _ _
  refine ⟨?_, map_congr_left fun i hi => hkeep i (by have := mem_range'_1.mp hi; omega)⟩
  rw [range_succ, map_append, map_singleton, update_self,
    map_congr_left fun i hi => hkeep i (mem_range.mp hi).ne]

/-- Writing over what was read does not disturb what is still to be read. -/
theorem levelLoop_items {size rp wp : ℕ} {items : ℕ → H} (h : wp ≤ rp) :
    (range (levelLoop inner size rp wp items).2).map (levelLoop inner size rp wp items).1 =
      (range wp).map items ++ pairs inner ((range' rp (size - rp)).map items) := by
  fun_induction levelLoop inner size rp wp items with
  | case1 rp wp items hlt hnext ih =>
    obtain ⟨hwritten, hleft⟩ := @map_write _ items wp (rp + 2) (by omega)
      (inner (items rp) (items (rp + 1))) (size - (rp + 2))
    rw [ih (by omega), hwritten, hleft, append_assoc,
      show size - rp = size - (rp + 2) + 1 + 1 by omega, range'_succ, range'_succ]
    rfl
  | case2 rp wp items hlt hlast ih =>
    rw [ih (by omega), (@map_write _ items wp (rp + 1) (by omega) (items rp) 0).1,
      append_assoc, show size - rp = 1 by omega, show size - (rp + 1) = 0 by omega]
    rfl
  | case3 rp wp items hdone =>
    rw [show size - rp = 0 by omega]
    exact (append_nil _).symm

theorem levels_eq {size : ℕ} {items : ℕ → H} :
    levels empty inner size items = hashTree empty inner id ((range size).map items) := by
  fun_induction levels empty inner size items with
  | case1 items => rw [range_zero, map_nil, hashTree]
  | case2 items => rw [range_one, map_singleton, hashTree, id]
  | case3 size items ih =>
    rw [ih, levelLoop_items le_rfl, range_zero, map_nil, nil_append, Nat.sub_zero,
      ← range_eq_range', root_pairs (by simp)]

end

/-! ### Byte strings -/

section

variable (sum : List UInt8 → List UInt8)

def emptyHash : List UInt8 := sum []

def leafHash (leaf : List UInt8) : List UInt8 := sum (0 :: leaf)

def innerHash (left right : List UInt8) : List UInt8 := sum (1 :: (left ++ right))

def hashFromByteSlices (items : List (List UInt8)) : List UInt8 :=
  hashTree (emptyHash sum) (innerHash sum) (leafHash sum) items

def hashFromByteSlicesIterative (input : List (List UInt8)) : List UInt8 :=
  levels (emptyHash sum) (innerHash sum) input.length fun i => leafHash sum (input.getD i [])

/-- **Both ways lead to the same root.** -/
theorem iterative_root_eq (items : List (List UInt8)) :
    hashFromByteSlicesIterative sum items = hashFromByteSlices sum items := by
  have hleaves : (range items.length).map (fun i => leafHash sum (items.getD i [])) =
      items.map (leafHash sum) :=
    ext_getElem (by simp) fun i _ hi => by
      rw [length_map] at hi
      simp [hi]
  rw [hashFromByteSlicesIterative, levels_eq, hleaves, hashTree_map, hashFromByteSlices]

end

end CometBFT.Merkle
