import Mathlib.Data.List.Perm.Basic
import Mathlib.Data.List.Sort

/-!
# Removal by swapping

An element of a slice is removed by moving the last one to its place. If several are removed, from the
highest index down, the other indices stay what they were.

## Main results

* `exists_foldlM_swapRemove` — removing indices in descending order never fails, and leaves the other
  elements in some order
-/

namespace CometBFT

open List

variable {α : Type*}

/-- `s[i] = s[len(s)-1]; s = s[:len(s)-1]`; none if the index is out of range. -/
def swapRemove (l : List α) (i : ℕ) : Option (List α) :=
  match l.getLast? with
  | none => none
  | some last => if i < l.length then some (l.set i last).dropLast else none

/-- The elements whose indices are not in `is`. -/
def without (is : List ℕ) (l : List α) : List α :=
  (l.zipIdx.filter fun p => p.2 ∉ is).map Prod.fst

@[simp] theorem without_nil (l : List α) : without [] l = l := by
  unfold without
  rw [filter_eq_self.mpr fun p _ => by simp, zipIdx_map_fst]

variable {is : List ℕ}

theorem without_congr {js : List ℕ} (h : ∀ i, i ∈ is ↔ i ∈ js) (l : List α) :
    without is l = without js l := by
  unfold without
  congr 1
  exact filter_congr fun p _ => by simp [h]

/-- Only the first `a.length` elements are looked at. -/
theorem without_append {a : List α} (h : ∀ i ∈ is, i < a.length) (b : List α) :
    without is (a ++ b) = without is a ++ b := by
  unfold without
  rw [zipIdx_append, filter_append, map_append]
  congr 1
  rw [filter_eq_self.mpr, zipIdx_map_fst]
  intro p hp
  have hle := (mem_zipIdx hp).1
  refine decide_eq_true fun hmem => ?_
  have := h _ hmem
  omega

theorem without_cons {a : List α} (h : ∀ i ∈ is, i < a.length) (x : α) (b : List α) :
    without (a.length :: is) (a ++ x :: b) = without is a ++ b := by
  have hsplit : without (a.length :: is) ((a ++ [x]) ++ b) = without (a.length :: is) (a ++ [x]) ++ b := by
    refine without_append (fun i hi => ?_) b
    rw [length_append, length_singleton]
    rcases mem_cons.mp hi with rfl | hi
    · omega
    · have := h i hi
      omega
  rw [append_assoc, singleton_append] at hsplit
  rw [hsplit]
  congr 1
  unfold without
  rw [zipIdx_append, filter_append, map_append]
  have hlast : ([x].zipIdx (0 + a.length)).filter (fun p => p.2 ∉ a.length :: is) = [] := by
    simp
  rw [hlast, map_nil, append_nil]
  congr 1
  refine filter_congr fun p hp => ?_
  have hlt := (mem_zipIdx hp).2.1
  have hne : p.2 ≠ a.length := by omega
  simp [hne]

theorem without_sublist (is : List ℕ) (l : List α) : (without is l).Sublist l := by
  have hsub := (filter_sublist (l := l.zipIdx) (p := fun p => p.2 ∉ is)).map Prod.fst
  rwa [zipIdx_map_fst] at hsub

/-- Without one more element. -/
theorem cons_without_perm {i : ℕ} {x : α} {l : List α} (hi : i ∉ is) (hx : l[i]? = some x) :
    (x :: without (is ++ [i]) l).Perm (without is l) := by
  -- the pairs that are left have different indices, and one of them is that of `x`
  have hpairs : ∀ L : List (α × ℕ), (L.map Prod.snd).Nodup → (x, i) ∈ L →
      (x :: (L.filter fun p => p.2 ≠ i).map Prod.fst).Perm (L.map Prod.fst) := by
    intro L hnodup hmem
    induction L with
    | nil => cases hmem
    | cons q L ih =>
      obtain ⟨hq, hnodup⟩ := nodup_cons.mp hnodup
      by_cases hqi : q.2 = i
      · have hrest : L.filter (fun p => p.2 ≠ i) = L := by
          refine filter_eq_self.mpr fun p hp => decide_eq_true fun hpi => hq ?_
          rw [hqi, ← hpi]
          exact mem_map_of_mem hp
        have hqx : q = (x, i) := by
          rcases mem_cons.mp hmem with heq | hmem
          · exact heq.symm
          · exact absurd (mem_map_of_mem (f := Prod.snd) hmem) (hqi ▸ hq)
        rw [filter_cons_of_neg (by simpa using hqi), hrest, map_cons, hqx]
      · have hmem : (x, i) ∈ L := by
          rcases mem_cons.mp hmem with heq | hmem
          · exact absurd (congrArg Prod.snd heq.symm) hqi
          · exact hmem
        rw [filter_cons_of_pos (by simpa using hqi), map_cons, map_cons]
        exact (List.Perm.swap _ _ _).trans ((ih hnodup hmem).cons _)
  have hnodup : ((l.zipIdx.filter fun p => p.2 ∉ is).map Prod.snd).Nodup := by
    refine (filter_sublist.map Prod.snd).nodup ?_
    rw [zipIdx_map_snd]
    exact nodup_range'
  have hmem : (x, i) ∈ l.zipIdx.filter fun p => p.2 ∉ is :=
    mem_filter.mpr ⟨mem_zipIdx_iff_getElem?.mpr hx, decide_eq_true hi⟩
  have hfilter : (l.zipIdx.filter fun p => p.2 ∉ is ++ [i]) =
      (l.zipIdx.filter fun p => p.2 ∉ is).filter fun p => p.2 ≠ i := by
    rw [filter_filter]
    exact filter_congr fun p _ => by simp [and_comm]
  unfold without
  rw [hfilter]
  exact hpairs _ hnodup hmem

/-- The element is gone; those before it are where they were, those after it in another order. -/
theorem swapRemove_append (a : List α) (x : α) (b : List α) :
    ∃ b', swapRemove (a ++ x :: b) a.length = some (a ++ b') ∧ b'.Perm b := by
  have hlt : a.length < (a ++ x :: b).length := by
    rw [length_append, length_cons]
    omega
  rcases eq_nil_or_concat b with rfl | ⟨b, y, rfl⟩
  · refine ⟨[], ?_, .nil⟩
    unfold swapRemove
    rw [getLast?_concat]
    simp
  · refine ⟨y :: b, ?_, ?_⟩
    · unfold swapRemove
      have hlast : (a ++ x :: b.concat y).getLast? = some y := by
        rw [concat_eq_append, ← cons_append, ← append_assoc, getLast?_concat]
      rw [hlast]
      dsimp only
      rw [if_pos hlt, set_append_right _ _ (Nat.le_refl _), Nat.sub_self, set_cons_zero,
        concat_eq_append, ← cons_append, ← append_assoc, dropLast_concat]
    · rw [concat_eq_append]
      exact (perm_append_singleton y b).symm

/-- **Removal in descending order.** -/
theorem exists_foldlM_swapRemove {l : List α} (hdesc : is.Pairwise (· > ·))
    (hlt : ∀ i ∈ is, i < l.length) :
    ∃ l', is.foldlM swapRemove l = some l' ∧ l'.Perm (without is l) := by
  induction is generalizing l with
  | nil => exact ⟨l, rfl, by rw [without_nil]⟩
  | cons i is ih =>
    obtain ⟨hgt, htail⟩ := pairwise_cons.mp hdesc
    have hi := hlt i mem_cons_self
    obtain ⟨a, x, b, rfl, rfl⟩ : ∃ a x b, l = a ++ x :: b ∧ i = a.length :=
      ⟨l.take i, l[i], l.drop (i + 1), by rw [getElem_cons_drop, take_append_drop],
        (length_take_of_le hi.le).symm⟩
    obtain ⟨b', hswap, hperm⟩ := swapRemove_append a x b
    have hlt' : ∀ j ∈ is, j < (a ++ b').length := by
      intro j hj
      have := hgt j hj
      rw [length_append]
      omega
    obtain ⟨l', hl', hperm'⟩ := ih htail hlt'
    refine ⟨l', ?_, ?_⟩
    · rw [foldlM_cons, hswap]
      exact hl'
    · rw [without_cons hgt]
      rw [without_append hgt] at hperm'
      exact hperm'.trans (hperm.append_left _)

end CometBFT
