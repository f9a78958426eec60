import CometBFT.Types.Commit
import Mathlib.Data.List.ReduceOption

/-!
# A minority and the median time

The comment of `MedianTime` (`types/block.go`) says that faulty processes cannot arbitrarily increase
or decrease the median. `WeightedMedian` (`types/time`) stops at the first entry, in the order of the
times, with which the weights reach half of the total. The half is rounded down, so that the earliest
entries reach it too soon if the total is odd and they weigh just that much. Times are ordered by
`UnixNano`, which wraps around outside of the years 1678 to 2262.

## Main results

* `median_between_others` — apart from these two cases the median lies between the times of the
  others; in the first one it does not
* `median_of_minority` — the two cases
-/

namespace CometBFT.Types

open List

/-- The sum of some weights. -/
def weightIn (weightedTimes : List WeightedTime) : ℤ :=
  (weightedTimes.map WeightedTime.weight).sum

variable {ws F G : List WeightedTime} {p : WeightedTime → Bool}

@[simp] theorem weightIn_append : weightIn (F ++ G) = weightIn F + weightIn G := by
  simp [weightIn]

@[simp] theorem weightIn_cons (w : WeightedTime) : weightIn (w :: ws) = w.weight + weightIn ws := by
  simp [weightIn]

@[simp] theorem weightIn_nil : weightIn [] = 0 := rfl

theorem weightIn_nonneg (hpos : ∀ w ∈ ws, 0 < w.weight) : 0 ≤ weightIn ws :=
  sum_nonneg (forall_mem_map.mpr fun w hw => (hpos w hw).le)

theorem weightIn_filter_le (hpos : ∀ w ∈ ws, 0 < w.weight) : weightIn (ws.filter p) ≤ weightIn ws :=
  (filter_sublist.map _).sum_le_sum (forall_mem_map.mpr fun w hw => (hpos w hw).le)

theorem weightIn_filter_of_perm (h : ws.Perm (F ++ G)) :
    weightIn (ws.filter p) = weightIn (F.filter p) + weightIn (G.filter p) := by
  rw [← weightIn_append, ← filter_append]
  exact ((h.filter p).map _).sum_eq

/-- The loop stops at the entry at which the weights reach the median. -/
theorem findMedian_spec (weightedTimes : List (Option WeightedTime)) (median : ℤ)
    (hne : weightedTimes.reduceOption ≠ []) (hm : median ≤ weightIn weightedTimes.reduceOption) :
    ∃ before w after, weightedTimes.reduceOption = before ++ w :: after ∧
      findMedian median weightedTimes = w.time ∧ median ≤ weightIn before + w.weight ∧
      (before = [] ∨ weightIn before < median) := by
  induction weightedTimes generalizing median with
  | nil => exact absurd rfl hne
  | cons entry rest ih =>
    cases entry with
    | none => exact ih median hne hm
    | some w =>
      rw [reduceOption_cons_of_some] at hm ⊢
      unfold findMedian
      split_ifs with hle
      · exact ⟨[], w, _, rfl, rfl, by simpa using hle, .inl rfl⟩
      · rw [weightIn_cons] at hm
        have hrest : rest.reduceOption ≠ [] := by
          intro hnil
          rw [hnil, weightIn_nil, add_zero] at hm
          exact hle hm
        obtain ⟨before, v, after, heq, hfind, hreach, hbefore⟩ :=
          ih (median - w.weight) hrest (by omega)
        refine ⟨w :: before, v, after, by rw [heq]; rfl, hfind, ?_, .inr ?_⟩
        · rw [weightIn_cons]
          omega
        · rw [weightIn_cons]
          rcases hbefore with rfl | hlt
          · rw [weightIn_nil]
            omega
          · omega

/-- The order that the times are sorted in. -/
def WeightedTime.notAfter (a b : Option WeightedTime) : Prop := less b a = false

instance : DecidableRel WeightedTime.notAfter := fun _ _ => inferInstanceAs (Decidable (_ = false))

instance : Std.Total WeightedTime.notAfter where
  total
    | none, none => .inl rfl
    | none, some _ => .inr rfl
    | some _, none => .inl rfl
    | some a, some b => by
      simp only [WeightedTime.notAfter, WeightedTime.less, decide_eq_false_iff_not, not_lt]
      exact le_total _ _

instance : IsTrans (Option WeightedTime) WeightedTime.notAfter where
  trans
    | _, _, none, _, _ => rfl
    | _, none, some _, _, h => nomatch h
    | none, some _, some _, h, _ => nomatch h
    | some a, some b, some c, hab, hbc => by
      simp only [WeightedTime.notAfter, WeightedTime.less, decide_eq_false_iff_not, not_lt] at *
      exact hab.trans hbc

/-- Times that fit are sorted as they are. -/
theorem pairwise_sorted (weightedTimes : List (Option WeightedTime))
    (hfits : ∀ w ∈ weightedTimes.reduceOption, Fits64 w.time) :
    (weightedTimes.insertionSort fun a b => WeightedTime.less b a = false).reduceOption.Pairwise
      fun v w => v.time ≤ w.time := by
  have hsorted := pairwise_insertionSort WeightedTime.notAfter weightedTimes
  unfold reduceOption
  rw [pairwise_filterMap]
  refine hsorted.imp_of_mem fun {a b} ha hb hab v hv w hw => ?_
  have hmem : ∀ {u : WeightedTime}, some u ∈ weightedTimes.insertionSort WeightedTime.notAfter →
      Fits64 u.time := by
    intro u hu
    exact hfits u (reduceOption_mem_iff.mpr ((mem_insertionSort _).mp hu))
  obtain rfl : a = some v := hv
  obtain rfl : b = some w := hw
  have hle := not_lt.mp (of_decide_eq_false hab)
  rwa [wrap64_of_fits (hmem ha), wrap64_of_fits (hmem hb)] at hle

section

variable {before after : List WeightedTime} {w : WeightedTime}
  (hsorted : (before ++ w :: after).Pairwise fun v w => v.time ≤ w.time)
  (hsplit : (before ++ w :: after).Perm (F ++ G)) (hpos : ∀ w ∈ F ++ G, 0 < w.weight)

include hsorted hsplit hpos

/-- If an entry with which the weight of `F` is reached comes before all of `G`, it is the last of `F`,
and no more than this weight is reached with it. -/
theorem last_of_split (hle : weightIn F ≤ weightIn before + w.weight)
    (hnone : ∀ a ∈ G, w.time < a.time) :
    weightIn before + w.weight = weightIn F ∧ ∀ f ∈ F, f.time ≤ w.time := by
  have hG : G.filter (fun v => v.time ≤ w.time) = [] :=
    filter_eq_nil_iff.mpr fun v hv => by simp [hnone v hv]
  have hbefore : before.filter (fun v => v.time ≤ w.time) = before :=
    filter_eq_self.mpr fun v hv => decide_eq_true
      ((pairwise_append.mp hsorted).2.2 v hv w mem_cons_self)
  have hsum := weightIn_filter_of_perm (p := fun v => v.time ≤ w.time) hsplit
  rw [hG, filter_append, hbefore, filter_cons_of_pos (by simp)] at hsum
  have hafter : 0 ≤ weightIn (after.filter fun v => v.time ≤ w.time) := weightIn_nonneg fun v hv =>
    hpos v (hsplit.subset (by simp [mem_of_mem_filter hv]))
  -- so nothing of `F` is later than the entry
  have hlater : weightIn (F.filter fun v => v.time ≤ w.time) +
      weightIn (F.filter fun v => !decide (v.time ≤ w.time)) = weightIn F := by
    rw [← weightIn_append]
    exact ((filter_append_perm _ F).map _).sum_eq
  have hF := weightIn_nonneg fun v (hv : v ∈ F.filter fun v => !decide (v.time ≤ w.time)) =>
    hpos v (mem_append_left G (mem_of_mem_filter hv))
  simp only [weightIn_append, weightIn_cons, weightIn_nil] at hsum
  refine ⟨by omega, fun f hf => ?_⟩
  by_contra hlt
  obtain ⟨l, l', hl⟩ := append_of_mem (mem_filter.mpr ⟨hf, by simpa using hlt⟩ :
    f ∈ F.filter fun v => !decide (v.time ≤ w.time))
  have hrest : ∀ v ∈ l ++ f :: l', 0 < v.weight := fun v hv =>
    hpos v (mem_append_left G (mem_of_mem_filter (hl ▸ hv)))
  have hl₁ := weightIn_nonneg fun v hv => hrest v (mem_append_left _ hv)
  have hl₂ := weightIn_nonneg fun v hv => hrest v (mem_append_right _ (mem_cons_of_mem _ hv))
  have hf₀ := hrest f (by simp)
  rw [hl, weightIn_append, weightIn_cons] at hlater
  omega

/-- What comes before an entry is not all of `G`, if it weighs less. -/
theorem exists_ge_of_split (hlt : weightIn before < weightIn G) : ∃ b ∈ G, w.time ≤ b.time := by
  by_contra hnone
  push Not at hnone
  have hG : G.filter (fun v => v.time < w.time) = G :=
    filter_eq_self.mpr fun v hv => decide_eq_true (hnone v hv)
  have hafter : (w :: after).filter (fun v => v.time < w.time) = [] := by
    refine filter_eq_nil_iff.mpr fun v hv => ?_
    have hle : w.time ≤ v.time := by
      rcases mem_cons.mp hv with rfl | hv
      · exact le_rfl
      · exact (pairwise_cons.mp (pairwise_append.mp hsorted).2.1).1 v hv
    simp [hle]
  have hsum := weightIn_filter_of_perm (p := fun v => v.time < w.time) hsplit
  rw [hG, filter_append, hafter] at hsum
  have hF : 0 ≤ weightIn (F.filter fun v => v.time < w.time) := weightIn_nonneg fun v hv =>
    hpos v (mem_append_left G (mem_of_mem_filter hv))
  have hbefore := weightIn_filter_le (p := fun v => v.time < w.time) fun v (hv : v ∈ before) =>
    hpos v (hsplit.subset (mem_append_left _ hv))
  simp only [weightIn_append, weightIn_nil] at hsum
  omega

end

/-- **A minority does not move the median** beyond the times of the others. However the entries that are
there are divided into `F` and `G`, if `F` weighs less than half of the total, the median lies between
two times of `G`, with one exception: the total is halved by an integer division, and `F` weighs just
the half that is rounded down and comes before all of `G`. -/
theorem median_between_others {weightedTimes : List (Option WeightedTime)}
    (hsplit : weightedTimes.reduceOption.Perm (F ++ G)) (hfits : ∀ w ∈ F ++ G, Fits64 w.time)
    (hpos : ∀ w ∈ F ++ G, 0 < w.weight) (hminority : 2 * weightIn F < weightIn (F ++ G)) :
    (∃ a ∈ G, ∃ b ∈ G, a.time ≤ weightedMedian weightedTimes (weightIn (F ++ G)) ∧
      weightedMedian weightedTimes (weightIn (F ++ G)) ≤ b.time) ↔
    ¬(F ≠ [] ∧ 2 * weightIn F + 1 = weightIn (F ++ G) ∧ ∀ f ∈ F, ∀ g ∈ G, f.time < g.time) := by
  have hF := weightIn_nonneg fun w hw => hpos w (mem_append_left G hw)
  have hsorted := pairwise_sorted weightedTimes fun w hw => hfits w (hsplit.subset hw)
  have hperm : (weightedTimes.insertionSort fun a b => WeightedTime.less b a = false).reduceOption.Perm
      (F ++ G) := ((perm_insertionSort _ _).filterMap id).trans hsplit
  have htotal : weightIn (weightedTimes.insertionSort fun a b =>
      WeightedTime.less b a = false).reduceOption = weightIn F + weightIn G :=
    (hperm.map _).sum_eq.trans weightIn_append
  rw [weightIn_append] at hminority ⊢
  have hhalf : (weightIn F + weightIn G).tdiv 2 = (weightIn F + weightIn G) / 2 :=
    Int.tdiv_eq_ediv_of_nonneg (by omega)
  obtain ⟨before, w, after, heq, hfind, hreach, hbefore⟩ := findMedian_spec _
    ((weightIn F + weightIn G).tdiv 2)
    (fun hnil => by rw [hnil, weightIn_nil] at htotal; omega) (by omega)
  rw [heq] at hperm hsorted
  have hw : 0 < w.weight := hpos w (hperm.subset (by simp))
  have hmedian : weightedMedian weightedTimes (weightIn F + weightIn G) = w.time := hfind
  rw [hmedian]
  constructor
  · -- the entry is not later than all of `F`, and so before all of `G`
    rintro ⟨a, ha, -, -, hle, -⟩ ⟨hne, hodd, hall⟩
    have hF₀ : 0 < weightIn F := sum_pos _
      (forall_mem_map.mpr fun v hv => hpos v (mem_append_left G hv)) (by simpa using hne)
    obtain ⟨f, hf, hge⟩ := exists_ge_of_split hsorted (hperm.trans perm_append_comm)
      (fun v hv => hpos v (perm_append_comm.subset hv)) (by
        rcases hbefore with rfl | hlt
        · exact hF₀
        · omega)
    exact absurd (hall f hf a ha) (not_lt.mpr (hle.trans hge))
  · intro hexception
    have hle : ∃ a ∈ G, a.time ≤ w.time := by
      by_contra hnone
      push Not at hnone
      obtain ⟨hreached, hlast⟩ := last_of_split hsorted hperm hpos (by omega) hnone
      refine hexception ⟨?_, by omega, fun f hf g hg => (hlast f hf).trans_lt (hnone g hg)⟩
      rintro rfl
      have := weightIn_nonneg fun v hv => hpos v (hperm.subset (mem_append_left _ hv))
      rw [weightIn_nil] at hreached
      omega
    obtain ⟨a, ha, hle⟩ := hle
    obtain ⟨b, hb, hge⟩ := exists_ge_of_split hsorted hperm hpos (by
      rcases hbefore with rfl | hlt
      · rw [weightIn_nil]
        omega
      · omega)
    exact ⟨a, ha, b, hb, hle, hge⟩

/-- The earliest of three is the minority in the first split, the latest in the second. -/
theorem median_between_others_three :
    (∃ a ∈ [WeightedTime.mk 10 2, ⟨20, 2⟩], ∃ b ∈ [WeightedTime.mk 10 2, ⟨20, 2⟩],
      a.time ≤ weightedMedian [some ⟨20, 2⟩, none, some ⟨0, 1⟩, some ⟨10, 2⟩] 5 ∧
      weightedMedian [some ⟨20, 2⟩, none, some ⟨0, 1⟩, some ⟨10, 2⟩] 5 ≤ b.time) ∧
    ∃ a ∈ [WeightedTime.mk 0 1, ⟨10, 1⟩], ∃ b ∈ [WeightedTime.mk 0 1, ⟨10, 1⟩],
      a.time ≤ weightedMedian [some ⟨0, 1⟩, some ⟨10, 1⟩, some ⟨20, 1⟩] 3 ∧
      weightedMedian [some ⟨0, 1⟩, some ⟨10, 1⟩, some ⟨20, 1⟩] 3 ≤ b.time :=
  ⟨(median_between_others (F := [⟨0, 1⟩]) (by decide) (by decide) (by decide) (by decide)).mpr
    (by decide),
    (median_between_others (F := [⟨20, 1⟩]) (by decide) (by decide) (by decide) (by decide)).mpr
      (by decide)⟩

/-- **A minority that sets the median.** The first vote is the faulty one. In the first commit it is
the earliest of three; in the second its time is later than the others by more than `UnixNano` can
tell. -/
theorem median_of_minority :
    (2 * weightIn [⟨0, 1⟩] < weightIn [⟨0, 1⟩, ⟨10, 1⟩, ⟨20, 1⟩] ∧
      ∀ a ∈ [WeightedTime.mk 10 1, ⟨20, 1⟩],
        weightedMedian [some ⟨0, 1⟩, some ⟨10, 1⟩, some ⟨20, 1⟩] 3 < a.time) ∧
    (2 * weightIn [⟨18446744073709551631, 1⟩] <
        weightIn [⟨18446744073709551631, 1⟩, ⟨10, 1⟩, ⟨20, 1⟩, ⟨20, 1⟩] ∧
      ∀ b ∈ [WeightedTime.mk 10 1, ⟨20, 1⟩, ⟨20, 1⟩], b.time <
        weightedMedian [some ⟨18446744073709551631, 1⟩, some ⟨10, 1⟩, some ⟨20, 1⟩, some ⟨20, 1⟩] 4) := by
  decide

end CometBFT.Types
