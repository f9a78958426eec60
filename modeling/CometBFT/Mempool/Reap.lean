import CometBFT.Lib.Protobuf

/-!
# Reaping the mempool

How `CListMempool` picks the transactions of a block (`mempool/clist_mempool.go`). The list is walked
from the front until the next transaction would exceed one of the limits. The size of a prefix as
block data is the sum of the sizes of its transactions, which fits into memory; the gas is summed in
64 bits, where a sum can wrap around.

## Main results

* `reaps_longest` — the longest prefix within the limits is taken, if and only if no sum of gas that
  the loop comes to wraps around
* `overreaps` — the comment in the source says that none does, but one can; and `ReapMaxTxs` takes
  one transaction more than it is asked for
-/

namespace CometBFT.Mempool

open Protobuf

structure MempoolTx where
  tx : List UInt8
  gasWanted : ℤ
deriving DecidableEq, Repr

/-- `ComputeProtoSizeForTxs`. -/
def computeProtoSizeForTxs (txs : List (List UInt8)) : ℤ := (txs.map fun tx => nested tx.length).sum

/-- The loop of `ReapMaxBytesMaxGas`. -/
def reapLoop (maxBytes maxGas : ℤ) : ℤ → ℤ → List MempoolTx → List (List UInt8)
  | _, _, [] => []
  | totalGas, runningSize, memTx :: rest =>
    let dataSize := computeProtoSizeForTxs [memTx.tx]
    if maxBytes > -1 ∧ runningSize + dataSize > maxBytes then []
    else
      let newTotalGas := wrap64 (totalGas + memTx.gasWanted)
      if maxGas > -1 ∧ newTotalGas > maxGas then []
      else memTx.tx :: reapLoop maxBytes maxGas newTotalGas (runningSize + dataSize) rest

def reapMaxBytesMaxGas (txs : List MempoolTx) (maxBytes maxGas : ℤ) : List (List UInt8) :=
  reapLoop maxBytes maxGas 0 0 txs

/-- The loop of `ReapMaxTxs`. -/
def reapTxsLoop (max : ℤ) : List (List UInt8) → List MempoolTx → List (List UInt8)
  | txs, [] => txs
  | txs, memTx :: rest =>
    if txs.length ≤ max then reapTxsLoop max (txs ++ [memTx.tx]) rest else txs

def reapMaxTxs (txs : List MempoolTx) (max : ℤ) : List (List UInt8) :=
  reapTxsLoop (if max < 0 then txs.length else max) [] txs

/-! ### Limits -/

section

variable (maxBytes maxGas : ℤ)

/-- The transactions, after others with these totals, stay within the limits that there are on the size
as block data and on the gas. -/
def Fits (gas size : ℤ) (txs : List MempoolTx) : Prop :=
  (0 ≤ maxBytes → size + computeProtoSizeForTxs (txs.map MempoolTx.tx) ≤ maxBytes) ∧
    (0 ≤ maxGas → gas + (txs.map MempoolTx.gasWanted).sum ≤ maxGas)

instance (gas size : ℤ) (txs : List MempoolTx) : Decidable (Fits maxBytes maxGas gas size txs) :=
  inferInstanceAs (Decidable (_ ∧ _))

end

variable {maxBytes maxGas gas size : ℤ} {t : MempoolTx} {txs : List MempoolTx}

theorem fits_nil : Fits maxBytes maxGas gas size [] ↔
    (0 ≤ maxBytes → size ≤ maxBytes) ∧ (0 ≤ maxGas → gas ≤ maxGas) := by
  simp [Fits, computeProtoSizeForTxs]

theorem fits_cons : Fits maxBytes maxGas gas size (t :: txs) ↔
    Fits maxBytes maxGas (gas + t.gasWanted) (size + computeProtoSizeForTxs [t.tx]) txs := by
  simp [Fits, computeProtoSizeForTxs, add_assoc]

/-- Nobody gives gas back. -/
theorem Fits.nil (hgas : ∀ t ∈ txs, 0 ≤ t.gasWanted) (h : Fits maxBytes maxGas gas size txs) :
    Fits maxBytes maxGas gas size [] := by
  have hsum : 0 ≤ (txs.map MempoolTx.gasWanted).sum :=
    List.sum_nonneg (List.forall_mem_map.mpr hgas)
  unfold Fits computeProtoSizeForTxs at h
  rw [fits_nil]
  omega

/-- The loop takes a prefix that stays within the limits, and no longer one does. -/
def Longest (maxBytes maxGas gas size : ℤ) (txs : List MempoolTx) (reaped : List (List UInt8)) : Prop :=
  ∃ n ≤ txs.length, reaped = (txs.take n).map MempoolTx.tx ∧
    Fits maxBytes maxGas gas size (txs.take n) ∧
    ∀ m ≤ txs.length, Fits maxBytes maxGas gas size (txs.take m) → m ≤ n

/-- The gas of a prefix that stays within the limits, with that of a next transaction which is not too
large, does not wrap around. -/
def NoWrap (maxBytes maxGas gas size : ℤ) (txs : List MempoolTx) : Prop :=
  0 ≤ maxGas → ∀ n < txs.length, Fits maxBytes maxGas gas size (txs.take n) →
    Fits maxBytes (-1) gas size (txs.take (n + 1)) →
    gas + ((txs.take (n + 1)).map MempoolTx.gasWanted).sum ≤ maxInt64

/-- A first transaction that fits can be counted with the others before. -/
theorem longest_cons {gas' : ℤ} {reaped : List (List UInt8)}
    (hgas' : 0 ≤ maxGas → gas' = gas + t.gasWanted) :
    Longest maxBytes maxGas gas' (size + computeProtoSizeForTxs [t.tx]) txs reaped ↔
      Longest maxBytes maxGas gas size (t :: txs) (t.tx :: reaped) := by
  have hcons : ∀ l, Fits maxBytes maxGas gas' (size + computeProtoSizeForTxs [t.tx]) l ↔
      Fits maxBytes maxGas gas size (t :: l) := by
    intro l
    rw [fits_cons]
    exact and_congr_right fun _ => forall_congr' fun hg => by rw [hgas' hg]
  constructor
  · rintro ⟨n, hn, hreap, hfits, hmax⟩
    refine ⟨n + 1, Nat.succ_le_succ hn, congrArg _ hreap, (hcons _).mp hfits, ?_⟩
    rintro (_ | m) hm hfm
    · exact Nat.zero_le _
    · exact Nat.succ_le_succ (hmax m (Nat.le_of_succ_le_succ hm) ((hcons _).mpr hfm))
  · rintro ⟨_ | n, hn, hreap, hfits, hmax⟩
    · cases hreap
    · exact ⟨n, Nat.le_of_succ_le_succ hn, (List.cons.inj hreap).2, (hcons _).mpr hfits,
        fun m hm hfm => Nat.le_of_succ_le_succ (hmax (m + 1) (Nat.succ_le_succ hm) ((hcons _).mp hfm))⟩

theorem noWrap_cons {gas' : ℤ} (hgas' : 0 ≤ maxGas → gas' = gas + t.gasWanted)
    (hle : maxGas ≤ maxInt64) (ht : Fits maxBytes maxGas gas size [t]) :
    NoWrap maxBytes maxGas gas' (size + computeProtoSizeForTxs [t.tx]) txs ↔
      NoWrap maxBytes maxGas gas size (t :: txs) := by
  refine forall_congr' fun hg => ?_
  rw [hgas' hg]
  constructor
  · rintro h (_ | n) hn hfits hnext
    · exact (ht.2 hg).trans hle
    · have := h n (Nat.lt_of_succ_lt_succ hn) (fits_cons.mp hfits) (fits_cons.mp hnext)
      simpa [add_assoc] using this
  · intro h n hn hfits hnext
    have := h (n + 1) (Nat.succ_lt_succ hn) (fits_cons.mpr hfits) (fits_cons.mpr hnext)
    simpa [add_assoc] using this

/-- From totals within the limits on, the loop takes the longest prefix that stays within them if and
only if no sum of gas wraps around that the loop computes. -/
theorem reapLoop_longest_iff (hgas : ∀ t ∈ txs, 0 ≤ t.gasWanted ∧ t.gasWanted ≤ maxInt64)
    (hle : maxGas ≤ maxInt64) (hpos : 0 ≤ maxGas → 0 ≤ gas)
    (hnil : Fits maxBytes maxGas gas size []) :
    Longest maxBytes maxGas gas size txs (reapLoop maxBytes maxGas gas size txs) ↔
      NoWrap maxBytes maxGas gas size txs := by
  induction txs generalizing gas size with
  | nil => exact iff_of_true ⟨0, le_rfl, rfl, hnil, fun m hm _ => hm⟩ fun _ n hn => by cases hn
  | cons t txs ih =>
    obtain ⟨⟨ht, ht'⟩, hrest⟩ := List.forall_mem_cons.mp hgas
    have hnonneg : ∀ n, ∀ u ∈ txs.take n, 0 ≤ u.gasWanted :=
      fun n u hu => (hrest u (List.mem_of_mem_take hu)).1
    -- what does not fit alone does not fit with more
    have hmore : ∀ n, Fits maxBytes maxGas gas size (t :: txs.take n) → Fits maxBytes maxGas gas size [t] :=
      fun n h => fits_cons.mpr ((fits_cons.mp h).nil fun u hu => (hrest u (List.mem_of_mem_take hu)).1)
    have hstop : ¬Fits maxBytes maxGas gas size [t] → Longest maxBytes maxGas gas size (t :: txs) [] := by
      refine fun hnot => ⟨0, Nat.zero_le _, rfl, hnil, ?_⟩
      rintro (_ | m) - hm
      · exact le_rfl
      · exact absurd (hmore m hm) hnot
    have hnoWrap : ¬Fits maxBytes maxGas gas size [t] →
        (Fits maxBytes (-1) gas size [t] → gas + t.gasWanted ≤ maxInt64) →
        NoWrap maxBytes maxGas gas size (t :: txs) := by
      rintro hnot hsum - (_ | n) - hfits hnext
      · simpa using hsum hnext
      · exact absurd (hmore n hfits) hnot
    unfold reapLoop
    dsimp only
    by_cases hsize : 0 ≤ maxBytes → size + computeProtoSizeForTxs [t.tx] ≤ maxBytes
    · rw [if_neg (by omega)]
      by_cases hfit : 0 ≤ maxGas → gas + t.gasWanted ≤ maxGas
      · have hwrap : 0 ≤ maxGas → wrap64 (gas + t.gasWanted) = gas + t.gasWanted := fun hg =>
          wrap64_of_fits ⟨by have := hpos hg; unfold minInt64; omega, (hfit hg).trans hle⟩
        have hfit' : 0 ≤ maxGas → wrap64 (gas + t.gasWanted) ≤ maxGas := fun hg => (hwrap hg).trans_le (hfit hg)
        rw [if_neg (by omega), ← longest_cons hwrap,
          ← noWrap_cons hwrap hle (fits_cons.mpr (fits_nil.mpr ⟨hsize, hfit⟩))]
        exact ih hrest (fun hg => by rw [hwrap hg]; have := hpos hg; omega) (fits_nil.mpr ⟨hsize, hfit'⟩)
      · -- here the next sum is too large, and it is seen to be unless it wraps around
        have hnot : ¬Fits maxBytes maxGas gas size [t] := fun h => hfit (fits_nil.mp (fits_cons.mp h)).2
        push Not at hfit
        have := hpos hfit.1
        by_cases hwraps : gas + t.gasWanted ≤ maxInt64
        · have hwrap : wrap64 (gas + t.gasWanted) = gas + t.gasWanted :=
            wrap64_of_fits ⟨by unfold minInt64; omega, hwraps⟩
          rw [if_pos ⟨by omega, by omega⟩]
          exact iff_of_true (hstop hnot) (hnoWrap hnot fun _ => hwraps)
        · have hwrap : wrap64 (gas + t.gasWanted) < 0 := by
            have := (fits_nil.mp hnil).2 hfit.1
            unfold maxInt64 at hwraps ht' hle
            unfold wrap64
            omega
          rw [if_neg (by omega)]
          refine iff_of_false ?_ fun h => hwraps ?_
          · rintro ⟨_ | n, -, hreap, hfits, -⟩
            · cases hreap
            · exact hnot (hmore n hfits)
          · have := h hfit.1 0 (Nat.zero_lt_succ _) hnil (fits_cons.mpr (fits_nil.mpr ⟨hsize, nofun⟩))
            simpa using this
    · rw [if_pos (by omega)]
      have hnot : ∀ maxGas, ¬Fits maxBytes maxGas gas size [t] :=
        fun _ h => hsize (fits_nil.mp (fits_cons.mp h)).1
      exact iff_of_true (hstop (hnot _)) (hnoWrap (hnot _) fun h => absurd h (hnot _))

/-- One transaction more than the number asked for. -/
theorem reapTxsLoop_eq (max : ℕ) (taken : List (List UInt8)) (h : taken.length ≤ max + 1) :
    reapTxsLoop max taken txs =
      taken ++ (txs.take (max + 1 - taken.length)).map MempoolTx.tx := by
  induction txs generalizing taken with
  | nil => simp [reapTxsLoop]
  | cons t txs ih =>
    rw [reapTxsLoop]
    split
    · rename_i hle
      have hle : taken.length ≤ max := by exact_mod_cast hle
      rw [ih _ (by simpa using hle), show max + 1 - taken.length =
        max + 1 - (taken ++ [t.tx]).length + 1 by simp; omega]
      simp
    · rename_i hgt
      have hgt : ¬taken.length ≤ max := by exact_mod_cast hgt
      rw [show max + 1 - taken.length = 0 by omega]
      simp

/-- **The longest prefix is reaped** if and only if no sum of gas wraps around that the loop comes to;
and the number of transactions asked for is reaped if and only if the mempool has no more. -/
theorem reaps_longest (hgas : ∀ t ∈ txs, 0 ≤ t.gasWanted ∧ t.gasWanted ≤ maxInt64)
    (hle : maxGas ≤ maxInt64) :
    (Longest maxBytes maxGas 0 0 txs (reapMaxBytesMaxGas txs maxBytes maxGas) ↔
      NoWrap maxBytes maxGas 0 0 txs) ∧
    ∀ max : ℕ, reapMaxTxs txs max = (txs.take (min max txs.length)).map MempoolTx.tx ↔
      txs.length ≤ max := by
  refine ⟨reapLoop_longest_iff hgas hle (fun _ => le_rfl) ⟨id, id⟩, fun max => ?_⟩
  rw [reapMaxTxs, if_neg (by omega), reapTxsLoop_eq _ _ (Nat.zero_le _)]
  refine ⟨fun h => ?_, fun h => ?_⟩
  · have := congrArg List.length h
    simp only [List.nil_append, List.length_nil, List.length_map, List.length_take] at this
    omega
  · rw [min_eq_right h, List.take_of_length_le le_rfl, List.take_of_length_le (by simp; omega)]
    rfl

/-- The third transaction exceeds the gas. -/
theorem reaps_longest_two : reapMaxTxs [⟨[1], 2⟩, ⟨[], 3⟩, ⟨[2], 1⟩] 3 = [[1], [], [2]] ∧
    Longest 10 5 0 0 [⟨[1], 2⟩, ⟨[], 3⟩, ⟨[2], 1⟩]
      (reapMaxBytesMaxGas [⟨[1], 2⟩, ⟨[], 3⟩, ⟨[2], 1⟩] 10 5) := by
  obtain ⟨hlongest, hall⟩ := @reaps_longest 10 5 [⟨[1], 2⟩, ⟨[], 3⟩, ⟨[2], 1⟩] (by decide) (by decide)
  refine ⟨(hall 3).mpr le_rfl, hlongest.mpr fun _ n hn _ _ => ?_⟩
  revert n
  decide

/-- **Too much is reaped.** Two transactions want more gas than there is, but the sum of the two is
negative in 64 bits. And no transactions are asked for, but one is taken. -/
theorem overreaps : reapMaxBytesMaxGas [⟨[1], maxInt64⟩, ⟨[2], 1⟩] (-1) maxInt64 = [[1], [2]] ∧
    ¬Fits (-1) maxInt64 0 0 [⟨[1], maxInt64⟩, ⟨[2], 1⟩] ∧
    reapMaxTxs [⟨[1], 0⟩] 0 = [[1]] := by
  decide

end CometBFT.Mempool
