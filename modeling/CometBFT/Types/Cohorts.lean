import CometBFT.Types.ChangeSet

/-!
# Cohorts

Validators of the same power that start from the same priority rotate as one: they are elected in
the order of their addresses, and none of them a second time before all of them were elected once.
A whole set is then described by a few numbers for each such cohort, and many elections of a large
set are computed by following these.

Levels are natural numbers, a fixed amount above the priorities they stand for.

## Main results

* `incrementTimes_members` — the elections of a set of cohorts
-/

namespace CometBFT.Types

open Validators List

/-- `size` validators with the addresses from `base` on. The first `paid` of them were elected in
their current turn and are one total power below `level`, the others are at `level`. -/
structure Cohort where
  power : ℕ
  size : ℕ
  base : ℕ
  level : ℕ
  paid : ℕ
deriving DecidableEq, Repr

namespace Cohort

variable {addr : ℕ → Bytes} {T K H : ℕ} {c d : Cohort} {cs cs' : List Cohort}

def member (addr : ℕ → Bytes) (T K : ℕ) (c : Cohort) (i : ℕ) : Validator :=
  ⟨addr (c.base + i), none, c.power, (if i < c.paid then (c.level : ℤ) - T else c.level) - K⟩

def validators (addr : ℕ → Bytes) (T K : ℕ) (c : Cohort) : List Validator :=
  (range c.size).map (c.member addr T K)

def members (addr : ℕ → Bytes) (T K : ℕ) (cs : List Cohort) : List Validator :=
  cs.flatMap (validators addr T K)

/-! ### One election -/

def raise (c : Cohort) : Cohort := { c with level := c.level + c.power }

/-- The next of the cohort pays. When all have paid, the turn is over. -/
def pay (T : ℕ) : Cohort → Cohort
  | ⟨power, size, base, level, paid⟩ =>
    if paid + 1 = size then ⟨power, size, base, level - T, 0⟩
    else ⟨power, size, base, level, paid + 1⟩

/-- Goes on with `n`, of which only the value is left. -/
def force {α : Type} (n : ℕ) (k : ℕ → α) : α :=
  match n with
  | 0 => k 0
  | m + 1 => k (m + 1)

/-- Raises all levels and finds the highest, which is at least `top`. -/
def raiseAll {α : Type} : List Cohort → ℕ → (List Cohort → ℕ → α) → α
  | [], top, k => k [] top
  | ⟨power, size, base, level, paid⟩ :: cs, top, k =>
    force (level + power) fun level =>
      raiseAll cs (if top < level then level else top) fun cs top =>
        k (⟨power, size, base, level, paid⟩ :: cs) top

/-- The first cohort at `top` pays. -/
def payTop (T top : ℕ) : List Cohort → Option (List Cohort)
  | [] => none
  | c@⟨_, size, _, level, paid⟩ :: cs =>
    if level = top then
      if T ≤ level ∧ paid < size then some (pay T c :: cs) else none
    else match payTop T top cs with
      | none => none
      | some cs => some (c :: cs)

/-- One election, as long as no level exceeds `H`. -/
def advance (T H : ℕ) (cs : List Cohort) : Option (List Cohort) :=
  raiseAll cs 0 fun cs top => force top fun top => if top ≤ H then payTop T top cs else none

def advanceTimes (T H : ℕ) : ℕ → List Cohort → Option (List Cohort)
  | 0, cs => some cs
  | n + 1, cs =>
    match advance T H cs with
    | none => none
    | some cs => advanceTimes T H n cs

/-! ### What the election computes -/

theorem force_eq {α : Type} (n : ℕ) (k : ℕ → α) : force n k = k n := by
  cases n <;> rfl

theorem pay_eq (T : ℕ) (c : Cohort) :
    pay T c = if c.paid + 1 = c.size then { c with level := c.level - T, paid := 0 }
      else { c with paid := c.paid + 1 } :=
  rfl

theorem raiseAll_eq {α : Type} (cs : List Cohort) (top : ℕ) (k : List Cohort → ℕ → α) :
    raiseAll cs top k = k (cs.map raise) (cs.foldl (fun top c =>
      if top < c.level + c.power then c.level + c.power else top) top) := by
  induction cs generalizing top k with
  | nil => rfl
  | cons c cs ih =>
    rw [raiseAll, force_eq, ih]
    rfl

theorem payTop_eq_some {top : ℕ} (h : payTop T top cs = some cs') :
    ∃ l₁ c l₂, cs = l₁ ++ c :: l₂ ∧ cs' = l₁ ++ pay T c :: l₂ ∧ (∀ d ∈ l₁, d.level ≠ top) ∧
      c.level = top ∧ T ≤ c.level ∧ c.paid < c.size := by
  induction cs generalizing cs' with
  | nil => cases h
  | cons c cs ih =>
    unfold payTop at h
    split at h
    · split at h
      · cases h
        rename_i htop hpaid
        exact ⟨[], c, cs, rfl, rfl, nofun, htop, hpaid⟩
      · cases h
    · rename_i hne
      split at h
      · cases h
      cases h
      rename_i cs'' hcs
      obtain ⟨l₁, d, l₂, rfl, rfl, hl, hd⟩ := ih hcs
      refine ⟨c :: l₁, d, l₂, rfl, rfl, fun e he => ?_, hd⟩
      rcases mem_cons.mp he with rfl | he
      · exact hne
      · exact hl e he

/-- An election raises all levels and lets the first of the highest cohorts pay. -/
theorem advance_eq_some (h : advance T H cs = some cs') :
    ∃ l₁ c l₂, cs.map raise = l₁ ++ c :: l₂ ∧ cs' = l₁ ++ pay T c :: l₂ ∧
      (∀ d ∈ l₁, d.level < c.level) ∧ (∀ d ∈ l₂, d.level ≤ c.level) ∧ c.level ≤ H ∧
      T ≤ c.level ∧ c.paid < c.size := by
  rw [advance, raiseAll_eq, force_eq] at h
  split at h
  · rename_i hH
    obtain ⟨l₁, c, l₂, hcs, hcs', hl, htop, hpaid⟩ := payTop_eq_some h
    have hle : ∀ d ∈ cs.map raise, d.level ≤ c.level := by
      intro d hd
      obtain ⟨e, he, rfl⟩ := mem_map.mp hd
      rw [htop]
      exact (foldl_greatest (fun c : Cohort => c.level + c.power) cs 0).2.1 e he
    refine ⟨l₁, c, l₂, hcs, hcs', fun d hd => ?_, fun d hd => ?_, htop ▸ hH, hpaid⟩
    · exact lt_of_le_of_ne (hle d (hcs ▸ mem_append_left _ hd)) (htop ▸ hl d hd)
    · exact hle d (hcs ▸ mem_append_right _ (mem_cons_of_mem _ hd))
  · cases h

/-! ### The validators of cohorts -/

theorem mem_members {v : Validator} :
    v ∈ members addr T K cs ↔ ∃ c ∈ cs, ∃ i < c.size, c.member addr T K i = v := by
  simp [members, validators]

theorem members_append (l₁ l₂ : List Cohort) :
    members addr T K (l₁ ++ l₂) = members addr T K l₁ ++ members addr T K l₂ :=
  flatMap_append

theorem members_cons (c : Cohort) (l : List Cohort) :
    members addr T K (c :: l) = c.validators addr T K ++ members addr T K l :=
  flatMap_cons

theorem raise_members (cs : List Cohort) :
    Validators.raise (members addr T K cs) = members addr T K (cs.map raise) := by
  rw [Validators.raise, members, members, map_flatMap, flatMap_map]
  congr 1
  funext c
  rw [validators, validators, map_map]
  refine map_congr_left fun i _ => ?_
  simp only [Function.comp_apply, member, raise, Validator.withPriority, Nat.cast_add]
  congr 1
  split <;> ring

theorem member_le (c : Cohort) (i : ℕ) :
    (c.member addr T K i).proposerPriority ≤ c.level - K := by
  unfold member
  dsimp only
  split <;> omega

theorem le_member (c : Cohort) (i : ℕ) :
    -(T : ℤ) - K ≤ (c.member addr T K i).proposerPriority := by
  unfold member
  dsimp only
  split <;> omega

theorem member_paid (c : Cohort) :
    (c.member addr T K c.paid).proposerPriority = c.level - K := by
  rw [member, if_neg (lt_irrefl _)]

/-- The next to pay is preferred to all of its own cohort. -/
theorem preferred_member (hT : 0 < T) (hc : Ascending (c.validators addr T K))
    (hpaid : c.paid < c.size) {i : ℕ} (hi : i < c.size) :
    Preferred (c.member addr T K c.paid) (c.member addr T K i) := by
  rcases lt_trichotomy i c.paid with hlt | rfl | hgt
  · left
    rw [member_paid, member, if_pos hlt]
    show (c.level : ℤ) - T - K < c.level - K
    omega
  · exact .refl _
  · right
    constructor
    · rw [member_paid, member, if_neg hgt.not_gt]
    · have hasc := pairwise_iff_getElem.mp hc c.paid i (by simpa [validators]) (by simpa [validators]) hgt
      simp only [validators, getElem_map, getElem_range] at hasc
      exact hasc.le

theorem replace_append (m : Validator) (l₁ l₂ : List Validator) :
    replace m (l₁ ++ l₂) = replace m l₁ ++ replace m l₂ :=
  map_append

theorem replace_of_forall_ne {m : Validator} {vals : List Validator}
    (h : ∀ v ∈ vals, v.address ≠ m.address) (p : ℤ) : replace (m.withPriority p) vals = vals :=
  (map_congr_left fun v hv => if_neg (h v hv)).trans (map_id vals)

/-- Only the next of the cohort pays: when the turn is over, all are as low as it is. -/
theorem member_pay (hT : T ≤ c.level) {i : ℕ} (hi : i < c.size) :
    (pay T c).member addr T K i = (c.member addr T K i).withPriority
      ((c.member addr T K i).proposerPriority - if i = c.paid then (T : ℤ) else 0) := by
  rw [pay_eq]
  split <;> simp only [member, Validator.withPriority] <;> congr 1 <;> split_ifs <;> omega

/-- The next of the cohort pays: that is to replace it by itself with the total power less. -/
theorem replace_validators (hT : T ≤ c.level) (hc : (addresses (c.validators addr T K)).Nodup)
    (hpaid : c.paid < c.size) :
    replace ((c.member addr T K c.paid).withPriority
      ((c.member addr T K c.paid).proposerPriority - T)) (c.validators addr T K) =
      (pay T c).validators addr T K := by
  have hmap : addresses (c.validators addr T K) =
      (range c.size).map fun i => addr (c.base + i) := map_map
  have hsize : (pay T c).size = c.size := by
    rw [pay_eq]
    split <;> rfl
  rw [Validators.replace, validators, map_map, validators, hsize]
  refine map_congr_left fun i hi => ?_
  show (if addr (c.base + i) = addr (c.base + c.paid) then _ else _) = _
  rw [member_pay hT (mem_range.mp hi)]
  by_cases hip : i = c.paid
  · rw [if_pos (hip ▸ rfl), if_pos hip, hip]
  · have hne : addr (c.base + i) ≠ addr (c.base + c.paid) := fun h =>
      hip (inj_on_of_nodup_map (hmap ▸ hc) hi (mem_range.mpr hpaid) h)
    rw [if_neg hne, if_neg hip, sub_zero]
    rfl

theorem mem_validators_paid (hpaid : c.paid < c.size) :
    c.member addr T K c.paid ∈ c.validators addr T K :=
  mem_map_of_mem (mem_range.mpr hpaid)

theorem within_members (h : ∀ d ∈ cs, d.level ≤ H) :
    Within (-(T : ℤ) - K) (H - K) (members addr T K cs) := by
  intro v hv
  obtain ⟨d, hd, i, -, rfl⟩ := mem_members.mp hv
  refine ⟨le_member d i, (member_le d i).trans ?_⟩
  have := h d hd
  omega

section Highest

variable {l₁ l₂ : List Cohort}
  (hasc : Ascending (members addr T K l₁ ++ (c.validators addr T K ++ members addr T K l₂)))

include hasc

/-- The first of the highest cohorts has the validator preferred to all: the cohorts before are
lower, and those after have higher addresses. -/
theorem preferred_members (hT : 0 < T) (hl₁ : ∀ d ∈ l₁, d.level < c.level)
    (hl₂ : ∀ d ∈ l₂, d.level ≤ c.level) (hpaid : c.paid < c.size) {v : Validator}
    (hv : v ∈ members addr T K l₁ ++ (c.validators addr T K ++ members addr T K l₂)) :
    Preferred (c.member addr T K c.paid) v := by
  obtain ⟨-, hasc₂, -⟩ := pairwise_append.mp hasc
  obtain ⟨hascc, -, hlt₂⟩ := pairwise_append.mp hasc₂
  rcases mem_append.mp hv with hv | hv
  · obtain ⟨d, hd, i, -, rfl⟩ := mem_members.mp hv
    left
    rw [member_paid]
    have h₁ := hl₁ d hd
    have h₂ := @member_le addr T K d i
    omega
  rcases mem_append.mp hv with hv | hv
  · obtain ⟨i, hi, rfl⟩ := mem_map.mp hv
    exact preferred_member hT hascc hpaid (mem_range.mp hi)
  · have haddr := hlt₂ _ (mem_validators_paid hpaid) v hv
    obtain ⟨d, hd, i, -, rfl⟩ := mem_members.mp hv
    have h₁ := hl₂ d hd
    have h₂ := @member_le addr T K d i
    rcases lt_or_eq_of_le (h₂.trans (by omega : (d.level : ℤ) - K ≤ c.level - K)) with h | h
    · exact .inl (by rw [member_paid]; exact h)
    · exact .inr ⟨by rw [member_paid]; exact h, haddr.le⟩

theorem replace_members (hT : T ≤ c.level) (hpaid : c.paid < c.size) :
    replace ((c.member addr T K c.paid).withPriority
        ((c.member addr T K c.paid).proposerPriority - T))
      (members addr T K l₁ ++ (c.validators addr T K ++ members addr T K l₂)) =
      members addr T K (l₁ ++ pay T c :: l₂) := by
  obtain ⟨-, hasc₂, hlt₁⟩ := pairwise_append.mp hasc
  obtain ⟨hascc, -, hlt₂⟩ := pairwise_append.mp hasc₂
  have hm := @mem_validators_paid addr T K c hpaid
  have h₁ : ∀ v ∈ members addr T K l₁, v.address ≠ (c.member addr T K c.paid).address :=
    fun v hv => (hlt₁ v hv _ (mem_append_left _ hm)).ne
  have h₂ : ∀ v ∈ members addr T K l₂, v.address ≠ (c.member addr T K c.paid).address :=
    fun v hv => (hlt₂ _ hm v hv).ne'
  rw [replace_append, replace_append, replace_validators hT (Ascending.nodup hascc) hpaid,
    replace_of_forall_ne h₁, replace_of_forall_ne h₂, members_append, members_cons]

end Highest

section

variable (hT : 0 < T) (hasc : Ascending (members addr T K cs))
  (hpos : ∀ v ∈ members addr T K cs, 0 < v.votingPower) (hsum : powerSum (members addr T K cs) = T)
  (hlow : (2 * T + K : ℤ) ≤ maxInt64) (hhigh : (H + T : ℤ) ≤ maxInt64 + K)

include hT hasc hpos hsum hlow hhigh

/-- **One election of cohorts.** The first of the highest cohorts is elected, and of that one the
first who did not pay yet. -/
theorem incrementProposerPriority_members (h : advance T H cs = some cs') :
    ∃ m, incrementProposerPriority T (members addr T K cs) = .ok (members addr T K cs', m) ∧
      (members addr T K cs').map Validator.shape = (members addr T K cs).map Validator.shape := by
  obtain ⟨l₁, c, l₂, hcs, rfl, hl₁, hl₂, hH, hTc, hpaid⟩ := advance_eq_some h
  have hraise : Validators.raise (members addr T K cs) =
      members addr T K l₁ ++ (c.validators addr T K ++ members addr T K l₂) := by
    rw [raise_members, hcs, members_append, members_cons]
  have hasc' : Ascending (Validators.raise (members addr T K cs)) := by
    rw [ascending_iff, addresses_of_shape (shape_raise _)]
    exact ascending_iff.mp hasc
  have hm : c.member addr T K c.paid ∈ Validators.raise (members addr T K cs) := by
    rw [hraise]
    exact mem_append_right _ (mem_append_left _ (mem_validators_paid hpaid))
  have hlevel : ∀ d ∈ cs, d.level ≤ H := by
    intro d hd
    have hmem : d.raise ∈ l₁ ++ c :: l₂ := hcs ▸ mem_map_of_mem hd
    have hle : d.level ≤ d.raise.level := Nat.le_add_right _ _
    rcases mem_append.mp hmem with hmem | hmem
    · exact hle.trans ((hl₁ _ hmem).le.trans hH)
    · rcases mem_cons.mp hmem with hmem | hmem
      · exact hle.trans (hmem ▸ hH)
      · exact hle.trans ((hl₂ _ hmem).trans hH)
  have hne : members addr T K cs ≠ [] := by
    intro hnil
    rw [hnil] at hm
    exact absurd hm not_mem_nil
  have hmin := minInt64_eq
  have hmax := maxInt64_eq
  obtain ⟨-, m, hmr, hmp, heq⟩ := incrementProposerPriority_spec hne hasc.nodup hpos
    (within_members hlevel) (by omega) (by omega)
  -- there is only one that is preferred to all
  have hmm : m = c.member addr T K c.paid := by
    have haddr : m.address = (c.member addr T K c.paid).address := Preferred.address_eq (hmp _ hm)
      (preferred_members (hraise ▸ hasc') hT hl₁ hl₂ hpaid (hraise ▸ hmr))
    have h₁ := getByAddress_of_mem hasc'.nodup hmr
    rw [haddr, getByAddress_of_mem hasc'.nodup hm] at h₁
    exact (Option.some.inj h₁).symm
  have hshape := shape_replace hasc'.nodup hm
    ((c.member addr T K c.paid).proposerPriority - T)
  rw [shape_raise, hraise, replace_members (hraise ▸ hasc') hTc hpaid] at hshape
  rw [hsum, hmm, hraise, replace_members (hraise ▸ hasc') hTc hpaid] at heq
  exact ⟨_, heq, hshape⟩

/-- **Many elections of cohorts.** -/
theorem incrementTimes_members {n : ℕ} (h : advanceTimes T H n cs = some cs') (p : Option Validator) :
    ∃ p', incrementTimes T n (members addr T K cs) p = .ok (members addr T K cs', p') := by
  induction n generalizing cs p with
  | zero =>
    cases h
    exact ⟨p, rfl⟩
  | succ n ih =>
    unfold advanceTimes at h
    split at h
    · cases h
    · rename_i cs₁ hone
      obtain ⟨m, hm, hshape⟩ :=
        incrementProposerPriority_members hT hasc hpos hsum hlow hhigh hone
      have hasc₁ : Ascending (members addr T K cs₁) := by
        rw [ascending_iff, addresses_of_shape hshape]
        exact ascending_iff.mp hasc
      obtain ⟨p', hp'⟩ := ih hasc₁ (power_of_shape hshape hpos)
        ((powerSum_of_shape hshape).trans hsum) h (some m)
      refine ⟨p', ?_⟩
      rw [incrementTimes, hm]
      exact hp'

end

end Cohort

end CometBFT.Types
