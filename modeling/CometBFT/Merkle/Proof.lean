import CometBFT.Lib.Except
import CometBFT.Lib.Int64
import CometBFT.Merkle.Tree

/-!
# Merkle proofs

`ProofsFromByteSlices` and `Verify` in `crypto/merkle/proof.go`. A proof has the hashes of a leaf's
aunts, its sibling first and a child of the root last; the index and the total say on which side of
the path each of them stands. A root that is nil and one that is empty are not told apart.

Nothing is assumed of the hash function as a whole: two paths to a root have the same nodes unless
two of the hashes computed on them collide, those of a leaf and of an inner node included.

## Main results

* `Proof.verify_unique` — for a root, an index and a total, one leaf can be proven
* `proofs_complete_and_sound` — the proofs of a list verify, and its root proves no other leaf
-/

namespace CometBFT.Merkle

open List

structure Proof where
  total : ℤ
  index : ℤ
  leafHash : Bytes := []
  aunts : List Bytes := []
deriving DecidableEq, Repr

inductive ProofError where
  | nilRoot
  | negativeTotal
  | negativeIndex
  | leaf (leafHash want : Bytes)
  | root (computedHash want : Bytes)
  | invalidIndex (index total : ℤ)
  | unexpectedInnerHashes
  | expectedInnerHash

variable (sum : Bytes → Bytes)

def computeHashFromAunts (index total : ℤ) (leafHash : Bytes) (innerHashes : List Bytes) :
    Except ProofError Bytes :=
  if total ≤ index ∨ index < 0 ∨ total ≤ 0 then .error (.invalidIndex index total)
  else if total = 1 then
    if innerHashes = [] then .ok leafHash else .error .unexpectedInnerHashes
  else if h : innerHashes = [] then .error .expectedInnerHash
  else
    let aunt := innerHashes.getLast h
    let numLeft : ℤ := getSplitPoint total.toNat
    if index < numLeft then
      (computeHashFromAunts index numLeft leafHash innerHashes.dropLast).map (innerHash sum · aunt)
    else
      (computeHashFromAunts (index - numLeft) (total - numLeft) leafHash innerHashes.dropLast).map
        (innerHash sum aunt)
termination_by innerHashes.length
decreasing_by
  all_goals
    have := length_pos_iff.mpr h
    rw [length_dropLast]
    omega

def Proof.verify (proof : Proof) (rootHash leaf : Bytes) : Except ProofError Unit :=
  if rootHash = [] then .error .nilRoot
  else if proof.total < 0 then .error .negativeTotal
  else if proof.index < 0 then .error .negativeIndex
  else if proof.leafHash ≠ Merkle.leafHash sum leaf then
    .error (.leaf proof.leafHash (Merkle.leafHash sum leaf))
  else
    match computeHashFromAunts sum proof.index proof.total proof.leafHash proof.aunts with
    | .error e => .error e
    | .ok computedHash =>
      if computedHash ≠ rootHash then .error (.root computedHash rootHash) else .ok ()

def addAunt (aunt : Bytes) (trail : Bytes × List Bytes) : Bytes × List Bytes :=
  (trail.1, trail.2 ++ [aunt])

/-- The leaf hashes with their aunts, as `FlattenAunts` collects them, and the root. The nodes of two
trees get the other's root as an aunt. -/
def trailsFromByteSlices : List Bytes → List (Bytes × List Bytes) × Bytes :=
  hashTree ([], emptyHash sum)
    (fun left right => (left.1.map (addAunt right.2) ++ right.1.map (addAunt left.2),
      innerHash sum left.2 right.2))
    fun item => ([(leafHash sum item, [])], leafHash sum item)

def proofsFromByteSlices (items : List Bytes) : Bytes × List Proof :=
  let (trails, root) := trailsFromByteSlices sum items
  (root, trails.mapIdx fun i trail =>
    { total := items.length, index := i, leafHash := trail.1, aunts := trail.2 })

/-! ### Soundness -/

/-- What is hashed. -/
inductive Preimage where
  | leaf (bytes : Bytes)
  | inner (left right : Bytes)
deriving DecidableEq

def Preimage.hash : Preimage → Bytes
  | .leaf bytes => leafHash sum bytes
  | .inner left right => innerHash sum left right

/-- The node above one on the left or on the right. -/
def above (left : Bool) (node aunt : Bytes) : Preimage :=
  bif left then .inner node aunt else .inner aunt node

/-- The aunts lead from a leaf hash to a root, with what is hashed on the way. -/
inductive Climbs (leaf : Bytes) : ℤ → ℤ → List Bytes → Bytes → List Preimage → Prop where
  | leaf : Climbs leaf 0 1 [] leaf []
  | node {index total index' total' : ℤ} {left : Bool} {aunts : List Bytes} {hashed : List Preimage}
      {node aunt : Bytes} (ht : 1 < total)
      (hside : (index', total', left) = let numLeft : ℤ := getSplitPoint total.toNat
        if index < numLeft then (index, numLeft, true)
        else (index - numLeft, total - numLeft, false))
      (h : Climbs leaf index' total' aunts node hashed) :
      Climbs leaf index total (aunts ++ [aunt]) ((above left node aunt).hash sum)
        (above left node aunt :: hashed)

variable {sum} {index total : ℤ} {leaf leaf' root root' : Bytes} {aunts aunts' : List Bytes}
  {hashed hashed' : List Preimage}

theorem climbs_of_ok (h : computeHashFromAunts sum index total leaf aunts = .ok root) :
    ∃ hashed, Climbs sum leaf index total aunts root hashed := by
  fun_induction computeHashFromAunts sum index total leaf aunts generalizing root with
  | case1 | case3 | case4 => cases h
  | case2 index hvalid =>
    obtain rfl : index = 0 := by omega
    cases h
    exact ⟨[], .leaf⟩
  | case5 =>
    rename_i hne _ _ hlt ih
    obtain ⟨node, hnode, rfl⟩ := ok_of_map h
    obtain ⟨hashed, hc⟩ := ih hnode
    rw [← dropLast_append_getLast hne]
    exact ⟨_, hc.node (by omega) (if_pos hlt).symm⟩
  | case6 =>
    rename_i hne _ _ hge ih
    obtain ⟨node, hnode, rfl⟩ := ok_of_map h
    obtain ⟨hashed, hc⟩ := ih hnode
    rw [← dropLast_append_getLast hne]
    exact ⟨_, hc.node (by omega) (if_neg hge).symm⟩

/-- Verifying the proof hashes `x`. -/
def Proof.Hashes (sum : Bytes → Bytes) (proof : Proof) (leaf : Bytes) (x : Preimage) : Prop :=
  x = .leaf leaf ∨ ∃ root hashed,
    Climbs sum proof.leafHash proof.index proof.total proof.aunts root hashed ∧ x ∈ hashed

theorem Proof.of_verify {proof : Proof} (h : proof.verify sum root leaf = .ok ()) :
    proof.leafHash = Merkle.leafHash sum leaf ∧
      ∃ hashed, Climbs sum proof.leafHash proof.index proof.total proof.aunts root hashed := by
  unfold Proof.verify at h
  split_ifs at h with _ _ _ hleaf
  split at h
  · cases h
  · rename_i hroot
    split_ifs at h with hne
    exact ⟨not_not.mp hleaf, climbs_of_ok (not_not.mp hne ▸ hroot)⟩

theorem Climbs.of_one (h : Climbs sum leaf index 1 aunts root hashed) :
    root = leaf ∧ hashed = [] := by
  cases h with
  | leaf => exact ⟨rfl, rfl⟩
  | node ht => omega

/-- From a common root down, the paths have the same nodes. -/
theorem Climbs.unique (h : Climbs sum leaf index total aunts root hashed)
    (h' : Climbs sum leaf' index total aunts' root' hashed') (heq : root = root')
    (hcollision : ∀ x ∈ hashed, ∀ y ∈ hashed', x.hash sum = y.hash sum → x = y) : leaf = leaf' := by
  induction h generalizing aunts' root' hashed' with
  | leaf =>
    cases h' with
    | leaf => exact heq
    | node ht => omega
  | @node _ _ _ _ left _ _ _ _ ht hside h ih =>
    cases h' with
    | leaf => omega
    | node _ hside' h' =>
      cases hside.trans hside'.symm
      have habove := hcollision _ mem_cons_self _ mem_cons_self heq
      exact ih h' (by cases left <;> cases habove <;> rfl)
        fun x hx y hy => hcollision x (mem_cons_of_mem _ hx) y (mem_cons_of_mem _ hy)

/-- **Proofs are sound**: for a root, an index and a total, one leaf can be proven. -/
theorem Proof.verify_unique {proof proof' : Proof} (hindex : proof.index = proof'.index)
    (htotal : proof.total = proof'.total)
    (hcollision : ∀ x y, proof.Hashes sum leaf x → proof'.Hashes sum leaf' y →
      x.hash sum = y.hash sum → x = y)
    (h : proof.verify sum root leaf = .ok ()) (h' : proof'.verify sum root leaf' = .ok ()) :
    leaf = leaf' := by
  obtain ⟨hleaf, hashed, hc⟩ := of_verify h
  obtain ⟨hleaf', hashed', hc'⟩ := of_verify h'
  have hhash : proof.leafHash = proof'.leafHash :=
    hc.unique (hindex ▸ htotal ▸ hc') rfl fun x hx y hy =>
      hcollision x y (.inr ⟨_, _, hc, hx⟩) (.inr ⟨_, _, hc', hy⟩)
  rw [hleaf, hleaf'] at hhash
  exact Preimage.leaf.inj (hcollision _ _ (.inl rfl) (.inl rfl) hhash)

/-! ### Completeness -/

theorem computeHashFromAunts_left {n k : ℕ} {i : ℕ} {node aunt : Bytes} (hk : getSplitPoint n = k)
    (hi : i < k) (hkn : k < n) (h : computeHashFromAunts sum i k leaf aunts = .ok node) :
    computeHashFromAunts sum i n leaf (aunts ++ [aunt]) = .ok (innerHash sum node aunt) := by
  rw [computeHashFromAunts, if_neg (by omega), if_neg (by omega), dif_neg (by simp)]
  simp only [Int.toNat_natCast, hk, Nat.cast_lt, hi, if_true, dropLast_concat, getLast_concat, h]
  rfl

theorem computeHashFromAunts_right {n k i : ℕ} {node aunt : Bytes} (hk : getSplitPoint n = k)
    (hpos : 0 < k) (hi : i < n - k) (h : computeHashFromAunts sum i (n - k : ℕ) leaf aunts = .ok node) :
    computeHashFromAunts sum (k + i : ℕ) n leaf (aunts ++ [aunt]) =
      .ok (innerHash sum aunt node) := by
  rw [computeHashFromAunts, if_neg (by omega), if_neg (by omega), dif_neg (by simp)]
  simp only [Int.toNat_natCast, hk, dropLast_concat, getLast_concat]
  rw [if_neg (by omega), show ((k + i : ℕ) : ℤ) - k = i by omega,
    show (n : ℤ) - k = (n - k : ℕ) by omega, h]
  rfl

/-- The trail of each leaf leads to the root. -/
theorem trails_spec (items : List Bytes) :
    (trailsFromByteSlices sum items).2 = hashFromByteSlices sum items ∧
    (trailsFromByteSlices sum items).1.length = items.length ∧
    ∀ (i : ℕ) trail item, (trailsFromByteSlices sum items).1[i]? = some trail →
      items[i]? = some item → trail.1 = leafHash sum item ∧
      computeHashFromAunts sum i items.length trail.1 trail.2 =
        .ok (hashFromByteSlices sum items) := by
  unfold trailsFromByteSlices hashFromByteSlices
  fun_induction hashTree (emptyHash sum) (innerHash sum) (leafHash sum) items with
  | case1 => simp [hashTree]
  | case2 item =>
    rw [hashTree]
    refine ⟨rfl, rfl, fun i trail item' ht hi => ?_⟩
    obtain ⟨rfl, rfl⟩ : i = 0 ∧ item = item' := by
      simpa [getElem?_eq_some_iff] using hi
    obtain rfl : (leafHash sum item, []) = trail := by simpa using ht
    simp [computeHashFromAunts]
  | case3 a b rest k hleft hright =>
    have htwo : 2 ≤ (a :: b :: rest).length := by simp
    subst k
    generalize a :: b :: rest = l at *
    obtain ⟨j, hk, hpos, hlt, -⟩ := getSplitPoint_spec htwo
    rw [hk] at hleft hright ⊢
    rw [length_take_of_le hlt.le] at hleft
    rw [length_drop] at hright
    obtain ⟨hl, hll, hleft⟩ := hleft
    obtain ⟨hr, hrl, hright⟩ := hright
    rw [hashTree_split htwo, hk, hl, hr]
    refine ⟨rfl, by simp [hll, hrl, hlt.le], fun i trail item ht hi => ?_⟩
    rcases lt_or_ge i (2 ^ j) with hik | hik
    · rw [getElem?_append_left (by simpa [hll] using hik), getElem?_map] at ht
      obtain ⟨t, ht', rfl⟩ := Option.map_eq_some_iff.mp ht
      rw [← getElem?_take_of_lt hik] at hi
      obtain ⟨h₁, h₂⟩ := hleft i t item ht' hi
      exact ⟨h₁, computeHashFromAunts_left hk hik hlt h₂⟩
    · obtain ⟨i, rfl⟩ := Nat.exists_eq_add_of_le hik
      rw [getElem?_append_right (by simp [hll]), length_map, hll, Nat.add_sub_cancel_left,
        getElem?_map] at ht
      obtain ⟨t, ht', rfl⟩ := Option.map_eq_some_iff.mp ht
      rw [← getElem?_drop] at hi
      obtain ⟨h₁, h₂⟩ := hright i t item ht' hi
      have hlen := (List.getElem?_eq_some_iff.mp hi).1
      rw [length_drop] at hlen
      exact ⟨h₁, computeHashFromAunts_right hk hpos hlen h₂⟩

/-- **Merkle proofs are complete and sound.** -/
theorem proofs_complete_and_sound (hne : ∀ x, sum x ≠ []) (items : List Bytes) :
    let root := hashFromByteSlices sum items
    (proofsFromByteSlices sum items).1 = root ∧
    (proofsFromByteSlices sum items).2.length = items.length ∧
    ∀ (i : ℕ) proof item, (proofsFromByteSlices sum items).2[i]? = some proof →
      items[i]? = some item →
      proof.verify sum root item = .ok () ∧
      ∀ (other : Proof) leaf, other.total = items.length → other.index = i →
        (∀ x y, other.Hashes sum leaf x → proof.Hashes sum item y →
          x.hash sum = y.hash sum → x = y) →
        other.verify sum root leaf = .ok () → leaf = item := by
  obtain ⟨hroot, hlength, htrails⟩ := @trails_spec sum items
  refine ⟨hroot, by simp [proofsFromByteSlices, hlength], fun i proof item hp hi => ?_⟩
  rw [proofsFromByteSlices, getElem?_mapIdx] at hp
  obtain ⟨trail, ht, rfl⟩ := Option.map_eq_some_iff.mp hp
  obtain ⟨hleaf, hcompute⟩ := htrails i trail item ht hi
  have hverify : Proof.verify sum ⟨items.length, i, trail.1, trail.2⟩
      (hashFromByteSlices sum items) item = .ok () := by
    have hroot : hashFromByteSlices sum items ≠ [] := by
      unfold hashFromByteSlices hashTree
      split <;> exact hne _
    rw [Proof.verify, if_neg hroot, if_neg (by simp), if_neg (by simp), if_neg (not_not.mpr hleaf)]
    simp only [hcompute]
    simp
  exact ⟨hverify, fun other leaf htotal hindex hcollision h =>
    Proof.verify_unique hindex htotal hcollision h hverify⟩

/-- Whatever the proof of the second of two items proves is that item. -/
theorem proofs_complete_and_sound_two :
    let sum : Bytes → Bytes := (9 :: ·)
    let proof : Proof := ⟨2, 1, [9, 0, 7], [[9, 0, 5]]⟩
    let root := hashFromByteSlices sum [[5], [7]]
    (proofsFromByteSlices sum [[5], [7]]).2[1]? = some proof ∧ proof.verify sum root [7] = .ok () ∧
      ∀ leaf, proof.verify sum root leaf = .ok () → leaf = [7] := by
  intro sum proof root
  have hhashes : ∀ leaf x, proof.Hashes sum leaf x →
      x = .leaf leaf ∨ x = .inner [9, 0, 5] [9, 0, 7] := by
    rintro leaf x (h | ⟨root', hashed, hc, hx⟩)
    · exact .inl h
    · dsimp only [proof] at hc
      generalize haunts : ([[9, 0, 5]] : List Bytes) = aunts at hc
      cases hc with
      | node ht hside hc =>
        obtain ⟨rfl, haunt⟩ := append_inj' (show [] ++ [_] = _ from haunts) rfl
        cases haunt
        cases hside
        obtain ⟨rfl, rfl⟩ := hc.of_one
        exact .inr (mem_singleton.mp hx)
  have hproof : (proofsFromByteSlices sum [[5], [7]]).2[1]? = some proof := by decide +kernel
  obtain ⟨hverify, hunique⟩ :=
    (@proofs_complete_and_sound sum (by simp [sum]) [[5], [7]]).2.2 1 proof [7] hproof rfl
  refine ⟨hproof, hverify, fun leaf => hunique proof leaf rfl rfl fun x y hx hy heq => ?_⟩
  rcases hhashes _ _ hx with rfl | rfl <;> rcases hhashes _ _ hy with rfl | rfl <;>
    simp_all [Preimage.hash, leafHash, innerHash, sum]

end CometBFT.Merkle
