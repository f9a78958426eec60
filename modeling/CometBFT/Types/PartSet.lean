import CometBFT.Merkle.Proof
import CometBFT.Types.Block

/-!
# Part sets

The model of `types/part_set.go`. A block is sent in parts, each with a proof that it belongs to the
Merkle root in the part set header.

## Main results

* `PartSet.Counted.parts_of_isComplete` — a complete part set has all its parts
* `PartSet.read_unique` — whoever completes a part set for a header reads the same bytes
-/

namespace CometBFT.Merkle

def maxAunts : ℕ := 100

/-- `Proof.ValidateBasic`. -/
def Proof.validateBasic (proof : Proof) : Bool :=
  0 ≤ proof.total ∧ 0 ≤ proof.index ∧ proof.leafHash.length = Types.hashSize ∧
    proof.aunts.length ≤ maxAunts ∧ ∀ aunt ∈ proof.aunts, aunt.length = Types.hashSize

end CometBFT.Merkle

namespace CometBFT.Types

open Function (update)

open Merkle (Proof)

/-! ### Parts -/

structure Part where
  index : UInt32
  bytes : Bytes
  proof : Proof
deriving DecidableEq, Repr

def blockPartSizeBytes : ℤ := 65536

/-- `Part.ValidateBasic`. -/
def Part.validateBasic (part : Part) : Bool :=
  part.bytes.length ≤ blockPartSizeBytes ∧
    ((part.index.toNat : ℤ) < part.proof.total - 1 → part.bytes.length = blockPartSizeBytes) ∧
    (part.index.toNat : ℤ) = part.proof.index ∧ part.proof.validateBasic

inductive PartSetError where
  | unexpectedIndex
  | invalidProof
deriving DecidableEq, Repr

structure PartSet where
  total : UInt32
  hash : Bytes
  parts : ℕ → Option Part := fun _ => none
  count : ℕ := 0
  byteSize : ℤ := 0

namespace PartSet

def newPartSetFromHeader (header : PartSetHeader) : PartSet :=
  { total := header.total, hash := header.hash }

variable (ps : PartSet)

def header : PartSetHeader := ⟨ps.total, ps.hash⟩

def isComplete : Bool := ps.count = ps.total.toNat

/-- Whether the part was added, or why not. -/
def addPart (sum : Bytes → Bytes) (part : Part) : PartSet × Bool × Option PartSetError :=
  if ps.total ≤ part.index then (ps, false, some .unexpectedIndex)
  else if (ps.parts part.index.toNat).isSome then (ps, false, none)
  else if part.proof.total ≠ ps.total.toNat then (ps, false, some .invalidProof)
  else match part.proof.verify sum ps.hash part.bytes with
    | .error _ => (ps, false, some .invalidProof)
    | .ok _ =>
      ({ ps with
        parts := update ps.parts part.index.toNat (some part)
        count := ps.count + 1
        byteSize := ps.byteSize + part.bytes.length }, true, none)

/-- The bytes of the parts, one after the other. -/
def contents : Bytes :=
  (List.range ps.total.toNat).flatMap fun i => ((ps.parts i).map Part.bytes).getD []

/-- What is read from `GetReader`, which looks at the first part. -/
def read : Except Failure Bytes :=
  if ps.isComplete = false then .error (.panic "Cannot GetReader() on incomplete PartSet")
  else if ps.total = 0 then .error (.panic "index out of range")
  else .ok ps.contents

/-! ### Counting parts -/

/-- The parts are counted. -/
def Counted : Prop :=
  ps.count = ((Finset.range ps.total.toNat).filter fun i => (ps.parts i).isSome = true).card

variable {ps ps' : PartSet} {sum : Bytes → Bytes} {part : Part} {header : PartSetHeader}

/-- **A complete part set** has all its parts. -/
theorem Counted.parts_of_isComplete (hc : ps.Counted) (h : ps.isComplete = true) {i : ℕ}
    (hi : i < ps.total.toNat) : (ps.parts i).isSome = true := by
  have hcount : ps.count = ps.total.toNat := of_decide_eq_true h
  rw [hc] at hcount
  have hall := Finset.filter_card_eq (hcount.trans (Finset.card_range _).symm)
  exact hall i (Finset.mem_range.mpr hi)

/-! ### Receiving parts -/

section

variable (sum header)

/-- Parts that pass `ValidateBasic` have been added to a new part set. -/
def Received : PartSet → Prop :=
  Steps (fun ps part => some (ps.addPart sum part).1) (fun _ part => part.validateBasic = true)
    (newPartSetFromHeader header)

/-- The part has a proof for its index. -/
structure Part.Proven (i : ℕ) (part : Part) : Prop where
  index : part.proof.index = i
  total : part.proof.total = header.total.toNat
  verify : part.proof.verify sum header.hash part.bytes = .ok ()

/-- Each part is proven. -/
structure Proven (ps : PartSet) : Prop where
  of : ps.header = header
  counted : ps.Counted
  parts : ∀ i part, ps.parts i = some part → Part.Proven sum header i part

/-- Verifying one of the parts hashes `x`. -/
def Hashes (ps : PartSet) (x : Merkle.Preimage) : Prop :=
  ∃ i part, ps.parts i = some part ∧ part.proof.Hashes sum part.bytes x

end

/-- **One call of `AddPart`**, with a part that passes `ValidateBasic`. -/
theorem Proven.addPart (h : Proven sum header ps) (hvalid : part.validateBasic = true) :
    Proven sum header (ps.addPart sum part).1 := by
  obtain ⟨rfl, hcounted, hparts⟩ := h
  obtain ⟨-, -, hindex, -⟩ := of_decide_eq_true hvalid
  unfold PartSet.addPart
  split_ifs with hle hsome htotal
  case neg =>
    split
    · exact ⟨rfl, hcounted, hparts⟩
    have hlt := UInt32.lt_iff_toNat_lt.mp (UInt32.not_le.mp hle)
    refine ⟨rfl, ?_, fun i p hp => ?_⟩
    · have hinsert : ((Finset.range ps.total.toNat).filter fun i =>
          (update ps.parts part.index.toNat (some part) i).isSome = true) =
            insert part.index.toNat ((Finset.range ps.total.toNat).filter fun i =>
              (ps.parts i).isSome = true) := by
        ext i
        by_cases hi : i = part.index.toNat
        · simp [hi, hlt]
        · simp [hi]
      show ps.count + 1 = _
      rw [hinsert, Finset.card_insert_of_notMem (by simpa using fun _ => hsome), ← hcounted]
    · by_cases hi : i = part.index.toNat
      · subst hi
        obtain rfl : part = p := by simpa using hp
        exact ⟨hindex.symm, not_not.mp htotal, ‹_›⟩
      · exact hparts i p (by simpa [hi] using hp)
  all_goals exact ⟨rfl, hcounted, hparts⟩

theorem Received.proven (h : Received sum header ps) : Proven sum header ps := by
  refine h.invariant ⟨rfl, by simp [Counted, newPartSetFromHeader], nofun⟩ ?_
  rintro ps part _ hps hok ⟨⟩
  exact hps.addPart hok

/-- **Whoever completes a part set** for a header reads the same bytes, whichever parts were sent and
in which order, if no two hashes computed for them collide. -/
theorem read_unique (h : Received sum header ps) (h' : Received sum header ps')
    (hc : ps.isComplete = true) (hc' : ps'.isComplete = true)
    (hcollision : ∀ x y, ps'.Hashes sum x → ps.Hashes sum y →
      x.hash sum = y.hash sum → x = y) :
    ps'.read = ps.read := by
  obtain ⟨hof, hcounted, hparts⟩ := h.proven
  obtain ⟨hof', hcounted', hparts'⟩ := h'.proven
  have htotal : ps'.total = ps.total := congrArg PartSetHeader.total (hof'.trans hof.symm)
  have hcontents : ps'.contents = ps.contents := by
    unfold contents
    rw [htotal]
    refine List.flatMap_congr fun i hi => ?_
    have hlt := List.mem_range.mp hi
    obtain ⟨p, hp⟩ := Option.isSome_iff_exists.mp (hcounted.parts_of_isComplete hc hlt)
    obtain ⟨p', hp'⟩ :=
      Option.isSome_iff_exists.mp (hcounted'.parts_of_isComplete hc' (htotal ▸ hlt))
    have hv := hparts i p hp
    have hv' := hparts' i p' hp'
    rw [hp, hp']
    exact Proof.verify_unique (hv'.index.trans hv.index.symm) (hv'.total.trans hv.total.symm)
      (fun x y hx hy => hcollision x y ⟨i, p', hp', hx⟩ ⟨i, p, hp, hy⟩)
      hv'.verify hv.verify
  unfold read
  rw [hc, hc', htotal, hcontents]

/-- A part with a wrong proof comes first at one of two nodes. -/
theorem read_unique_one :
    let sum : Bytes → Bytes := (List.replicate 30 9 ++ ·)
    let part : Part := ⟨0, [7], { total := 1, index := 0, leafHash := sum [0, 7] }⟩
    let wrong : Part := { part with bytes := [8] }
    let new := newPartSetFromHeader ⟨1, sum [0, 7]⟩
    let ps := (new.addPart sum part).1
    let ps' := ((new.addPart sum wrong).1.addPart sum part).1
    (new.addPart sum wrong).2.2 = some .invalidProof ∧ ps.read = .ok [7] ∧ ps'.read = ps.read := by
  intro sum part wrong new ps ps'
  have h : Received sum ⟨1, sum [0, 7]⟩ ps := .tail (a := part) (.refl _) (by decide) rfl
  have h' : Received sum ⟨1, sum [0, 7]⟩ ps' :=
    .tail (a := part) (.tail (a := wrong) (.refl _) (by decide) rfl) (by decide) rfl
  -- The leaf hash is the root.
  have hone : ∀ q x, Received sum ⟨1, sum [0, 7]⟩ q → q.Hashes sum x → x = .leaf [7] := by
    rintro q x hq ⟨i, p, hp, hx⟩
    have hv := hq.proven.parts i p hp
    obtain ⟨hleaf, _, hc⟩ := Proof.of_verify hv.verify
    rw [hv.total] at hc
    have hbytes : p.bytes = [7] := by
      simpa [Merkle.leafHash, sum] using (hc.of_one.1.trans hleaf).symm
    rcases hx with rfl | ⟨_, _, hc', hx⟩
    · rw [hbytes]
    · rw [hv.total] at hc'
      rw [hc'.of_one.2] at hx
      cases hx
  exact ⟨by decide, by decide +kernel, read_unique h h' (by decide +kernel) (by decide +kernel)
    fun x y hx hy _ => (hone _ x h' hx).trans (hone _ y h hy).symm⟩

end PartSet

end CometBFT.Types
