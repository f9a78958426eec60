import CometBFT.Types.ValidatorSet

/-!
# Block ids

The model of `BlockID` and `PartSetHeader` (`types/block.go`, `types/part_set.go`). A vote set keeps
its votes under `BlockID.Key()`, the hash followed by the protobuf encoding of the part set header.

## Main results

* `BlockID.key_injOn` — the ids of well-formed votes have different keys
* `BlockID.eq_of_key_eq` — and no other id that can be signed has one of these keys
-/

namespace CometBFT.Types

open List

/-- `tmhash.Size`. -/
def hashSize : ℕ := 32

structure PartSetHeader where
  total : UInt32 := 0
  hash : Bytes := []
deriving DecidableEq, Repr

structure BlockID where
  hash : Bytes := []
  partSetHeader : PartSetHeader := {}
deriving DecidableEq, Repr

def PartSetHeader.isZero (psh : PartSetHeader) : Bool := psh.total = 0 ∧ psh.hash = []

def PartSetHeader.equals (psh other : PartSetHeader) : Bool :=
  psh.total = other.total ∧ psh.hash = other.hash

/-- `ValidateHash`. -/
def validateHash (hash : Bytes) : Bool := hash = [] ∨ hash.length = hashSize

/-- `PartSetHeader.ValidateBasic`. -/
def PartSetHeader.validateBasic (psh : PartSetHeader) : Bool := validateHash psh.hash

namespace BlockID

/-- `BlockID.ValidateBasic`. -/
def validateBasic (blockID : BlockID) : Bool :=
  validateHash blockID.hash ∧ validateHash blockID.partSetHeader.hash

/-- `BlockID.Equals`. -/
def equals (blockID other : BlockID) : Bool :=
  blockID.hash = other.hash ∧ blockID.partSetHeader.equals other.partSetHeader

def isNil (blockID : BlockID) : Bool := blockID.hash = [] ∧ blockID.partSetHeader.isZero

def isComplete (blockID : BlockID) : Bool :=
  blockID.hash.length = hashSize ∧ 0 < blockID.partSetHeader.total ∧
    blockID.partSetHeader.hash.length = hashSize

end BlockID

/-! ### Keys -/

/-- The protobuf encoding of a number that takes at most `fuel` groups of seven bits. -/
def encodeVarint : ℕ → ℕ → Bytes
  | 0, _ => []
  | fuel + 1, v =>
    if v < 128 then [UInt8.ofNat v]
    else UInt8.ofNat (v % 128 + 128) :: encodeVarint fuel (v / 128)

/-- The protobuf encoding of a part set header; a field with its default value is left out. -/
def PartSetHeader.marshal (psh : PartSetHeader) : Bytes :=
  (if psh.total = 0 then [] else 0x08 :: encodeVarint 10 psh.total.toNat) ++
    (if psh.hash = [] then [] else 0x12 :: (encodeVarint 10 psh.hash.length ++ psh.hash))

def BlockID.key (blockID : BlockID) : Bytes := blockID.hash ++ blockID.partSetHeader.marshal

/-- The first byte says whether more follow. -/
theorem encodeVarint_succ (fuel v : ℕ) :
    ∃ b rest, encodeVarint (fuel + 1) v = b :: rest ∧
      (b.toNat < 128 ∧ b.toNat = v ∧ rest = [] ∨
        128 ≤ v ∧ b.toNat = v % 128 + 128 ∧ rest = encodeVarint fuel (v / 128)) := by
  rw [encodeVarint]
  split
  · rename_i hv
    have hb : (UInt8.ofNat v).toNat = v := UInt8.toNat_ofNat_of_lt' (show v < 256 by omega)
    exact ⟨_, _, rfl, .inl ⟨by omega, hb, rfl⟩⟩
  · have hb : (UInt8.ofNat (v % 128 + 128)).toNat = v % 128 + 128 :=
      UInt8.toNat_ofNat_of_lt' (show v % 128 + 128 < 256 by omega)
    exact ⟨_, _, rfl, .inr ⟨by omega, hb, rfl⟩⟩

/-- No encoding is the beginning of another one. -/
theorem encodeVarint_append_inj {fuel fuel' v v' : ℕ} {t t' : Bytes} (hv : v < 128 ^ (fuel + 1))
    (hv' : v' < 128 ^ (fuel' + 1))
    (h : encodeVarint (fuel + 1) v ++ t = encodeVarint (fuel' + 1) v' ++ t') : v = v' ∧ t = t' := by
  induction v using Nat.strong_induction_on generalizing fuel fuel' v' with
  | _ v ih =>
    obtain ⟨b, rest, heq, hb⟩ := encodeVarint_succ fuel v
    obtain ⟨b', rest', heq', hb'⟩ := encodeVarint_succ fuel' v'
    rw [heq, heq'] at h
    obtain ⟨rfl, htail⟩ := cons.inj h
    rcases hb with ⟨hlt, hval, rfl⟩ | ⟨hge, hval, rfl⟩
    · rcases hb' with ⟨-, hval', rfl⟩ | ⟨-, hval', -⟩
      · exact ⟨by omega, htail⟩
      · omega
    · rcases hb' with ⟨hlt', -, -⟩ | ⟨hge', hval', rfl⟩
      · omega
      · cases fuel with
        | zero => omega
        | succ fuel =>
          cases fuel' with
          | zero => omega
          | succ fuel' =>
            rw [pow_succ] at hv hv'
            obtain ⟨hdiv, ht⟩ := ih (v / 128) (by omega) (Nat.div_lt_of_lt_mul (by omega))
              (Nat.div_lt_of_lt_mul (by omega)) htail
            exact ⟨by omega, ht⟩

theorem encodeVarint_inj {fuel v v' : ℕ} (hv : v < 128 ^ (fuel + 1)) (hv' : v' < 128 ^ (fuel + 1))
    (h : encodeVarint (fuel + 1) v = encodeVarint (fuel + 1) v') : v = v' :=
  (encodeVarint_append_inj hv hv' (congrArg (· ++ []) h)).1

namespace BlockID

/-- The ids that `Vote.ValidateBasic` lets through. -/
def WellFormed (blockID : BlockID) : Prop := blockID.isNil ∨ blockID.isComplete

instance (blockID : BlockID) : Decidable blockID.WellFormed :=
  inferInstanceAs (Decidable (_ ∨ _))

theorem equals_iff {a b : BlockID} : a.equals b = true ↔ a = b := by
  obtain ⟨hash, total, pshHash⟩ := a
  obtain ⟨hash', total', pshHash'⟩ := b
  simp [equals, PartSetHeader.equals]

theorem isNil_iff {blockID : BlockID} : blockID.isNil = true ↔ blockID = {} := by
  obtain ⟨hash, total, pshHash⟩ := blockID
  simp [isNil, PartSetHeader.isZero]

theorem key_of_isComplete {blockID : BlockID} (h : blockID.isComplete = true) :
    blockID.key = blockID.hash ++ (0x08 :: encodeVarint 10 blockID.partSetHeader.total.toNat ++
      (0x12 :: 0x20 :: blockID.partSetHeader.hash)) := by
  obtain ⟨-, htotal, hlen⟩ := of_decide_eq_true h
  have hhash : blockID.partSetHeader.hash ≠ [] := by
    rintro hnil
    rw [hnil] at hlen
    cases hlen
  have hne : blockID.partSetHeader.total ≠ 0 := fun h0 => absurd htotal (by rw [h0]; decide)
  unfold key PartSetHeader.marshal
  rw [if_neg hne, if_neg hhash, hlen]
  rfl

/-- **Different keys for different ids**: the key of a complete id holds its two hashes at fixed
distances from its ends, and the key of the nil id is empty. -/
theorem key_injOn : Set.InjOn key {blockID | blockID.WellFormed} := by
  rintro a ha b hb h
  have hnil : ∀ {c : BlockID}, c.isComplete = true → c.key ≠ [] := by
    intro c hc hkey
    rw [key_of_isComplete hc] at hkey
    simp at hkey
  rcases ha with ha | ha
  · obtain rfl := isNil_iff.mp ha
    rcases hb with hb | hb
    · exact (isNil_iff.mp hb).symm
    · exact absurd h.symm (hnil hb)
  · rcases hb with hb | hb
    · obtain rfl := isNil_iff.mp hb
      exact absurd h (hnil ha)
    · rw [key_of_isComplete ha, key_of_isComplete hb] at h
      obtain ⟨hahash, -, hapsh⟩ := of_decide_eq_true ha
      obtain ⟨hbhash, -, hbpsh⟩ := of_decide_eq_true hb
      obtain ⟨hhash, h⟩ := append_inj h (hahash.trans hbhash.symm)
      have hlen : (0x12 :: 0x20 :: a.partSetHeader.hash).length =
          (0x12 :: 0x20 :: b.partSetHeader.hash).length := by
        rw [length_cons, length_cons, length_cons, length_cons, hapsh, hbpsh]
      obtain ⟨htotal, h⟩ := append_inj' h hlen
      have hlt : ∀ total : UInt32, total.toNat < 128 ^ 10 := fun total =>
        total.toNat_lt.trans (by decide)
      have htotal := UInt32.toNat_inj.mp
        (encodeVarint_inj (hlt _) (hlt _) (cons.inj htotal).2)
      have hpsh := (cons.inj (cons.inj h).2).2
      obtain ⟨ahash, atotal, apsh⟩ := a
      obtain ⟨bhash, btotal, bpsh⟩ := b
      cases hhash
      cases htotal
      cases hpsh
      rfl

theorem length_encodeVarint_le {fuel v k : ℕ} (hk : v < 128 ^ (k + 1)) :
    (encodeVarint fuel v).length ≤ k + 1 := by
  induction fuel generalizing v k with
  | zero => exact Nat.zero_le _
  | succ fuel ih =>
    obtain ⟨b, rest, heq, ⟨-, -, rfl⟩ | ⟨hge, -, rfl⟩⟩ := encodeVarint_succ fuel v
    · rw [heq, length_singleton]
      omega
    · rw [heq, length_cons]
      cases k with
      | zero => omega
      | succ k =>
        have := @ih (v / 128) k (Nat.div_lt_of_lt_mul (by rw [pow_succ] at hk; omega))
        omega

/-- A hash takes 32 bytes, or 34 after its tag, and the total two to six; each may be left out. -/
theorem length_key {c : BlockID} (hc : c.validateBasic = true) :
    ∃ m n k, c.key.length = m + (n + k) ∧
      (c.hash = [] ∧ m = 0 ∨ c.hash.length = hashSize ∧ m = 32) ∧
      (c.partSetHeader.total = 0 ∧ n = 0 ∨ 0 < c.partSetHeader.total ∧ 2 ≤ n ∧ n ≤ 6) ∧
      (c.partSetHeader.hash = [] ∧ k = 0 ∨ c.partSetHeader.hash.length = hashSize ∧ k = 34) := by
  obtain ⟨hhash, hpsh⟩ := of_decide_eq_true hc
  refine ⟨_, _, _, by rw [key, PartSetHeader.marshal, length_append, length_append], ?_,
    ?_, ?_⟩
  · exact (of_decide_eq_true hhash).imp (fun h => ⟨h, congrArg length h⟩) fun h => ⟨h, h⟩
  · split
    · exact .inl ⟨‹_›, rfl⟩
    · obtain ⟨_, _, heq, -⟩ := encodeVarint_succ 9 c.partSetHeader.total.toNat
      have hle := @length_encodeVarint_le 10 c.partSetHeader.total.toNat 4
        (c.partSetHeader.total.toNat_lt.trans (by decide))
      rw [heq, length_cons] at hle
      rw [heq, length_cons, length_cons]
      exact .inr ⟨UInt32.pos_iff_ne_zero.mpr ‹_›, by omega, by omega⟩
  · refine (of_decide_eq_true hpsh).imp (fun h => ⟨h, by rw [if_pos h]; rfl⟩) fun h => ⟨h, ?_⟩
    rw [if_neg fun hnil => absurd h (by rw [hnil]; decide), length_cons, length_append, h]
    rfl

/-- **No other key.** An id that can be signed has hashes of 32 bytes or none, and then only a
complete id has a key as long as that of a complete id. -/
theorem eq_of_key_eq {b c : BlockID} (hb : b.WellFormed) (hc : c.validateBasic = true)
    (h : c.key = b.key) : c = b := by
  refine key_injOn ?_ hb h
  obtain ⟨m, n, k, hlen, hm, hn, hk⟩ := length_key hc
  rw [h] at hlen
  rcases hb with hb | hb
  · -- an empty key is that of the nil id
    obtain rfl := isNil_iff.mp hb
    change 0 = _ at hlen
    exact .inl (decide_eq_true ⟨(hm.resolve_right fun h => by omega).1,
      decide_eq_true ⟨(hn.resolve_right fun h => by omega).1, (hk.resolve_right fun h => by omega).1⟩⟩)
  · obtain ⟨hbhash, -, hbpsh⟩ := of_decide_eq_true hb
    have hsize : hashSize = 32 := rfl
    obtain ⟨_, _, heq, -⟩ := encodeVarint_succ 9 b.partSetHeader.total.toNat
    rw [key_of_isComplete hb, heq] at hlen
    simp only [length_append, length_cons, hbhash, hbpsh] at hlen
    exact .inr (decide_eq_true ⟨(hm.resolve_left fun h => by omega).1,
      (hn.resolve_left fun h => by omega).1, (hk.resolve_left fun h => by omega).1⟩)

end BlockID

end CometBFT.Types
