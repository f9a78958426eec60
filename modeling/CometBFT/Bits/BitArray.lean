import CometBFT.Lib.Except
import CometBFT.Lib.Int64

/-!
# Bit arrays

The model of `internal/bits/bit_array.go`: a number of bits, and the words that hold them. Both are
fields that anyone can set, and `FromProto` sets them to what a peer has sent. The functions of the
file index words by bit positions, and stop the program where there is no such word.

A `*BitArray` that can be nil is an `Option`. The random source of `PickRandom` is an argument: it
chooses among the bits that are set. What the mutex of an array is for does not show here, since
each function holds it from beginning to end.

## Main definitions

* `WellFormed` — as many words as the bits need
* `Nonempty` — as `NewBitArray` makes them: well-formed, with at least one bit

## Main results

* `Nonempty.setIndex`, `WellFormed.or`, `WellFormed.sub`, `Nonempty.pickRandom` — on such arrays nothing
  panics
-/

namespace CometBFT.Bits

open List

abbrev Word := BitVec 64

structure BitArray where
  bits : ℤ := 0
  elems : List Word := []
deriving DecidableEq, Repr

/-- The number of words that `make` is asked for. -/
def numElems (bits : ℤ) : ℤ := (bits + 63).tdiv 64

/-- `make([]uint64, n)`. -/
def makeElems (n : ℤ) : Except RuntimeError (List Word) :=
  if n < 0 then .error .makesliceLen else .ok (replicate n.toNat 0)

/-- `elems[i]`. -/
def wordAt (elems : List Word) (i : ℤ) : Except RuntimeError Word :=
  if i < 0 then .error .indexOutOfRange
  else match elems[i.toNat]? with
    | some w => .ok w
    | none => .error .indexOutOfRange

/-- `uint64(1) << uint(j)`. -/
def bitMask (j : ℤ) : Word := if j < 0 then 0 else 1#64 <<< j.toNat

def newBitArray (bits : ℤ) : Option BitArray :=
  if bits ≤ 0 then none else some ⟨bits, replicate (numElems bits).toNat 0⟩

namespace BitArray

/-- `FromProto` on a new array. -/
def fromProto : Option BitArray → BitArray
  | none => {}
  | some pb => pb

/-- The array after `SetIndex`; whether there is such a bit is not used by any caller. -/
def setIndex (bA : BitArray) (i : ℤ) (v : Bool) : Except RuntimeError BitArray :=
  if bA.bits ≤ i then .ok bA
  else (wordAt bA.elems (i.tdiv 64)).map fun w =>
    let w := if v then w ||| bitMask (i.tmod 64) else w &&& ~~~bitMask (i.tmod 64)
    { bA with elems := bA.elems.set (i.tdiv 64).toNat w }

/-- `copy(c, elems)`. -/
def copyWords (c elems : List Word) : List Word := elems.take c.length ++ c.drop elems.length

def copyBits (bA : BitArray) (bits : ℤ) : Except RuntimeError BitArray :=
  (makeElems (numElems bits)).map fun c => ⟨bits, copyWords c bA.elems⟩

/-- `c[i] = f(c[i], o[i])` for `n` words. -/
def combine (f : Word → Word → Word) (n : ℕ) (c o : List Word) : Except RuntimeError (List Word) :=
  if c.length < n ∨ o.length < n then .error .indexOutOfRange
  else .ok (zipWith f (c.take n) (o.take n) ++ c.drop n)

/-- The words that both arrays have, combined in a copy with the given number of bits. -/
def combineInto (bits : ℤ) (f : Word → Word → Word) (bA o : BitArray) :
    Except RuntimeError BitArray := do
  let c ← bA.copyBits bits
  let elems ← combine f (min bA.elems.length o.elems.length) c.elems o.elems
  return { c with elems }

def or : Option BitArray → Option BitArray → Except RuntimeError (Option BitArray)
  | none, o => .ok o
  | some bA, none => .ok (some bA)
  | some bA, some o => some <$> combineInto (max bA.bits o.bits) (· ||| ·) bA o

def sub : Option BitArray → Option BitArray → Except RuntimeError (Option BitArray)
  | some bA, some o => some <$> combineInto bA.bits (fun a b => a &&& ~~~b) bA o
  | _, _ => .ok none

def not (bA : BitArray) : BitArray := { bA with elems := bA.elems.map (~~~·) }

/-- `Update`, on arrays that are not nil. -/
def update (bA o : BitArray) : BitArray := { bA with elems := copyWords bA.elems o.elems }

/-! ### Picking a bit -/

/-- `bits.OnesCount64`. -/
def onesCount (w : Word) : ℕ := (range 64).countP w.getLsbD

def getNumTrueIndices (bA : BitArray) : Except RuntimeError ℕ :=
  let numElems : ℤ := bA.elems.length
  let count := ((bA.elems.take (numElems - 1).toNat).map onesCount).sum
  let numFinalBits := bA.bits - (numElems - 1) * 64
  if numFinalBits ≤ 0 then .ok count
  else (wordAt bA.elems (numElems - 1)).map fun last =>
    count + (range numFinalBits.toNat).countP fun i : ℕ => last &&& bitMask i ≠ 0

/-- The loop over the bits of a word: where the count reaches `n`, or what it has come to. -/
def scanWord (w : Word) (n : ℕ) : List ℕ → ℕ → ℕ ⊕ ℕ
  | [], count => .inr count
  | j :: js, count =>
    if w.getLsbD j then if count = n then .inl j else scanWord w n js (count + 1)
    else scanWord w n js count

/-- The loop over the words. -/
def nthTrueLoop (n : ℕ) : List Word → ℕ → ℕ → Option ℕ
  | [], _, _ => none
  | w :: ws, i, count =>
    if n ≤ count + onesCount w then
      match scanWord w n (range 64) count with
      | .inl j => some (i * 64 + j)
      | .inr count => nthTrueLoop n ws (i + 1) count
    else nthTrueLoop n ws (i + 1) (count + onesCount w)

/-- `getNthTrueIndex`; there is no index for `-1`. -/
def getNthTrueIndex (bA : BitArray) (n : ℕ) : Option ℕ := nthTrueLoop n bA.elems 0 0

end BitArray

/-- `PickRandom`; the source picks number `r` of the bits that are set. -/
def pickRandom (r : ℕ) : Option BitArray → Except RuntimeError (Option ℕ)
  | none => .ok none
  | some bA => bA.getNumTrueIndices.map fun numTrueIndices =>
    if numTrueIndices = 0 then none else bA.getNthTrueIndex (r % numTrueIndices)

/-! ### Well-formed arrays -/

namespace BitArray

/-- The words of an array are those that its bits need. -/
structure WellFormed (bA : BitArray) : Prop where
  bits : 0 ≤ bA.bits
  elems : bA.elems.length = (bA.bits.toNat + 63) / 64

/-- An array as `NewBitArray` makes it. -/
structure Nonempty (bA : BitArray) : Prop extends bA.WellFormed where
  pos : 0 < bA.bits

variable {bA o : BitArray}

/-- Only the shape of an array counts. -/
theorem Nonempty.of_shape (h : bA.Nonempty) (hbits : o.bits = bA.bits)
    (helems : o.elems.length = bA.elems.length) : o.Nonempty where
  bits := hbits ▸ h.bits
  elems := by rw [helems, hbits, h.elems]
  pos := hbits ▸ h.pos

theorem numElems_eq {bits : ℤ} (h : 0 ≤ bits) : numElems bits = ((bits.toNat + 63) / 64 : ℕ) := by
  rw [numElems, Int.tdiv_eq_ediv_of_nonneg (by omega)]
  omega

theorem nonempty_newBitArray {bits : ℤ} (h : newBitArray bits = some bA) : bA.Nonempty := by
  rw [newBitArray] at h
  split at h
  · cases h
  · rename_i hpos
    cases h
    have hlt : 0 < bits := by omega
    refine ⟨⟨hlt.le, ?_⟩, hlt⟩
    rw [length_replicate, numElems_eq (by omega), Int.toNat_natCast]

/-- A bit below the size has a word. -/
theorem Nonempty.setIndex (h : bA.Nonempty) {i : ℤ} (hi : 0 ≤ i) (v : Bool) :
    ∃ bA', bA.setIndex i v = .ok bA' ∧ bA'.Nonempty := by
  rw [BitArray.setIndex]
  split
  · exact ⟨bA, rfl, h⟩
  · rename_i hlt
    have hdiv : i.tdiv 64 = i / 64 := Int.tdiv_eq_ediv_of_nonneg hi
    have hword : (i.tdiv 64).toNat < bA.elems.length := by
      have := h.elems
      omega
    rw [wordAt, if_neg (by omega), getElem?_eq_getElem hword]
    exact ⟨_, rfl, h.of_shape rfl (length_set ..)⟩

theorem length_copyWords (c elems : List Word) : (copyWords c elems).length = c.length := by
  rw [copyWords, length_append, length_take, length_drop]
  omega

theorem wellFormed_copyBits {bits : ℤ} (h : 0 ≤ bits) (bA : BitArray) :
    ∃ c, bA.copyBits bits = .ok c ∧ c.bits = bits ∧ c.WellFormed := by
  have hn := numElems_eq h
  rw [copyBits, makeElems, if_neg (by omega)]
  refine ⟨_, rfl, rfl, h, ?_⟩
  rw [length_copyWords, length_replicate, hn, Int.toNat_natCast]

/-- A copy that is large enough takes all the words that both arrays have. -/
theorem wellFormed_combineInto {bits : ℤ} {f : Word → Word → Word} (h : bA.WellFormed)
    (ho : o.WellFormed) (hbits : bA.bits ≤ bits ∨ o.bits ≤ bits) (hpos : 0 ≤ bits) :
    ∃ c, combineInto bits f bA o = .ok c ∧ c.bits = bits ∧ c.WellFormed := by
  obtain ⟨c, hc, hcbits, hcwf⟩ := wellFormed_copyBits hpos bA
  have hlen : min bA.elems.length o.elems.length ≤ c.elems.length := by
    have h₁ := h.elems
    have h₂ := ho.elems
    have h₃ := hcwf.elems
    have hb := h.bits
    have hob := ho.bits
    omega
  rw [combineInto, bind_of_ok hc, combine, if_neg (by omega)]
  refine ⟨_, rfl, hcbits, hcwf.bits, ?_⟩
  rw [← hcwf.elems]
  show (zipWith f (take _ c.elems) (take _ o.elems) ++ drop _ c.elems).length = _
  rw [length_append, length_zipWith, length_take, length_take, length_drop]
  omega

theorem WellFormed.or (h : bA.WellFormed) (ho : o.WellFormed) :
    ∃ c, or (some bA) (some o) = .ok (some c) := by
  obtain ⟨c, hc, -⟩ := wellFormed_combineInto (f := (· ||| ·)) h ho (.inl (le_max_left _ _))
    (h.bits.trans (le_max_left _ _))
  exact ⟨c, by rw [BitArray.or, hc]; rfl⟩

theorem WellFormed.sub (h : bA.WellFormed) (ho : o.WellFormed) :
    ∃ c, sub (some bA) (some o) = .ok (some c) ∧ c.bits = bA.bits ∧ c.WellFormed := by
  obtain ⟨c, hc, hbits, hcwf⟩ := wellFormed_combineInto (f := fun a b => a &&& ~~~b) h ho
    (.inl le_rfl) h.bits
  exact ⟨c, by rw [BitArray.sub, hc]; rfl, hbits, hcwf⟩

theorem Nonempty.not (h : bA.Nonempty) : bA.not.Nonempty := h.of_shape rfl (length_map _)

theorem Nonempty.update (h : bA.Nonempty) (o : BitArray) : (bA.update o).Nonempty :=
  h.of_shape rfl (length_copyWords _ _)

/-- There is a last word. -/
theorem Nonempty.pickRandom (h : bA.Nonempty) (r : ℕ) :
    ∃ index, pickRandom r (some bA) = .ok index := by
  have hlast : 0 < bA.elems.length := by
    have := h.elems
    have := h.pos
    omega
  have hword : ∃ w, wordAt bA.elems ((bA.elems.length : ℤ) - 1) = .ok w := by
    have hlt : ((bA.elems.length : ℤ) - 1).toNat < bA.elems.length := by omega
    refine ⟨bA.elems[((bA.elems.length : ℤ) - 1).toNat], ?_⟩
    rw [wordAt, if_neg (by omega), getElem?_eq_getElem hlt]
  obtain ⟨w, hw⟩ := hword
  rw [Bits.pickRandom, getNumTrueIndices]
  split
  · exact ⟨_, rfl⟩
  · rw [hw]
    exact ⟨_, rfl⟩

end BitArray

end CometBFT.Bits
