import CometBFT.Types.Header

/-!
# What the priority hash commits to

`ProposerPriorityHash` encodes the priorities as varints and hashes them, but every varint is written
to the beginning of the buffer, over the one before. What is hashed begins with the priority of the
last validator; of the others there are at most some bytes that were longer, and the sum of their
lengths. So the hash of a set commits to the priority of its last validator, and not to all of them.

## Main results

* `hashedPriorities_eq` — what is hashed, byte by byte
* `hashed_ne_iff` — when it differs; always, if the last priorities do
* `hashed_eq_of_first_ne` — the priority of another validator is not committed to
-/

namespace CometBFT.Types

/-- What `ProposerPriorityHash` hashes. -/
def hashedPriorities (vals : List Validator) : Bytes :=
  let (buf, total) := priorityBuffer vals
  buf.take total

theorem proposerPriorityHash_eq (p : Primitives) {vals : ValidatorSet} (hne : vals.validators ≠ []) :
    vals.proposerPriorityHash p = p.sum (hashedPriorities vals.validators) := if_neg hne

/-! ### The encoding of one priority -/

/-- `PutVarint` moves the sign to the lowest bit. -/
theorem zigzag_inj {x y : ℤ}
    (h : (if x < 0 then -2 * x - 1 else 2 * x).toNat = (if y < 0 then -2 * y - 1 else 2 * y).toNat) :
    x = y := by
  split_ifs at h with hx hy hy
  · omega
  · omega
  · omega
  · omega

theorem zigzag_lt {x : ℤ} (hx : Fits64 x) :
    (if x < 0 then -2 * x - 1 else 2 * x).toNat < 128 ^ 10 := by
  obtain ⟨hmin, hmax⟩ := hx
  rw [minInt64] at hmin
  rw [maxInt64] at hmax
  split_ifs with hneg
  · omega
  · omega

/-- Different priorities have encodings of which neither begins with the other. -/
theorem putVarint_append_inj {x y : ℤ} {s t : Bytes} (hx : Fits64 x) (hy : Fits64 y)
    (h : putVarint x ++ s = putVarint y ++ t) : x = y :=
  zigzag_inj (encodeVarint_append_inj (zigzag_lt hx) (zigzag_lt hy) h).1

/-! ### The last one written -/

/-- What is hashed begins with the priority of the last validator. -/
theorem hashedPriorities_concat (vals : List Validator) (val : Validator) :
    ∃ rest, hashedPriorities (vals ++ [val]) = putVarint val.proposerPriority ++ rest := by
  unfold hashedPriorities priorityBuffer
  rw [List.foldl_concat]
  -- whatever is in the buffer, the total is at least the length of what is written last
  generalize List.foldl _ _ vals = written
  obtain ⟨buf, total⟩ := written
  refine ⟨(buf.drop (putVarint val.proposerPriority).length).take total, ?_⟩
  dsimp only
  rw [Nat.add_comm, List.take_length_add_append]

theorem hashed_ne_of_last_ne {vals vals' : List Validator} {val val' : Validator}
    (hlast : vals.getLast? = some val) (hlast' : vals'.getLast? = some val')
    (hfits : Fits64 val.proposerPriority) (hfits' : Fits64 val'.proposerPriority)
    (hne : val.proposerPriority ≠ val'.proposerPriority) :
    hashedPriorities vals ≠ hashedPriorities vals' := by
  obtain ⟨init, rfl⟩ := List.getLast?_eq_some_iff.mp hlast
  obtain ⟨init', rfl⟩ := List.getLast?_eq_some_iff.mp hlast'
  obtain ⟨rest, hrest⟩ := hashedPriorities_concat init val
  obtain ⟨rest', hrest'⟩ := hashedPriorities_concat init' val'
  rw [hrest, hrest']
  exact fun heq => hne (putVarint_append_inj hfits hfits' heq)

/-! ### All that is hashed -/

/-- The length of the encodings of all priorities together. -/
def encodedLength (vals : List Validator) : ℕ :=
  (vals.map fun val => (putVarint val.proposerPriority).length).sum

/-- The byte at a position of the buffer: every encoding that is long enough replaces the one before. -/
def visibleByte (vals : List Validator) (byte : UInt8) (k : ℕ) : UInt8 :=
  vals.foldl (fun byte val => (putVarint val.proposerPriority)[k]?.getD byte) byte

theorem length_encodeVarint_le_fuel (fuel v : ℕ) : (encodeVarint fuel v).length ≤ fuel := by
  induction fuel generalizing v with
  | zero => exact le_rfl
  | succ fuel ih =>
    unfold encodeVarint
    split
    · simp
    · exact Nat.succ_le_succ (ih _)

/-- What the loop has written into a buffer that is long enough. -/
theorem foldl_priorityBuffer (vals : List Validator) {buf : Bytes} (total : ℕ)
    (hlen : 10 ≤ buf.length ∨ vals = []) :
    ∃ buf', vals.foldl (fun (buf, total) val =>
        let bytes := putVarint val.proposerPriority
        (bytes ++ buf.drop bytes.length, total + bytes.length)) (buf, total) =
          (buf', total + encodedLength vals) ∧
      ∀ k, buf'[k]? = buf[k]?.map fun byte => visibleByte vals byte k := by
  induction vals generalizing buf total with
  | nil => exact ⟨buf, rfl, fun k => by simp [visibleByte]⟩
  | cons val vals ih =>
    have hlen : 10 ≤ buf.length := hlen.resolve_right (List.cons_ne_nil _ _)
    have hbytes : (putVarint val.proposerPriority).length ≤ buf.length :=
      (length_encodeVarint_le_fuel _ _).trans hlen
    have hlen' : 10 ≤ (putVarint val.proposerPriority ++
        buf.drop (putVarint val.proposerPriority).length).length := by
      rw [List.length_append, List.length_drop]
      omega
    obtain ⟨buf', heq, hbuf⟩ := ih (total + (putVarint val.proposerPriority).length) (.inl hlen')
    refine ⟨buf', heq.trans (by simp [encodedLength, Nat.add_assoc]), fun k => ?_⟩
    rw [hbuf, List.getElem?_append]
    split
    · rename_i hk
      rw [List.getElem?_eq_getElem hk, List.getElem?_eq_getElem (hk.trans_le hbytes)]
      simp [visibleByte, hk]
    · rename_i hk
      rw [List.getElem?_drop, Nat.add_sub_cancel' (not_lt.mp hk)]
      simp [visibleByte, List.getElem?_eq_none (not_lt.mp hk)]

theorem encodedLength_le (vals : List Validator) : encodedLength vals ≤ 10 * vals.length := by
  induction vals with
  | nil => exact le_rfl
  | cons val vals ih =>
    have hval : (putVarint val.proposerPriority).length ≤ 10 := length_encodeVarint_le_fuel _ _
    simp only [encodedLength, List.map_cons, List.sum_cons, List.length_cons] at ih ⊢
    omega

/-- What is hashed, byte by byte. -/
theorem hashedPriorities_eq (vals : List Validator) :
    hashedPriorities vals = (List.range (encodedLength vals)).map (visibleByte vals 0) := by
  have hlen : 10 ≤ (List.replicate (10 * vals.length) (0 : UInt8)).length ∨ vals = [] := by
    cases vals with
    | nil => exact .inr rfl
    | cons val vals => exact .inl (by simp)
  obtain ⟨buf, heq, hbuf⟩ := foldl_priorityBuffer vals 0 hlen
  have hle := encodedLength_le vals
  have hhashed : hashedPriorities vals = buf.take (encodedLength vals) := by
    unfold hashedPriorities priorityBuffer
    rw [heq, Nat.zero_add]
  rw [hhashed]
  refine List.ext_getElem? fun k => ?_
  rw [List.getElem?_take, hbuf, List.getElem?_map]
  by_cases hk : k < encodedLength vals
  · rw [if_pos hk, List.getElem?_range hk, List.getElem?_replicate_of_lt (hk.trans_le hle)]
    rfl
  · rw [if_neg hk, List.getElem?_eq_none (by simpa using hk)]
    rfl

/-- **What the hash commits to.** Two sets are hashed from different bytes exactly if the lengths of
their encoded priorities differ in total, or at some position the last encodings that reach it differ;
this is so whenever the last priorities differ. Then the hashes differ if the hash does not collide. -/
theorem hashed_ne_iff (vals vals' : ValidatorSet) :
    (hashedPriorities vals.validators ≠ hashedPriorities vals'.validators ↔
      encodedLength vals.validators ≠ encodedLength vals'.validators ∨
        ∃ k < encodedLength vals.validators,
          visibleByte vals.validators 0 k ≠ visibleByte vals'.validators 0 k) ∧
    (∀ val val', vals.validators.getLast? = some val → vals'.validators.getLast? = some val' →
      Fits64 val.proposerPriority → Fits64 val'.proposerPriority →
      val.proposerPriority ≠ val'.proposerPriority →
      hashedPriorities vals.validators ≠ hashedPriorities vals'.validators) ∧
    ∀ p : Primitives, Function.Injective p.sum → vals.validators ≠ [] → vals'.validators ≠ [] →
      (vals.proposerPriorityHash p ≠ vals'.proposerPriorityHash p ↔
        hashedPriorities vals.validators ≠ hashedPriorities vals'.validators) := by
  refine ⟨?_, fun _ _ => hashed_ne_of_last_ne, fun p hinj hne hne' => ?_⟩
  · rw [hashedPriorities_eq, hashedPriorities_eq]
    by_cases hlen : encodedLength vals.validators = encodedLength vals'.validators
    · rw [hlen, ne_eq, List.map_inj_left]
      simp
    · have hbytes : (List.range (encodedLength vals.validators)).map (visibleByte vals.validators 0) ≠
          (List.range (encodedLength vals'.validators)).map (visibleByte vals'.validators 0) :=
        fun heq => hlen (by simpa using congrArg List.length heq)
      exact iff_of_true hbytes (.inl hlen)
  · rw [proposerPriorityHash_eq p hne, proposerPriorityHash_eq p hne', hinj.ne_iff]

/-- Two validators with these priorities. -/
def withPriorities (x y : ℤ) : ValidatorSet where
  validators := [⟨[1], none, 1, x⟩, ⟨[2], none, 1, y⟩]

/-- The second priority is always seen, the first one by its length. -/
theorem hashed_ne_iff_two :
    hashedPriorities (withPriorities 1 5).validators ≠
        hashedPriorities (withPriorities 1 (-300)).validators ∧
      hashedPriorities (withPriorities 1 5).validators ≠
        hashedPriorities (withPriorities (-300) 5).validators :=
  ⟨(hashed_ne_iff (withPriorities 1 5) (withPriorities 1 (-300))).2.1 _ _ rfl rfl (by decide)
    (by decide) (by decide),
    (hashed_ne_iff (withPriorities 1 5) (withPriorities (-300) 5)).1.mpr (.inl (by decide))⟩

/-- The first of two priorities is altered, and the hash stays what it is. -/
theorem hashed_eq_of_first_ne :
    (withPriorities 1 5).validators.length = (withPriorities 2 5).validators.length ∧
      (withPriorities 1 5).validators.map Validator.proposerPriority ≠
        (withPriorities 2 5).validators.map Validator.proposerPriority ∧
      hashedPriorities (withPriorities 1 5).validators =
        hashedPriorities (withPriorities 2 5).validators ∧
      ∀ p : Primitives, (withPriorities 1 5).proposerPriorityHash p =
        (withPriorities 2 5).proposerPriorityHash p := by
  have heq : hashedPriorities (withPriorities 1 5).validators =
      hashedPriorities (withPriorities 2 5).validators := by decide
  refine ⟨rfl, by decide, heq, fun p => ?_⟩
  rw [proposerPriorityHash_eq p (List.cons_ne_nil _ _), heq,
    ← proposerPriorityHash_eq p (List.cons_ne_nil _ _)]

end CometBFT.Types
