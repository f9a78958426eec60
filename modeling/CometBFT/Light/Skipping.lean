import CometBFT.Lib.Loop
import CometBFT.Light.Providers

/-!
# Skipping verification

The model of `verifySkipping` in `light/client.go`. The client verifies the target against the last
block it has verified. If too few of the trusted validators signed it, the client asks for a block in
between, and so on down; once a block is verified it starts again from the target.

The blocks that were asked for are kept in a cache, in descending order of their heights. Each is
appended twice, since the source appends it once in the switch on the provider's error and once after
it.

## Main results

* `Skipping.Descending.next` — the heights in the cache stay in order, and a measure goes down
* `skipping_sound_and_terminates` — the loop ends, and a trace it returns is a chain of verified blocks
  from the trusted one to the target
-/

namespace CometBFT.Light

open CometBFT.Types List

def verifySkippingNumerator : ℤ := 9

def verifySkippingDenominator : ℤ := 16

/-- Why a verification failed. -/
inductive Reason where
  | verify (e : VerifyError)
  | provider (e : ProviderError)
deriving DecidableEq, Repr

inductive SkippingError where
  | verify (e : VerifyError)
  | verificationFailed (fromHeight toHeight : ℤ) (reason : Reason)
deriving DecidableEq, Repr

/-- The variables of the loop, and how often the source was asked. -/
structure Skipping where
  blockCache : List LightBlock
  depth : ℕ := 0
  verifiedBlock : LightBlock
  trace : List LightBlock
  requests : ℕ := 0

namespace Skipping

variable (p : Primitives) (cfg : Config) (now : Time) (source : ℕ → ℤ → Reply)
  (newLightBlock : LightBlock)

/-- The height of the block in between. -/
def pivotHeight (verified upper : ℤ) : ℤ :=
  wrap64 (verified + (wrap64 (wrap64 (upper - verified) * verifySkippingNumerator)).tdiv
    verifySkippingDenominator)

/-- One iteration. -/
def step (s : Skipping) :
    Iteration Skipping (Except Failure (Except SkippingError (List LightBlock))) :=
  match s.blockCache[s.depth]? with
  | none => .done (.error (.panic "index out of range"))
  | some block =>
    match verify p cfg now s.verifiedBlock block with
    | .error e => .done (.error e)
    | .ok none =>
      if s.depth = 0 then .done (.ok (.ok (s.trace ++ [newLightBlock])))
      else .next { s with
        verifiedBlock := block
        blockCache := s.blockCache.take s.depth
        depth := 0
        trace := s.trace ++ [block] }
    | .ok (some (.newValSetCantBeTrusted got needed)) =>
      if s.depth = s.blockCache.length - 1 then
        let pivot := pivotHeight s.verifiedBlock.height block.height
        match source s.requests pivot with
        | .ok interimBlock => .next { s with
            blockCache := s.blockCache ++ [interimBlock, interimBlock]
            depth := s.depth + 1
            requests := s.requests + 1 }
        | .error e =>
          if e.benign then .done (.ok (.error (.verify (.newValSetCantBeTrusted got needed))))
          else .done (.ok (.error
            (.verificationFailed s.verifiedBlock.height pivot (.provider e))))
      else .next { s with depth := s.depth + 1 }
    | .ok (some e) =>
      .done (.ok (.error
        (.verificationFailed s.verifiedBlock.height block.height (.verify e))))

def init (trustedBlock : LightBlock) : Skipping where
  blockCache := [newLightBlock]
  verifiedBlock := trustedBlock
  trace := [trustedBlock]

end Skipping

/-- `verifySkipping`, with at most `fuel` iterations. -/
def verifySkipping (p : Primitives) (cfg : Config) (now : Time) (fuel : ℕ)
    (source : ℕ → ℤ → Reply) (trustedBlock newLightBlock : LightBlock) :
    Option (Except Failure (Except SkippingError (List LightBlock))) :=
  Loop.run (Skipping.step p cfg now source newLightBlock) fuel
    (Skipping.init newLightBlock trustedBlock)

namespace Skipping

variable {p : Primitives} {cfg : Config} {now : Time} {source : ℕ → ℤ → Reply}
  {trusted new : LightBlock} {s t : Skipping}

/-- What an iteration that goes on does. -/
theorem step_eq_next (h : step p cfg now source new s = .next t) :
    ∃ block, s.blockCache[s.depth]? = some block ∧
      ((verify p cfg now s.verifiedBlock block = .ok none ∧ s.depth ≠ 0 ∧ t = { s with
          verifiedBlock := block
          blockCache := s.blockCache.take s.depth
          depth := 0
          trace := s.trace ++ [block] }) ∨
        ∃ got needed, verify p cfg now s.verifiedBlock block =
            .ok (some (.newValSetCantBeTrusted got needed)) ∧
          ((s.depth = s.blockCache.length - 1 ∧ ∃ interim, source s.requests
              (pivotHeight s.verifiedBlock.height block.height) = .ok interim ∧ t = { s with
                blockCache := s.blockCache ++ [interim, interim]
                depth := s.depth + 1
                requests := s.requests + 1 }) ∨
            s.depth ≠ s.blockCache.length - 1 ∧ t = { s with depth := s.depth + 1 })) := by
  unfold step at h
  dsimp only at h
  repeat' split at h
  all_goals cases h
  · rename_i block hblock _ hverify hdepth
    exact ⟨block, hblock, .inl ⟨hverify, hdepth, rfl⟩⟩
  · rename_i block hblock _ got needed hverify hdepth _ interim hinterim
    exact ⟨block, hblock, .inr ⟨got, needed, hverify, .inl ⟨hdepth, interim, hinterim, rfl⟩⟩⟩
  · rename_i block hblock _ got needed hverify hdepth
    exact ⟨block, hblock, .inr ⟨got, needed, hverify, .inr ⟨hdepth, rfl⟩⟩⟩

/-- When an iteration returns a trace. -/
theorem step_eq_trace {blocks : List LightBlock}
    (h : step p cfg now source new s = .done (.ok (.ok blocks))) :
    ∃ block, s.blockCache[0]? = some block ∧ verify p cfg now s.verifiedBlock block = .ok none ∧
      blocks = s.trace ++ [new] := by
  unfold step at h
  dsimp only at h
  repeat' split at h
  all_goals cases h
  rename_i block hblock _ hverify hdepth
  exact ⟨block, hdepth ▸ hblock, hverify, rfl⟩

/-! ### The trace -/

/-- The trace is a chain of verified blocks that ends with the last one, and the target is at the
beginning of the cache. -/
structure Traced (p : Primitives) (cfg : Config) (now : Time) (trusted new : LightBlock)
    (s : Skipping) : Prop where
  target : s.blockCache[0]? = some new
  head : s.trace.head? = some trusted
  last : s.trace.getLast? = some s.verifiedBlock
  chain : s.trace.IsChain fun a b => verify p cfg now a b = .ok none

theorem traced_init : Traced p cfg now trusted new (init new trusted) :=
  ⟨rfl, rfl, rfl, .singleton _⟩

/-- A chain with one more verified block. -/
theorem Traced.chain_append {block : LightBlock} (h : Traced p cfg now trusted new s)
    (hverify : verify p cfg now s.verifiedBlock block = .ok none) :
    (s.trace ++ [block]).IsChain fun a b => verify p cfg now a b = .ok none := by
  refine isChain_append.mpr ⟨h.chain, .singleton _, fun a ha b hb => ?_⟩
  obtain rfl : s.verifiedBlock = a := Option.some.inj (h.last.symm.trans ha)
  obtain rfl : block = b := Option.some.inj hb
  exact hverify

theorem Traced.head_append {block : LightBlock} (h : Traced p cfg now trusted new s) :
    (s.trace ++ [block]).head? = some trusted := by
  rw [head?_append, h.head]
  rfl

theorem Traced.next (h : Traced p cfg now trusted new s)
    (hstep : step p cfg now source new s = .next t) : Traced p cfg now trusted new t := by
  obtain ⟨block, -, ⟨hverify, hdepth, rfl⟩ |
    ⟨_, _, -, ⟨-, interim, -, rfl⟩ | ⟨-, rfl⟩⟩⟩ := step_eq_next hstep
  · refine ⟨?_, h.head_append, getLast?_concat, h.chain_append hverify⟩
    rw [getElem?_take_of_lt (Nat.pos_of_ne_zero hdepth)]
    exact h.target
  · refine ⟨?_, h.head, h.last, h.chain⟩
    obtain ⟨hlt, -⟩ := List.getElem?_eq_some_iff.mp h.target
    rw [List.getElem?_append_left hlt]
    exact h.target
  · exact ⟨h.target, h.head, h.last, h.chain⟩

/-! ### Termination -/

/-- The heights in the cache: the block at index `i` is at least `i / 2` below the target, and all but
the target are above the trusted block. -/
structure Descending (trusted new : LightBlock) (s : Skipping) : Prop where
  depth : s.depth < s.blockCache.length
  below : ∀ (i : ℕ) b, s.blockCache[i]? = some b → (i : ℤ) ≤ 2 * (new.height - b.height)
  above : ∀ (i : ℕ) b, s.blockCache[i]? = some b → 0 < i → trusted.height ≤ b.height
  verified : trusted.height ≤ s.verifiedBlock.height

theorem descending_init : Descending trusted new (init new trusted) := by
  refine ⟨Nat.zero_lt_one, fun i b hb => ?_, fun i b hb hi => ?_, le_refl _⟩
  · obtain ⟨hlt, hb⟩ := List.getElem?_eq_some_iff.mp hb
    obtain rfl : i = 0 := Nat.lt_one_iff.mp hlt
    obtain rfl : new = b := hb
    omega
  · obtain ⟨hlt, -⟩ := List.getElem?_eq_some_iff.mp hb
    exact absurd hi (by rw [Nat.lt_one_iff.mp hlt]; exact Nat.lt_irrefl 0)

/-- The block in between is strictly in between. -/
theorem pivotHeight_mem {verified upper : ℤ} (h0 : 0 ≤ verified) (hupper : upper < 2 ^ 59)
    (hgap : verified + 2 ≤ upper) :
    verified < pivotHeight verified upper ∧ pivotHeight verified upper < upper := by
  unfold pivotHeight verifySkippingNumerator verifySkippingDenominator
  rw [wrap64_of_fits (x := upper - verified) (fits64_of_bounds (by omega)),
    wrap64_of_fits (x := (upper - verified) * 9)
      (fits64_of_bounds (by omega)),
    Int.tdiv_eq_ediv_of_nonneg (by omega),
    wrap64_of_fits (fits64_of_bounds (by omega))]
  omega

/-- The height of the last block in the cache. -/
def lastHeight (s : Skipping) : ℤ := (s.blockCache.getLast?.map fun b => b.height).getD 0

/-- How far the target is from the trusted block. -/
def distance (trusted new : LightBlock) : ℕ := (new.height - trusted.height).toNat

/-- What goes down: the distance from the target and then, with the same verified block, that of the
last block in the cache and the blocks still to be tried. -/
def measure (trusted new : LightBlock) (s : Skipping) : ℕ :=
  (new.height - s.verifiedBlock.height).toNat * (4 * distance trusted new + 2) +
    (2 * (s.lastHeight - s.verifiedBlock.height).toNat + (s.blockCache.length - s.depth))

theorem lastHeight_of_getElem? {b : LightBlock}
    (h : s.blockCache[s.blockCache.length - 1]? = some b) : s.lastHeight = b.height := by
  rw [lastHeight, getLast?_eq_getElem?, h]
  rfl

/-- The second part of the measure is bounded. -/
theorem Descending.rest_lt (h : Descending trusted new s) :
    2 * (s.lastHeight - s.verifiedBlock.height).toNat + (s.blockCache.length - s.depth) <
      4 * distance trusted new + 2 := by
  have hlen := h.depth
  obtain ⟨b, hb⟩ : ∃ b, s.blockCache[s.blockCache.length - 1]? = some b :=
    ⟨_, getElem?_eq_getElem (by omega)⟩
  rw [lastHeight_of_getElem? hb]
  have hbelow := h.below _ b hb
  have habove := h.above _ b hb
  have hverified := h.verified
  unfold distance
  rcases Nat.eq_zero_or_pos (s.blockCache.length - 1) with hzero | hpos
  · omega
  · have := habove hpos
    omega

theorem measure_init_lt :
    measure trusted new (init new trusted) <
      (distance trusted new + 1) * (4 * distance trusted new + 2) := by
  have hlt := (@descending_init trusted new).rest_lt
  rw [Nat.add_mul, Nat.one_mul]
  exact Nat.add_lt_add_left hlt _

/-- **The step**: the heights stay in order, and the measure goes down. -/
theorem Descending.next (hsource : ∀ n h b, source n h = .ok b → b.height = h)
    (htrusted : 0 ≤ trusted.height) (hnew : new.height < 2 ^ 59) (h : Descending trusted new s)
    (hstep : step p cfg now source new s = .next t) :
    Descending trusted new t ∧ measure trusted new t < measure trusted new s := by
  have hverified := h.verified
  have hdepth := h.depth
  obtain ⟨block, hblock, ⟨hverify, hne, rfl⟩ |
    ⟨_, _, hverify, ⟨hend, interim, hinterim, rfl⟩ | ⟨hend, rfl⟩⟩⟩ := step_eq_next hstep
  · -- a block is verified that is not the target
    have hlt := lt_height_of_verify hverify
    have hbelow := h.below _ _ hblock
    have htake : ∀ {i : ℕ} {b : LightBlock}, (s.blockCache.take s.depth)[i]? = some b →
        s.blockCache[i]? = some b := by
      grind
    have hpos : 0 < (s.blockCache.take s.depth).length := by
      rw [length_take_of_le hdepth.le]
      exact Nat.pos_of_ne_zero hne
    refine have hdesc := ⟨hpos, fun i b hb => h.below i b (htake hb),
      fun i b hb => h.above i b (htake hb), hverified.trans hlt.le⟩; ⟨hdesc, ?_⟩
    have hcloser : (new.height - block.height).toNat + 1 ≤
        (new.height - s.verifiedBlock.height).toNat := by omega
    let k := 4 * distance trusted new + 2
    calc measure trusted new _ < (new.height - block.height).toNat * k + k :=
          Nat.add_lt_add_left hdesc.rest_lt _
      _ = ((new.height - block.height).toNat + 1) * k := (Nat.succ_mul _ _).symm
      _ ≤ (new.height - s.verifiedBlock.height).toNat * k := Nat.mul_le_mul_right _ hcloser
      _ ≤ measure trusted new s := Nat.le_add_right _ _
  · -- a block in between is appended, twice
    obtain ⟨hlt, hnext⟩ := of_newValSetCantBeTrusted hverify
    have hbelow := h.below _ _ hblock
    rw [wrap64_of_fits (fits64_of_bounds (by omega))] at hnext
    obtain ⟨hlow, hhigh⟩ := @pivotHeight_mem s.verifiedBlock.height block.height
      (htrusted.trans hverified) (by omega) (by omega)
    have hheight := hsource _ _ _ hinterim
    have hcases : ∀ {i : ℕ} {b : LightBlock}, (s.blockCache ++ [interim, interim])[i]? = some b →
        s.blockCache[i]? = some b ∨ i ≤ s.depth + 2 ∧ b = interim := by
      grind
    have hlen : (s.blockCache ++ [interim, interim]).length = s.blockCache.length + 2 :=
      length_append
    refine ⟨⟨?_, fun i b hb => ?_, fun i b hb hi => ?_, hverified⟩, ?_⟩
    · dsimp only
      omega
    · rcases hcases hb with hb | ⟨hi, rfl⟩
      · exact h.below i b hb
      · omega
    · rcases hcases hb with hb | ⟨-, rfl⟩
      · exact h.above i b hb hi
      · omega
    · have hlast : s.lastHeight = block.height := lastHeight_of_getElem? (hend ▸ hblock)
      have hlast' : (s.blockCache ++ [interim, interim]).getLast? = some interim :=
        getLast?_append
      simp only [measure, lastHeight, hlast', hlen, Option.map_some, Option.getD_some] at hlast ⊢
      omega
  · refine ⟨⟨?_, h.below, h.above, hverified⟩, ?_⟩
    · dsimp only
      omega
    · refine Nat.add_lt_add_left (Nat.add_lt_add_left ?_ _) _
      dsimp only
      omega

end Skipping

/-- **Skipping verification is sound and terminates.** -/
theorem skipping_sound_and_terminates (p : Primitives) (cfg : Config) (now : Time)
    (source : ℕ → ℤ → Reply) (hsource : ∀ n h b, source n h = .ok b → b.height = h)
    (trusted new : LightBlock) (htrusted : 0 ≤ trusted.height) (hnew : new.height < 2 ^ 59) :
    (∃ enough, ∀ fuel ≥ enough,
      ∃ r, verifySkipping p cfg now fuel source trusted new = some r) ∧
    ∀ fuel trace, verifySkipping p cfg now fuel source trusted new = some (.ok (.ok trace)) →
      trace.head? = some trusted ∧ trace.getLast? = some new ∧
        (trace.map fun b => b.height).Pairwise (· < ·) ∧
        trace.IsChain fun a b => verify p cfg now a b = .ok none := by
  refine ⟨⟨(Skipping.distance trusted new + 1) * (4 * Skipping.distance trusted new + 2),
    fun fuel hfuel => ?_⟩, fun fuel trace h => ?_⟩
  · exact Loop.exists_run_eq_some (fun s t h hstep => h.next hsource htrusted hnew hstep)
      Skipping.descending_init (Skipping.measure_init_lt.trans_le hfuel)
  · obtain ⟨s, hs, hdone⟩ := Loop.of_run_eq_some (fun s t h hstep => h.next hstep)
      Skipping.traced_init h
    obtain ⟨block, hblock, hverify, rfl⟩ := Skipping.step_eq_trace hdone
    obtain rfl : new = block := Option.some.inj (hs.target.symm.trans hblock)
    have hchain := hs.chain_append hverify
    refine ⟨hs.head_append, getLast?_concat, ?_, hchain⟩
    rw [← isChain_iff_pairwise, isChain_map]
    exact hchain.imp fun a b h => lt_height_of_verify h

/-- The validators of the trusted block have not signed the target: the interval is cut at 5, 3 and
2, which is the next block and so is verified; the target is verified from there. -/
theorem skipping_sound_and_terminates_plain :
    let source : ℕ → ℤ → Reply := fun _ h => .ok (plainBlock h h [])
    let trusted := { plainBlock 1 1 [] with
      validatorSet.validators := [{ soleValidator with address := [] }] }
    let trace := [trusted, plainBlock 2 2 [], plainBlock 9 9 []]
    verifySkipping plainPrimitives plainConfig 20 10 source trusted (plainBlock 9 9 []) =
        some (.ok (.ok trace)) ∧
      trace.IsChain fun a b => verify plainPrimitives plainConfig 20 a b = .ok none := by
  intro source trusted trace
  have h : verifySkipping plainPrimitives plainConfig 20 10 source trusted (plainBlock 9 9 []) =
      some (.ok (.ok trace)) := by decide +kernel
  have hsound := skipping_sound_and_terminates plainPrimitives plainConfig 20 source
    (fun _ h b hb => by cases hb; rfl) trusted (plainBlock 9 9 []) (by decide) (by decide)
  exact ⟨h, (hsound.2 10 _ h).2.2.2⟩

end CometBFT.Light
