import CometBFT.Light.Backwards

/-!
# Rolling the light client back

The model of `cleanupAfter` in `light/client.go`. The loop walks down from the latest trusted block to
the block before, and deletes it as long as it is above the height. The latest trusted block itself is
before no block, so that it is never deleted; nor is a block whose deletion fails, which is ignored.
As the latest trusted block is always stored, no client is ever rolled back.

## Main results

* `Client.cleanup_removes` — which blocks are left, and when these are those up to the height
* `cleanup_keeps_latest` — the latest trusted block stays, and is trusted again
-/

namespace CometBFT.Light

open CometBFT.Types List

namespace TrustedStore

variable (store : TrustedStore)

/-- `DeleteLightBlock`. Where it fails nothing is deleted, and the client only logs the error. -/
def deleteLightBlock (fails : ℤ → Bool) (height : ℤ) : Except Failure TrustedStore :=
  if height ≤ 0 then .error (.panic "negative or zero height")
  else if fails height then .ok store
  else .ok ⟨store.blocks.filter fun b => b.height ≠ height, store.size - 1⟩

/-- What is stored, as the database orders it. -/
structure Ordered : Prop where
  ascending : store.blocks.Pairwise fun a b => a.height < b.height
  pos : ∀ b ∈ store.blocks, 0 < b.height

variable {store} {height : ℤ} {b : LightBlock}

theorem Ordered.filter (h : store.Ordered) (keep : LightBlock → Bool) (size : UInt16) :
    Ordered ⟨store.blocks.filter keep, size⟩ :=
  ⟨h.ascending.filter _, fun b hb => h.pos b (mem_of_mem_filter hb)⟩

/-- What is deleted, if this does not fail. -/
theorem Ordered.delete (fails : ℤ → Bool) (h : store.Ordered) (hpos : 0 < height) :
    ∃ store', store.deleteLightBlock fails height = .ok store' ∧ store'.Ordered ∧
      ∀ b, b ∈ store'.blocks ↔ b ∈ store.blocks ∧ (b.height = height → fails height = true) := by
  unfold deleteLightBlock
  rw [if_neg (not_le.mpr hpos)]
  by_cases hf : fails height = true
  · rw [if_pos hf]
    exact ⟨store, rfl, h, fun b => ⟨fun hb => ⟨hb, fun _ => hf⟩, And.left⟩⟩
  · rw [if_neg hf]
    refine ⟨_, rfl, h.filter _ _, fun b => ?_⟩
    rw [mem_filter, decide_eq_true_eq]
    exact and_congr_right fun _ => ⟨fun hne heq => absurd heq hne, fun himp heq => hf (himp heq)⟩

/-- The last of the blocks that is below a height is the highest of these. -/
theorem Ordered.lightBlockBefore (h : store.Ordered) (hpos : 0 < height) :
    (store.lightBlockBefore height = .ok none ∧ ∀ b ∈ store.blocks, height ≤ b.height) ∨
      ∃ b ∈ store.blocks, store.lightBlockBefore height = .ok (some b) ∧ b.height < height ∧
        ∀ b' ∈ store.blocks, b'.height < height → b'.height ≤ b.height := by
  unfold TrustedStore.lightBlockBefore
  rw [if_neg (by omega)]
  cases hfind : store.blocks.reverse.find? fun b => b.height < height with
  | none =>
    refine .inl ⟨rfl, fun b hb => ?_⟩
    have := find?_eq_none.mp hfind b (mem_reverse.mpr hb)
    simpa using this
  | some b =>
    obtain ⟨hlt, before, after, heq, hbefore⟩ := find?_eq_some_iff_append.mp hfind
    have hmem : b ∈ store.blocks := mem_reverse.mp (mem_of_find?_eq_some hfind)
    refine .inr ⟨b, hmem, rfl, of_decide_eq_true hlt, fun b' hb' hlt' => ?_⟩
    have hdesc := pairwise_reverse.mpr h.ascending
    rw [heq] at hdesc
    rw [← mem_reverse, heq] at hb'
    obtain ⟨-, hafter, -⟩ := pairwise_append.mp hdesc
    rcases mem_append.mp hb' with hb' | hb'
    · have := hbefore b' hb'
      simp [hlt'] at this
    · rcases mem_cons.mp hb' with rfl | hb'
      · exact le_rfl
      · exact (rel_of_pairwise_cons hafter hb').le

/-- `restoreTrustedLightBlock`: the block with the last height; none if the store is empty. -/
def restoreTrustedLightBlock (store : TrustedStore) : Except Failure (Option LightBlock) :=
  if store.lastLightBlockHeight = -1 then .ok none else store.lightBlock store.lastLightBlockHeight

/-- It is the highest. -/
theorem Ordered.restore (h : store.Ordered) :
    (store.restoreTrustedLightBlock = .ok none ∧ store.blocks = []) ∨
      ∃ b ∈ store.blocks, store.restoreTrustedLightBlock = .ok (some b) ∧
        ∀ b' ∈ store.blocks, b'.height ≤ b.height := by
  unfold restoreTrustedLightBlock lastLightBlockHeight
  rcases eq_nil_or_concat store.blocks with hnil | ⟨init, last, heq⟩
  · rw [hnil]
    exact .inl ⟨rfl, rfl⟩
  · rw [concat_eq_append] at heq
    have hmem : last ∈ store.blocks := by simp [heq]
    have hpos := h.pos last hmem
    obtain ⟨-, -, hlt⟩ := pairwise_append.mp (heq ▸ h.ascending)
    have hinit : ∀ b ∈ init, b.height < last.height := fun b hb =>
      hlt b hb last (mem_singleton_self last)
    have hlast : (store.blocks.getLast?.map fun b => b.height).getD (-1) = last.height := by
      rw [heq, getLast?_concat]
      rfl
    refine .inr ⟨last, hmem, ?_, fun b hb => ?_⟩
    · rw [hlast, if_neg (by omega)]
      unfold lightBlock
      rw [if_neg (by omega), heq, find?_append, find?_eq_none.mpr, find?_singleton]
      · simp
      · intro b hb
        have := hinit b hb
        simp
        omega
    · rw [heq] at hb
      rcases mem_append.mp hb with hb | hb
      · exact (hinit b hb).le
      · rw [mem_singleton.mp hb]

end TrustedStore

namespace Client

variable {P : Type} (c : Client P)

/-- One iteration of the loop of `cleanupAfter`, on the store and `prevHeight`. -/
def cleanupStep (fails : ℤ → Bool) (height : ℤ) (s : TrustedStore × ℤ) :
    Iteration (TrustedStore × ℤ) (Except Failure TrustedStore) :=
  match s.1.lightBlockBefore s.2 with
  | .error e => .done (.error e)
  | .ok none => .done (.ok s.1)
  | .ok (some h) =>
    if h.height ≤ height then .done (.ok s.1)
    else match s.1.deleteLightBlock fails h.height with
      | .error e => .done (.error e)
      | .ok store => .next (store, h.height)

/-- `cleanupAfter`, with at most `fuel` iterations: the store that is left, and the latest trusted block;
none of these for the error that the store is empty. -/
def cleanupAfter (fails : ℤ → Bool) (fuel : ℕ) (height : ℤ) :
    Option (Except Failure (TrustedStore × Option LightBlock)) :=
  (Loop.run (cleanupStep fails height) fuel (c.trustedStore, c.latestTrustedBlock.height)).map
    fun r => do
      let store ← r
      return (store, ← store.restoreTrustedLightBlock)

variable {c} {height : ℤ} {fails : ℤ → Bool}

/-- What the loop has done when it is at `prevHeight`. -/
structure Cleaned (c : Client P) (fails : ℤ → Bool) (height : ℤ) (s : TrustedStore × ℤ) : Prop where
  ordered : s.1.Ordered
  above : height < s.2
  le : s.2 ≤ c.latestTrustedBlock.height
  pos : 0 < s.2
  mem : ∀ b, b ∈ s.1.blocks ↔ b ∈ c.trustedStore.blocks ∧
    (b.height < s.2 ∨ c.latestTrustedBlock.height ≤ b.height ∨ fails b.height = true)

/-- **One iteration** deletes the highest block below, or there is nothing left to delete. -/
theorem Cleaned.step {s : TrustedStore × ℤ} (h : Cleaned c fails height s) :
    (∃ t, cleanupStep fails height s = .next t ∧ Cleaned c fails height t ∧ t.2 < s.2) ∨
      cleanupStep fails height s = .done (.ok s.1) ∧
        ∀ b ∈ s.1.blocks, b.height < s.2 → b.height ≤ height := by
  unfold cleanupStep
  rcases h.ordered.lightBlockBefore h.pos with ⟨heq, hnone⟩ | ⟨b, hb, heq, hlt, hhighest⟩
  · rw [heq]
    exact .inr ⟨rfl, fun b hb hlt => absurd (hnone b hb) (by omega)⟩
  · rw [heq]
    dsimp only
    by_cases hle : b.height ≤ height
    · rw [if_pos hle]
      exact .inr ⟨rfl, fun b' hb' hlt' => (hhighest b' hb' hlt').trans hle⟩
    · obtain ⟨store, hdelete, hordered, hmem⟩ := h.ordered.delete fails (h.ordered.pos b hb)
      rw [if_neg hle, hdelete]
      have hs := h.le
      refine .inl ⟨_, rfl, ⟨hordered, not_le.mp hle, by omega, h.ordered.pos b hb, fun b' => ?_⟩, hlt⟩
      rw [hmem, h.mem]
      constructor
      · rintro ⟨hb', hkept⟩
        refine ⟨hb'.1, ?_⟩
        rcases hb'.2 with hlt' | hrest
        · -- a block below `s.2` is not above the one that was found
          rcases (hhighest b' ((h.mem b').mpr hb') hlt').lt_or_eq with hlt' | heq'
          · exact .inl hlt'
          · exact .inr (.inr (heq' ▸ hkept heq'))
        · exact .inr hrest
      · rintro ⟨hb', hor⟩
        refine ⟨⟨hb', hor.imp_left fun hlt' => hlt'.trans hlt⟩, fun heq' => ?_⟩
        rcases hor with hlt' | hge | hf
        · omega
        · omega
        · rwa [← heq']

/-- **What rolling back leaves**: the blocks up to the height, those from the latest trusted height on,
and those whose deletion fails; the highest of them is trusted. These are the blocks up to the height
just if no other is stored, so never if the latest trusted block is. -/
theorem cleanup_removes (fails : ℤ → Bool) (hordered : c.trustedStore.Ordered)
    (hpos : 0 < c.latestTrustedBlock.height) (hheight : height < c.latestTrustedBlock.height) {fuel : ℕ}
    (hfuel : c.latestTrustedBlock.height.toNat < fuel) :
    ∃ store latest, c.cleanupAfter fails fuel height = some (.ok (store, latest)) ∧
      (∀ b, b ∈ store.blocks ↔ b ∈ c.trustedStore.blocks ∧
        (b.height ≤ height ∨ c.latestTrustedBlock.height ≤ b.height ∨ fails b.height = true)) ∧
      ((∀ b, b ∈ store.blocks ↔ b ∈ c.trustedStore.blocks ∧ b.height ≤ height) ↔
        ∀ b ∈ c.trustedStore.blocks, height < b.height →
          b.height < c.latestTrustedBlock.height ∧ fails b.height = false) ∧
      (c.latestTrustedBlock ∈ c.trustedStore.blocks → c.latestTrustedBlock ∈ store.blocks) ∧
      match latest with
      | none => store.blocks = []
      | some b => b ∈ store.blocks ∧ ∀ b' ∈ store.blocks, b'.height ≤ b.height := by
  have hstart : Cleaned c fails height (c.trustedStore, c.latestTrustedBlock.height) :=
    ⟨hordered, hheight, le_rfl, hpos,
      fun b => ⟨fun hb => ⟨hb, (lt_or_ge _ _).imp_right .inl⟩, And.left⟩⟩
  have hstep : ∀ s t, Cleaned c fails height s → cleanupStep fails height s = .next t →
      Cleaned c fails height t ∧ t.2.toNat < s.2.toNat := by
    intro s t hs hnext
    rcases hs.step with ⟨t', ht', hclean, hlt⟩ | ⟨hdone, -⟩
    · cases ht'.symm.trans hnext
      exact ⟨hclean, (Int.toNat_lt_toNat hs.pos).mpr hlt⟩
    · cases hdone.symm.trans hnext
  obtain ⟨r, hrun⟩ := Loop.exists_run_eq_some hstep hstart hfuel
  obtain ⟨t, ht, hdone⟩ := Loop.of_run_eq_some (fun s t hs hn => (hstep s t hs hn).1) hstart hrun
  rcases ht.step with ⟨t', ht', -⟩ | ⟨hdone', hleft⟩
  · cases ht'.symm.trans hdone
  obtain rfl : .ok t.1 = r := Iteration.done.inj (hdone'.symm.trans hdone)
  have habove := ht.above
  have hmem : ∀ b, b ∈ t.1.blocks ↔ b ∈ c.trustedStore.blocks ∧
      (b.height ≤ height ∨ c.latestTrustedBlock.height ≤ b.height ∨ fails b.height = true) := by
    refine fun b => ⟨fun hb => ?_, fun ⟨hb, hor⟩ => (ht.mem b).mpr ⟨hb, hor.imp_left (by omega)⟩⟩
    obtain ⟨hb', hor⟩ := (ht.mem b).mp hb
    exact ⟨hb', hor.imp_left (hleft b hb)⟩
  have hexact : (∀ b, b ∈ t.1.blocks ↔ b ∈ c.trustedStore.blocks ∧ b.height ≤ height) ↔
      ∀ b ∈ c.trustedStore.blocks, height < b.height →
        b.height < c.latestTrustedBlock.height ∧ fails b.height = false := by
    constructor
    · intro h b hb hlt
      refine ⟨lt_of_not_ge fun hge => ?_, Bool.eq_false_iff.mpr fun hf => ?_⟩
      · exact absurd ((h b).mp ((hmem b).mpr ⟨hb, .inr (.inl hge)⟩)).2 (not_le.mpr hlt)
      · exact absurd ((h b).mp ((hmem b).mpr ⟨hb, .inr (.inr hf)⟩)).2 (not_le.mpr hlt)
    · intro h b
      rw [hmem]
      refine and_congr_right fun hb => ⟨fun hor => le_of_not_gt fun hlt => ?_, .inl⟩
      obtain ⟨hbelow, hdeleted⟩ := h b hb hlt
      rcases hor with hle | hge | hf
      · exact absurd hlt (not_lt.mpr hle)
      · exact absurd hbelow (not_lt.mpr hge)
      · exact absurd (hdeleted.symm.trans hf) Bool.false_ne_true
  have hlatest : c.latestTrustedBlock ∈ c.trustedStore.blocks → c.latestTrustedBlock ∈ t.1.blocks :=
    fun hb => (hmem _).mpr ⟨hb, .inr (.inl le_rfl)⟩
  unfold cleanupAfter
  rw [hrun]
  rcases ht.ordered.restore with ⟨hrestore, hnil⟩ | ⟨b, hb, hrestore, hhighest⟩
  · exact ⟨t.1, none, congrArg some (bind_of_ok hrestore _), hmem, hexact, hlatest, hnil⟩
  · exact ⟨t.1, some b, congrArg some (bind_of_ok hrestore _), hmem, hexact, hlatest, hb, hhighest⟩

end Client

/-- Of the blocks at heights 1, 2 and 3 the second is deleted. -/
theorem cleanup_removes_second : ∃ store latest,
    Client.cleanupAfter
      { thirdClient with trustedStore := ⟨[plainBlock 1 1 [], linkedSecond, trustedThird], 3⟩ }
      (fun _ => false) 4 1 = some (.ok (store, latest)) ∧
    ∀ b, b ∈ store.blocks ↔ b ∈ [plainBlock 1 1 [], linkedSecond, trustedThird] ∧
      (b.height ≤ 1 ∨ 3 ≤ b.height ∨ false = true) := by
  obtain ⟨store, latest, hrun, hmem, -⟩ := Client.cleanup_removes
    (c := { thirdClient with trustedStore := ⟨[plainBlock 1 1 [], linkedSecond, trustedThird], 3⟩ })
    (fun _ => false) ⟨by decide, by decide⟩ (by decide) (by decide : (1 : ℤ) < 3)
    (by decide : 3 < 4)
  exact ⟨store, latest, hrun, hmem⟩

/-- **The latest trusted block stays.** The client is rolled back from height 3 to height 2; nothing is
deleted, and the block at height 3 is trusted. -/
theorem cleanup_keeps_latest :
    Client.cleanupAfter { thirdClient with trustedStore := ⟨[linkedSecond, trustedThird], 2⟩ }
      (fun _ => false) 4 2 = some (.ok (⟨[linkedSecond, trustedThird], 2⟩, some trustedThird)) := by
  decide +kernel

end CometBFT.Light
