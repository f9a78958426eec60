import CometBFT.Store.BlockStore

/-!
# Contiguity of the block store

The store "can be assumed to contain all contiguous blocks between base and height (inclusive)". Here
a node saves, prunes and deletes blocks, its process stops after any durable write, and reads and
evictions move entries in and out of the caches. Beside the store stands what was last saved at each
height; the store is contiguous if that is what it returns for the heights from base to height, and
no block is returned for any other height.

It is not contiguous in every run:

* every flush of `PruneBlocks` but the last one sets the base to a block that it deletes, so that a
  process that stops there comes back with a base that has no block;
* `DeleteLatestBlock` leaves the caches alone, so that the seen commit of a block that was deleted is
  returned for the block saved in its place;
* `DeleteLatestBlock` does not look at the base, so that a block below the base can be saved.

It is in every run in which no process stops at such a flush, nothing is deleted from a store without
blocks, and a block is saved only while no other commit is cached for it.

## Main results

* `contiguous_of_steps` — contiguity at every point of such a run
* `not_contiguous` — two runs in which it is lost
-/

namespace CometBFT.Blockstore

open CometBFT.Types List Option Cache Function

variable {codec : Codec}

/-! ### Runs -/

/-- The loads that go through a cache, and evictions. -/
inductive Touch where
  | loadPart (height : ℤ) (index : ℕ)
  | loadCommit (height : ℤ)
  | loadExtendedCommit (height : ℤ)
  | loadSeenCommit (height : ℤ)
  | evictPart (height : ℤ) (index : ℕ)
  | evictCommit (height : ℤ)
  | evictExtendedCommit (height : ℤ)
  | evictSeenCommit (height : ℤ)

/-- The caches after a load or an eviction. -/
def Caches.touch (db : DB) (c : Caches) : Touch → Caches
  | .loadPart height index => { c with parts := load c.parts db.parts (height, index) }
  | .loadCommit height => { c with commits := load c.commits db.commits height }
  | .loadExtendedCommit height =>
    { c with extCommits := load c.extCommits db.extCommits height }
  | .loadSeenCommit height => { c with seenCommits := load c.seenCommits db.seenCommits height }
  | .evictPart height index => { c with parts := evict c.parts (height, index) }
  | .evictCommit height => { c with commits := evict c.commits height }
  | .evictExtendedCommit height => { c with extCommits := evict c.extCommits height }
  | .evictSeenCommit height => { c with seenCommits := evict c.seenCommits height }

inductive Op where
  /-- `SaveBlock` or `SaveBlockWithExtendedCommit` -/
  | save (sv : Saved)
  | prune (height : ℤ) (state : Sm.State)
  | delete

namespace Op

/-- The store after the call. A save that panics writes nothing and does not return. -/
def call (codec : Codec) (bs : BlockStore) : Op → Option BlockStore
  | save sv => (bs.save codec sv).toOption
  | prune height state => match bs.pruneBlocks height state with
    | .error _ => some bs
    | .ok (bs', _) => some bs'
  | delete => some bs.deleteLatestBlock

/-- The durable writes of the call. -/
def writes (codec : Codec) (bs : BlockStore) : Op → List DB
  | save sv => bs.saveWrites codec sv
  | prune height state => bs.pruneWrites height state
  | delete => [bs.deleteBatch]

/-- What has been saved last at each height. -/
def record (saved : ℤ → Option Saved) : Op → ℤ → Option Saved
  | save sv => update saved sv.block.height (some sv)
  | _ => saved

end Op

/-- The store, and what was saved. -/
structure Node where
  store : BlockStore := {}
  saved : ℤ → Option Saved := fun _ => none

inductive Event where
  | call (op : Op)
  /-- The process stops after a durable write of the call, and the store is opened again. -/
  | crash (op : Op) (write : ℕ)
  | reopen
  | touch (t : Touch)

def Node.next (codec : Codec) (n : Node) : Event → Option Node
  | .call op => (op.call codec n.store).map fun bs => ⟨bs, op.record n.saved⟩
  | .crash op write =>
    ((op.writes codec n.store)[write]?).map fun db => ⟨newBlockStore db, op.record n.saved⟩
  | .reopen => some { n with store := newBlockStore n.store.db }
  | .touch t => some { n with
      store := { n.store with caches := n.store.caches.touch n.store.db t } }

/-! ### Contiguity -/

/-- The store is contiguous. -/
structure Contiguous (codec : Codec) (bs : BlockStore) (saved : ℤ → Option Saved) : Prop where
  inside : ∀ k, bs.base ≤ k → k ≤ bs.height → ∃ sv, saved k = some sv ∧
    bs.loadBlockMeta k = some (sv.meta codec) ∧
    bs.loadBlock codec k = .ok (some (sv.block, sv.meta codec)) ∧
    bs.loadBlockByHash codec (codec.hash sv.block) = .ok (some (sv.block, sv.meta codec)) ∧
    bs.loadSeenCommit k = some sv.seenCommit
  commits : ∀ k, bs.base ≤ k → k < bs.height →
    ∃ sv, saved (k + 1) = some sv ∧ bs.loadBlockCommit k = sv.block.lastCommit
  outside : ∀ k, ¬(bs.base ≤ k ∧ k ≤ bs.height) → bs.loadBlock codec k = .ok none

/-- The parts are those of the block, which is a valid one. -/
structure Saved.WellFormed (codec : Codec) (sv : Saved) : Prop where
  height_pos : 0 < sv.block.height
  hash_ne : codec.hash sv.block ≠ []
  counted : sv.parts.Counted
  decode : codec.decode sv.parts.contents = some sv.block

/-- No other commit is cached for what is saved. -/
structure Saved.Uncached (sv : Saved) (c : Caches) : Prop where
  seen : ∀ commit, c.seenCommits sv.block.height = some commit → commit = sv.seenCommit
  commit : ∀ commit, c.commits (sv.block.height - 1) = some commit →
    some commit = sv.block.lastCommit

/-- What is required of a call. -/
def Op.Allowed (codec : Codec) (bs : BlockStore) : Op → Prop
  | .save sv => sv.WellFormed codec ∧ sv.Uncached bs.caches
  | .prune _ _ => True
  | .delete => 0 < bs.base → bs.base ≤ bs.height

/-- What is required of a step: a process that stops in `PruneBlocks` does so after its last flush. -/
def Node.Allowed (codec : Codec) (n : Node) : Event → Prop
  | .call op => op.Allowed codec n.store
  | .crash op write => op.Allowed codec n.store ∧
    ∀ height state, op = .prune height state → write + 1 = (op.writes codec n.store).length
  | _ => True

/-! ### What is stored -/

/-- What was saved is stored, and no cache says otherwise. -/
structure Stored (codec : Codec) (db : DB) (c : Caches) (k : ℤ) (sv : Saved) : Prop where
  wellFormed : sv.WellFormed codec
  height : sv.block.height = k
  complete : sv.parts.isComplete = true
  meta_eq : db.metas k = some (sv.meta codec)
  hash_eq : db.hashes (codec.hash sv.block) = some k
  parts_eq : ∀ i, i < sv.parts.total.toNat → db.parts (k, i) = sv.parts.parts i
  seen_eq : db.seenCommits k = some sv.seenCommit
  parts_fresh : ∀ i, i < sv.parts.total.toNat → Fresh c.parts db.parts (k, i)
  seen_fresh : Fresh c.seenCommits db.seenCommits k

/-- The commit in the block is stored as the one of the block before. -/
structure CommitStored (db : DB) (c : Caches) (k : ℤ) (sv : Saved) : Prop where
  commit_eq : db.commits (k - 1) = sv.block.lastCommit
  commit_fresh : Fresh c.commits db.commits (k - 1)

variable {db db' : DB} {c c' : Caches} {k : ℤ} {sv : Saved}

/-- A block whose parts have been pruned. -/
def PartsGone (db : DB) (c : Caches) (k : ℤ) : Prop :=
  ∀ m, db.metas k = some m → 0 < m.total ∧ db.parts (k, 0) = none ∧ c.parts (k, 0) = none

theorem Stored.of_eq (hs : Stored codec db c k sv) (hm : db'.metas k = db.metas k)
    (hx : db'.hashes (codec.hash sv.block) = db.hashes (codec.hash sv.block))
    (hp : ∀ i, db'.parts (k, i) = db.parts (k, i))
    (hseen : db'.seenCommits k = db.seenCommits k)
    (hcp : ∀ i, c'.parts (k, i) = c.parts (k, i))
    (hcseen : c'.seenCommits k = c.seenCommits k) : Stored codec db' c' k sv where
  wellFormed := hs.wellFormed
  height := hs.height
  complete := hs.complete
  meta_eq := hm.trans hs.meta_eq
  hash_eq := hx.trans hs.hash_eq
  parts_eq i hi := (hp i).trans (hs.parts_eq i hi)
  seen_eq := hseen.trans hs.seen_eq
  parts_fresh i hi := (hs.parts_fresh i hi).congr (hcp i) (hp i)
  seen_fresh := hs.seen_fresh.congr hcseen hseen

theorem CommitStored.of_eq (hs : CommitStored db c k sv)
    (h : db'.commits (k - 1) = db.commits (k - 1)) (hc : c'.commits (k - 1) = c.commits (k - 1)) :
    CommitStored db' c' k sv :=
  ⟨h.trans hs.commit_eq, hs.commit_fresh.congr hc h⟩

theorem PartsGone.of_eq (hg : PartsGone db c k) (hm : db'.metas k = db.metas k)
    (hp : db'.parts (k, 0) = db.parts (k, 0)) (hcp : c'.parts (k, 0) = c.parts (k, 0)) :
    PartsGone db' c' k := by
  intro m hm'
  obtain ⟨hpos, hnone, hcnone⟩ := hg m (hm.symm.trans hm')
  exact ⟨hpos, hp.trans hnone, hcp.trans hcnone⟩

theorem Saved.WellFormed.total_pos (hw : sv.WellFormed codec) : 0 < sv.parts.total.toNat := by
  rw [Nat.pos_iff_ne_zero]
  intro hzero
  have hdecode := hw.decode
  rw [PartSet.contents, hzero, range_zero, flatMap_nil, codec.decode_nil] at hdecode
  cases hdecode

/-- Two blocks of different heights have different hashes. -/
theorem Saved.WellFormed.hash_ne_of_height_ne (hw : sv.WellFormed codec) {sv' : Saved}
    (hne : sv.block.height ≠ sv'.block.height) : codec.hash sv.block ≠ codec.hash sv'.block :=
  fun heq => hne (codec.hash_height _ _ heq hw.hash_ne)

/-! ### Loading what is stored -/

section Loads

variable {bs : BlockStore}

theorem BlockStore.loadParts_eq {ps : PartSet} {n : ℕ} (hle : n ≤ ps.total.toNat)
    (hsome : ∀ i, i < ps.total.toNat → (ps.parts i).isSome = true)
    (hload : ∀ i, i < ps.total.toNat → bs.loadBlockPart k i = ps.parts i) :
    bs.loadParts k n =
      some ((range n).flatMap fun i => ((ps.parts i).map Part.bytes).getD []) := by
  induction n with
  | zero => rfl
  | succ n ih =>
    obtain ⟨part, hpart⟩ := isSome_iff_exists.mp (hsome n hle)
    rw [loadParts, ih (Nat.le_of_succ_le hle), hload n hle, hpart, range_succ,
      flatMap_append]
    simp [hpart]

theorem BlockStore.loadParts_eq_none {i n : ℕ} (hi : i < n) (hnone : bs.loadBlockPart k i = none) :
    bs.loadParts k n = none := by
  induction n with
  | zero => exact absurd hi (Nat.not_lt_zero i)
  | succ n ih =>
    rw [loadParts]
    obtain rfl | hlt := Nat.lt_succ_iff_lt_or_eq.mp hi |>.symm
    · rw [hnone]
      exact bind_fun_none _
    · rw [ih hlt]
      rfl

theorem Stored.loadBlock (hs : Stored codec bs.db bs.caches k sv) :
    bs.loadBlock codec k = .ok (some (sv.block, sv.meta codec)) := by
  have hparts : bs.loadParts k (sv.meta codec).total = some sv.parts.contents := by
    refine BlockStore.loadParts_eq le_rfl
      (fun i hi => hs.wellFormed.counted.parts_of_isComplete hs.complete hi) fun i hi => ?_
    rw [BlockStore.loadBlockPart, (hs.parts_fresh i hi).read_eq, hs.parts_eq i hi]
  rw [BlockStore.loadBlock, BlockStore.loadBlockMeta, hs.meta_eq]
  simp only [hparts, hs.wellFormed.decode]

theorem PartsGone.loadBlock (hg : PartsGone bs.db bs.caches k) :
    bs.loadBlock codec k = .ok none := by
  rw [BlockStore.loadBlock, BlockStore.loadBlockMeta]
  cases hm : bs.db.metas k with
  | none => rfl
  | some m =>
    obtain ⟨hpos, hnone, hcnone⟩ := hg m hm
    have hpart : bs.loadBlockPart k 0 = none := by
      rw [BlockStore.loadBlockPart, Cache.read, hcnone, hnone]
      rfl
    simp only [BlockStore.loadParts_eq_none hpos hpart]

end Loads

/-! ### The invariant -/

/-- What is kept in every run whose steps are allowed. -/
structure Good (codec : Codec) (bs : BlockStore) (saved : ℤ → Option Saved) : Prop where
  base_eq : bs.db.base = bs.base
  height_eq : bs.db.height = bs.height
  base_nonneg : 0 ≤ bs.base
  height_of_zero : bs.base = 0 → bs.height ≤ 0
  le_height : 0 < bs.base → bs.base ≤ bs.height + 1
  above : ∀ k, bs.base = 0 ∨ bs.height < k → bs.db.metas k = none
  below : ∀ k, k < bs.base → PartsGone bs.db bs.caches k
  stored : 0 < bs.base → ∀ k, bs.base ≤ k → k ≤ bs.height →
    ∃ sv, saved k = some sv ∧ Stored codec bs.db bs.caches k sv ∧
      (bs.base < k → CommitStored bs.db bs.caches k sv)

variable {bs bs' : BlockStore} {saved : ℤ → Option Saved}

theorem Good.contiguous (hg : Good codec bs saved) (hpos : 0 < bs.base) :
    Contiguous codec bs saved where
  inside k hb hk := by
    obtain ⟨sv, hsv, hst, -⟩ := hg.stored hpos k hb hk
    refine ⟨sv, hsv, hst.meta_eq, hst.loadBlock, ?_, ?_⟩
    · rw [BlockStore.loadBlockByHash, hst.hash_eq]
      exact hst.loadBlock
    · rw [BlockStore.loadSeenCommit, hst.seen_fresh.read_eq, hst.seen_eq]
  commits k hb hk := by
    obtain ⟨sv, hsv, -, hcommit⟩ := hg.stored hpos (k + 1) (by omega) (by omega)
    have hst := hcommit (by omega)
    rw [show k = k + 1 - 1 by omega]
    refine ⟨sv, by simpa using hsv, ?_⟩
    rw [BlockStore.loadBlockCommit, hst.commit_fresh.read_eq, hst.commit_eq]
  outside k hk := by
    by_cases hb : k < bs.base
    · exact (hg.below k hb).loadBlock
    · rw [BlockStore.loadBlock, BlockStore.loadBlockMeta, hg.above k (.inr (by omega))]

theorem Good.init : Good codec {} fun _ => none where
  base_eq := rfl
  height_eq := rfl
  base_nonneg := le_rfl
  height_of_zero _ := le_rfl
  le_height h := absurd h (lt_irrefl 0)
  above _ _ := rfl
  below _ _ m hm := by cases hm
  stored h := absurd h (lt_irrefl 0)

/-! ### Reopening, loads and evictions -/

/-- Caches that hold less, or what is on disk, are as good. -/
theorem Good.withCaches (hg : Good codec bs saved)
    (hparts : Within c.parts bs.caches.parts bs.db.parts)
    (hseen : Within c.seenCommits bs.caches.seenCommits bs.db.seenCommits)
    (hcommits : Within c.commits bs.caches.commits bs.db.commits) :
    Good codec { bs with caches := c } saved where
  base_eq := hg.base_eq
  height_eq := hg.height_eq
  base_nonneg := hg.base_nonneg
  height_of_zero := hg.height_of_zero
  le_height := hg.le_height
  above := hg.above
  below k hk m hm := by
    obtain ⟨hpos, hnone, hcnone⟩ := hg.below k hk m hm
    exact ⟨hpos, hnone, hparts.eq_none hcnone hnone⟩
  stored hpos k hb hk := by
    obtain ⟨sv, hsv, hst, hcommit⟩ := hg.stored hpos k hb hk
    refine ⟨sv, hsv, { hst with parts_fresh := ?_, seen_fresh := ?_ }, fun hlt => ?_⟩
    · exact fun i hi => (hst.parts_fresh i hi).within hparts
    · exact hst.seen_fresh.within hseen
    · exact ⟨(hcommit hlt).commit_eq, (hcommit hlt).commit_fresh.within hcommits⟩

theorem Good.reopen (hg : Good codec bs saved) : Good codec (newBlockStore bs.db) saved := by
  have heq : newBlockStore bs.db = { bs with caches := {} } := by
    have hbase : (if 0 < bs.db.height ∧ bs.db.base = 0 then 1 else bs.db.base) = bs.base := by
      rw [hg.base_eq, hg.height_eq, if_neg]
      rintro ⟨hpos, hzero⟩
      exact absurd (hg.height_of_zero hzero) (not_le.mpr hpos)
    rw [newBlockStore, hbase, hg.height_eq]
  rw [heq]
  exact hg.withCaches (.empty _ _) (.empty _ _) (.empty _ _)

theorem Good.touch (hg : Good codec bs saved) (t : Touch) :
    Good codec { bs with caches := bs.caches.touch bs.db t } saved := by
  cases t with
  | loadPart height index => exact hg.withCaches (.load _ _ _) (.refl _ _) (.refl _ _)
  | loadCommit height => exact hg.withCaches (.refl _ _) (.refl _ _) (.load _ _ _)
  | loadSeenCommit height => exact hg.withCaches (.refl _ _) (.load _ _ _) (.refl _ _)
  | evictPart height index => exact hg.withCaches (.evict _ _ _) (.refl _ _) (.refl _ _)
  | evictCommit height => exact hg.withCaches (.refl _ _) (.refl _ _) (.evict _ _ _)
  | evictSeenCommit height => exact hg.withCaches (.refl _ _) (.evict _ _ _) (.refl _ _)
  | _ => exact hg.withCaches (.refl _ _) (.refl _ _) (.refl _ _)

/-! ### Saving -/

theorem BlockStore.checkSave_eq_none (h : bs.checkSave sv = none) :
    (0 < bs.base → sv.block.height = bs.height + 1) ∧ sv.parts.isComplete = true := by
  unfold checkSave at h
  split_ifs at h with _ hcontig hcomplete
  exact ⟨fun hpos => not_not.mp fun hne => hcontig ⟨hpos, hne⟩, by simpa using hcomplete⟩

/-- The block that was saved. -/
theorem stored_saved (hw : sv.WellFormed codec) (hu : sv.Uncached bs.caches)
    (hcheck : bs.checkSave sv = none) :
    Stored codec (bs.saved codec sv).db (bs.saved codec sv).caches sv.block.height sv where
  wellFormed := hw
  height := rfl
  complete := (BlockStore.checkSave_eq_none hcheck).2
  meta_eq := update_self _ _ _
  hash_eq := update_self _ _ _
  parts_eq i hi := setParts_of_lt hi
  seen_eq := update_self _ _ _
  parts_fresh i hi v hv := by
    have hv' : sv.parts.parts i = some v := (setParts_of_lt hi).symm.trans hv
    exact (setParts_of_lt hi).trans hv'
  seen_fresh v hv := by
    rw [hu.seen v hv]
    exact update_self _ _ _

theorem commitStored_saved (hu : sv.Uncached bs.caches) :
    CommitStored (bs.saved codec sv).db (bs.saved codec sv).caches sv.block.height sv where
  commit_eq := update_self _ _ _
  commit_fresh v hv := (update_self _ _ _).trans (hu.commit v hv).symm

theorem Good.save (hg : Good codec bs saved) (hw : sv.WellFormed codec)
    (hu : sv.Uncached bs.caches) (hcheck : bs.checkSave sv = none) :
    Good codec (bs.saved codec sv) (update saved sv.block.height (some sv)) := by
  obtain ⟨hcontig, -⟩ := BlockStore.checkSave_eq_none hcheck
  have hnew := stored_saved hw hu hcheck
  have hnewCommit : CommitStored (bs.saved codec sv).db _ _ sv := commitStored_saved hu
  have hmetas : ∀ k, k ≠ sv.block.height → (bs.saved codec sv).db.metas k = bs.db.metas k :=
    fun k hk => update_of_ne hk _ _
  by_cases hzero : bs.base = 0
  · -- the first block
    have hbase : (bs.saved codec sv).base = sv.block.height := if_pos hzero
    have hnone : ∀ k, k ≠ sv.block.height → (bs.saved codec sv).db.metas k = none :=
      fun k hk => (hmetas k hk).trans (hg.above k (.inl hzero))
    refine ⟨rfl, rfl, ?_, ?_, ?_, ?_, ?_, ?_⟩
    · exact hbase ▸ hw.height_pos.le
    · exact fun h0 => absurd (hbase.symm.trans h0) hw.height_pos.ne'
    · exact fun _ => hbase ▸ (lt_add_one _).le
    · rintro k (h0 | hk)
      · exact absurd (hbase.symm.trans h0) hw.height_pos.ne'
      · exact hnone k hk.ne'
    · intro k hk m hm
      rw [hbase] at hk
      rw [hnone k hk.ne] at hm
      cases hm
    · intro _ k hb hk
      rw [hbase] at hb
      obtain rfl : k = sv.block.height := le_antisymm hk hb
      refine ⟨sv, update_self _ _ _, hnew, fun _ => hnewCommit⟩
  · have hpos : 0 < bs.base := lt_of_le_of_ne hg.base_nonneg (Ne.symm hzero)
    have hheight := hcontig hpos
    have hle := hg.le_height hpos
    have hbase : (bs.saved codec sv).base = bs.base := if_neg hzero
    refine ⟨rfl, rfl, ?_, ?_, ?_, ?_, ?_, ?_⟩
    · exact hbase ▸ hpos.le
    · exact fun h0 => absurd (hbase.symm.trans h0) hzero
    · rw [hbase]
      intro _
      show bs.base ≤ sv.block.height + 1
      omega
    · rintro k (h0 | hk)
      · exact absurd (hbase.symm.trans h0) hzero
      · have hk' : sv.block.height < k := hk
        rw [hmetas k hk'.ne']
        exact hg.above k (.inr (by omega))
    · intro k hk
      rw [hbase] at hk
      exact (hg.below k hk).of_eq (hmetas k (by omega)) (setParts_of_ne (by omega))
        (setParts_of_ne (by omega))
    · intro _ k hb hk
      rw [hbase] at hb ⊢
      obtain rfl | hlt := eq_or_lt_of_le (show k ≤ sv.block.height from hk)
      · exact ⟨sv, update_self _ _ _, hnew, fun _ => hnewCommit⟩
      · obtain ⟨sv', hsv', hst, hcommit⟩ := hg.stored hpos k hb (by omega)
        refine ⟨sv', (update_of_ne hlt.ne _ _).trans hsv', ?_, fun hbk => ?_⟩
        · have hhash : codec.hash sv'.block ≠ codec.hash sv.block :=
            hst.wellFormed.hash_ne_of_height_ne (by rw [hst.height]; exact hlt.ne)
          exact hst.of_eq (hmetas k hlt.ne) (update_of_ne hhash _ _)
            (fun _ => setParts_of_ne hlt.ne) (update_of_ne hlt.ne _ _)
            (fun _ => setParts_of_ne hlt.ne) rfl
        · exact (hcommit hbk).of_eq (update_of_ne (by omega) _ _) rfl

/-- Parts of a block above the height make no difference. -/
theorem Good.putParts (hg : Good codec bs saved) (hcheck : bs.checkSave sv = none) (n : ℕ) :
    Good codec { bs with db := bs.db.putParts sv n } (update saved sv.block.height (some sv)) := by
  obtain ⟨hcontig, -⟩ := BlockStore.checkSave_eq_none hcheck
  refine ⟨hg.base_eq, hg.height_eq, hg.base_nonneg, hg.height_of_zero, hg.le_height, hg.above, ?_, ?_⟩
  · intro k hk
    by_cases hzero : bs.base = 0
    · intro m hm
      rw [show (bs.db.putParts sv n).metas k = none from hg.above k (.inl hzero)] at hm
      cases hm
    · have hpos : 0 < bs.base := lt_of_le_of_ne hg.base_nonneg (Ne.symm hzero)
      have hheight := hcontig hpos
      have hle := hg.le_height hpos
      have hk' : k < bs.base := hk
      exact (hg.below k hk).of_eq rfl (setParts_of_ne (by omega)) rfl
  · intro hpos k hb hk
    have hheight := hcontig hpos
    have hk' : k ≤ bs.height := hk
    have hne : k ≠ sv.block.height := by omega
    obtain ⟨sv', hsv', hst, hcommit⟩ := hg.stored hpos k hb hk
    exact ⟨sv', (update_of_ne hne _ _).trans hsv',
      hst.of_eq rfl rfl (fun _ => setParts_of_ne hne) rfl (fun _ => rfl) rfl,
      fun hbk => (hcommit hbk).of_eq rfl rfl⟩

/-! ### Deleting -/

theorem Good.delete (hg : Good codec bs saved) (hle : 0 < bs.base → bs.base ≤ bs.height) :
    Good codec bs.deleteLatestBlock saved := by
  have hmetas : ∀ k, bs.deleteBatch.metas k = if k = bs.height then none else bs.db.metas k :=
    fun k => update_apply _ _ _ _
  have hparts : ∀ k i, k ≠ bs.height → bs.deleteBatch.parts (k, i) = bs.db.parts (k, i) :=
    fun k i hk => DB.dropParts_parts_of_ne hk
  refine ⟨rfl, rfl, hg.base_nonneg, ?_, ?_, ?_, ?_, ?_⟩
  · intro hzero
    have := hg.height_of_zero hzero
    show bs.height - 1 ≤ 0
    omega
  · intro hpos
    have := hle hpos
    show bs.base ≤ bs.height - 1 + 1
    omega
  · intro k hk
    show bs.deleteBatch.metas k = none
    rw [hmetas]
    split_ifs with heq
    · rfl
    · refine hg.above k (hk.imp_right fun h => ?_)
      have : bs.height - 1 < k := h
      omega
  · intro k hk
    by_cases hzero : bs.base = 0
    · intro m hm
      have hm' : bs.deleteBatch.metas k = some m := hm
      rw [hmetas, hg.above k (.inl hzero), ite_self] at hm'
      cases hm'
    · have hpos : 0 < bs.base := lt_of_le_of_ne hg.base_nonneg (Ne.symm hzero)
      have hk' : k < bs.base := hk
      have hne : k ≠ bs.height := by
        have := hle hpos
        omega
      exact (hg.below k hk).of_eq ((hmetas k).trans (if_neg hne)) (hparts k 0 hne) rfl
  · intro hpos k hb hk
    have hk' : k ≤ bs.height - 1 := hk
    have hne : k ≠ bs.height := by omega
    obtain ⟨sv, hsv, hst, hcommit⟩ := hg.stored hpos k hb (by omega)
    refine ⟨sv, hsv, hst.of_eq ((hmetas k).trans (if_neg hne)) ?_ (fun i => hparts k i hne) ?_
      (fun _ => rfl) rfl, fun hbk => (hcommit hbk).of_eq ?_ rfl⟩
    · -- only the hash of the deleted block goes
      obtain ⟨last, -, hlast, -⟩ := hg.stored hpos bs.height (hle hpos) le_rfl
      have hhash : codec.hash sv.block ≠ codec.hash last.block :=
        hst.wellFormed.hash_ne_of_height_ne (by rw [hst.height, hlast.height]; exact hne)
      show (bs.db.dropParts bs.height).hashes _ = _
      rw [DB.dropParts_of_some hlast.meta_eq]
      exact update_of_ne hhash _ _
    · exact update_of_ne hne _ _
    · exact update_of_ne (by omega) _ _

/-! ### Pruning -/

theorem BlockStore.checkPrune_eq_none {height : ℤ} (h : bs.checkPrune height = none) :
    0 < height ∧ height ≤ bs.height ∧ bs.base ≤ height := by
  unfold checkPrune at h
  split_ifs at h
  omega

theorem Good.prune (hg : Good codec bs saved) {height : ℤ} (state : Sm.State)
    (hcheck : bs.checkPrune height = none) : Good codec (bs.pruned height state) saved := by
  obtain ⟨hheight, hle, hbase⟩ := BlockStore.checkPrune_eq_none hcheck
  have hpos : 0 < bs.base := by
    refine lt_of_le_of_ne hg.base_nonneg fun hzero => ?_
    have := hg.height_of_zero hzero.symm
    omega
  have hp := bs.pruning_spec state hbase
  have hgoneMeta : ∀ k m, bs.base ≤ k → k < height → bs.db.metas k = some m →
      ∃ sv, Stored codec bs.db bs.caches k sv ∧ m = sv.meta codec := by
    intro k m hb hk hm
    obtain ⟨sv, -, hst, -⟩ := hg.stored hpos k hb (by omega)
    exact ⟨sv, hst, some.inj (hm.symm.trans hst.meta_eq)⟩
  refine ⟨rfl, rfl, hheight.le, ?_, ?_, ?_, ?_, ?_⟩
  · exact fun hzero => absurd hzero hheight.ne'
  · intro _
    show height ≤ bs.height + 1
    omega
  · rintro k (hzero | hk)
    · exact absurd hzero hheight.ne'
    · have hk' : bs.height < k := hk
      exact (hp.metas_of_le k (by omega)).trans (hg.above k (.inr hk'))
  · intro k hk
    have hk' : k < height := hk
    by_cases hb : k < bs.base
    · exact (hg.below k hb).of_eq (hp.metas_of_lt k hb) (hp.parts_of k 0 (.of_not (by omega)))
        (hp.cachedParts_of k 0 (.of_not (by omega)))
    · intro m hm
      have hm₀ := hp.metas_sub k m hm
      obtain ⟨sv, hst, rfl⟩ := hgoneMeta k m (by omega) hk' hm₀
      have htotal := hst.wellFormed.total_pos
      obtain ⟨hgone, -⟩ := hp.gone k _ (by omega) hk' hm₀
      exact ⟨htotal, hgone 0 htotal⟩
  · intro _ k hb hk
    have hb' : height ≤ k := hb
    obtain ⟨sv, hsv, hst, hcommit⟩ := hg.stored hpos k (by omega) hk
    have hout : Passed bs.db bs.base height k := .of_not (by omega)
    refine ⟨sv, hsv, hst.of_eq (hp.metas_of_le k hb') (hp.hashes_of _ fun k' m hbk' hk' hm => ?_)
      (fun i => hp.parts_of k i hout) (hp.seen_of k hout) (fun i => hp.cachedParts_of k i hout)
      (hp.cachedSeen_of k hout), fun hbk => ?_⟩
    · obtain ⟨sv', hst', rfl⟩ := hgoneMeta k' m hbk' hk' hm
      exact hst'.wellFormed.hash_ne_of_height_ne (by rw [hst'.height, hst.height]; omega)
    · have hbk' : height < k := hbk
      have hprev : Passed bs.db bs.base height (k - 1) := .of_not (by omega)
      exact (hcommit (by omega)).of_eq (hp.commits_of _ hprev) (hp.cachedCommits_of _ hprev)

/-- The last flush. -/
theorem BlockStore.pruneWrites_last {height : ℤ} {state : Sm.State} {write : ℕ} {db : DB}
    (hlast : write + 1 = (bs.pruneWrites height state).length)
    (hdb : (bs.pruneWrites height state)[write]? = some db) :
    bs.checkPrune height = none ∧ db = (bs.pruned height state).db := by
  unfold pruneWrites at hlast hdb
  cases hcheck : bs.checkPrune height with
  | some err =>
    rw [hcheck] at hdb
    cases hdb
  | none =>
    rw [hcheck] at hlast hdb
    dsimp only at hlast hdb
    refine ⟨rfl, ?_⟩
    obtain rfl : write = (bs.pruning height state).flushed.length - 1 := by omega
    rw [← getLast?_eq_getElem?] at hdb
    rw [show (bs.pruning height state).flushed = _ ++ [(bs.pruned height state).db] from rfl,
      getLast?_concat] at hdb
    exact (some.inj hdb).symm

/-! ### Runs -/

theorem Op.call_save (hcheck : bs.checkSave sv = none) :
    (Op.save sv).call codec bs = some (bs.saved codec sv) := by
  simp only [Op.call, BlockStore.save, hcheck, Except.toOption]

theorem Good.call (hg : Good codec bs saved) {op : Op} (hallowed : op.Allowed codec bs)
    (h : op.call codec bs = some bs') : Good codec bs' (op.record saved) := by
  cases op with
  | save sv =>
    cases hcheck : bs.checkSave sv with
    | some err =>
      simp only [Op.call, BlockStore.save, hcheck] at h
      cases h
    | none =>
      rw [Op.call_save hcheck] at h
      obtain rfl := some.inj h
      exact hg.save hallowed.1 hallowed.2 hcheck
  | prune height state =>
    cases hcheck : bs.checkPrune height with
    | some err =>
      simp only [Op.call, BlockStore.pruneBlocks, hcheck] at h
      obtain rfl := some.inj h
      exact hg
    | none =>
      simp only [Op.call, BlockStore.pruneBlocks, hcheck] at h
      obtain rfl := some.inj h
      exact hg.prune state hcheck
  | delete =>
    obtain rfl := some.inj h
    exact hg.delete hallowed

theorem Good.crash (hg : Good codec bs saved) {op : Op} (hallowed : op.Allowed codec bs) {write : ℕ}
    {db : DB} (hlast : ∀ height state, op = .prune height state →
      write + 1 = (op.writes codec bs).length)
    (h : (op.writes codec bs)[write]? = some db) :
    Good codec (newBlockStore db) (op.record saved) := by
  cases op with
  | save sv =>
    have hmem : db ∈ bs.saveWrites codec sv := mem_of_getElem? h
    unfold BlockStore.saveWrites at hmem
    cases hcheck : bs.checkSave sv with
    | some err =>
      rw [hcheck] at hmem
      cases hmem
    | none =>
      rw [hcheck] at hmem
      rcases mem_append.mp hmem with hparts | hbatch
      · split_ifs at hparts
        · cases hparts
        · obtain ⟨i, -, rfl⟩ := mem_map.mp hparts
          exact (hg.putParts hcheck (i + 1)).reopen
      · obtain rfl := mem_singleton.mp hbatch
        exact (hg.save hallowed.1 hallowed.2 hcheck).reopen
  | prune height state =>
    obtain ⟨hcheck, rfl⟩ := BlockStore.pruneWrites_last (hlast height state rfl) h
    exact (hg.prune state hcheck).reopen
  | delete =>
    obtain rfl := mem_singleton.mp (mem_of_getElem? h)
    exact (hg.delete hallowed).reopen

theorem Good.next {n n' : Node} {e : Event} (hg : Good codec n.store n.saved)
    (hallowed : n.Allowed codec e) (h : n.next codec e = some n') :
    Good codec n'.store n'.saved := by
  cases e with
  | call op =>
    obtain ⟨bs, hbs, rfl⟩ := map_eq_some_iff.mp h
    exact hg.call hallowed hbs
  | crash op write =>
    obtain ⟨db, hdb, rfl⟩ := map_eq_some_iff.mp h
    exact hg.crash hallowed.1 hallowed.2 hdb
  | reopen =>
    obtain rfl := some.inj h
    exact hg.reopen
  | touch t =>
    obtain rfl := some.inj h
    exact hg.touch t

/-- **Contiguity**: at every point of a run whose steps are allowed, a store with blocks returns what
was saved from base to height, and no block elsewhere. -/
theorem contiguous_of_steps {n : Node}
    (hrun : Steps (Node.next codec) (Node.Allowed codec) {} n) (hpos : 0 < n.store.base) :
    Contiguous codec n.store n.saved := by
  have hgood : Good codec n.store n.saved :=
    hrun.invariant Good.init
      fun _ _ _ hg hallowed hn => hg.next hallowed hn
  exact hgood.contiguous hpos

/-! ### Runs of a small store -/

/-- Blocks that differ in their height alone, one byte long. -/
def blockAt (height : ℤ) : Block where
  version := ⟨blockProtocol, 0⟩
  chainID := "chain"
  height := height
  time := 0
  lastBlockID := ⟨[], ⟨0, []⟩⟩
  lastCommitHash := []
  dataHash := []
  validatorsHash := [1]
  nextValidatorsHash := []
  consensusHash := []
  appHash := []
  lastResultsHash := []
  evidenceHash := []
  proposerAddress := []
  txs := []
  evidence := []
  lastCommit := some ⟨height - 1, 0, ⟨[], ⟨0, []⟩⟩, []⟩

theorem height_of_replicate (b b' : Block)
    (heq : replicate b.height.toNat (0 : UInt8) = replicate b'.height.toNat 0)
    (hne : replicate b.height.toNat (0 : UInt8) ≠ []) : b.height = b'.height := by
  have hlen : b.height.toNat = b'.height.toNat := by
    simpa using congrArg length heq
  have hpos : b.height.toNat ≠ 0 := fun h0 => hne (by rw [h0, replicate_zero])
  omega

def unaryCodec : Codec where
  hash b := replicate b.height.toNat 0
  size _ := 1
  decode
    | [n] => some (blockAt n.toNat)
    | _ => none
  decode_nil := rfl
  hash_height := height_of_replicate

/-- The block of this height, seen to be committed in this round. -/
def saveAt (height : ℕ) (round : ℤ) : Saved where
  block := blockAt height
  parts := {
    total := 1
    hash := []
    parts := fun i => if i = 0 then some ⟨0, [height.toUInt8], ⟨1, 0, [], []⟩⟩ else none
    count := 1
    byteSize := 1 }
  seenCommit := ⟨height, round, ⟨[], ⟨0, []⟩⟩, []⟩

theorem wellFormed_saveAt {height : ℕ} (round : ℤ) (hpos : 0 < height) (hlt : height < 256) :
    (saveAt height round).WellFormed unaryCodec where
  height_pos := Int.natCast_pos.mpr hpos
  hash_ne := by
    show replicate (height : ℤ).toNat 0 ≠ []
    simpa using hpos.ne'
  counted := by
    show 1 = _
    rfl
  decode := by
    show some (blockAt (height.toUInt8.toNat : ℕ)) = some (blockAt height)
    rw [Nat.toUInt8_eq, UInt8.toNat_ofNat', Nat.mod_eq_of_lt hlt]

/-- A block is deleted and another one saved in its place, in a store that has its seen commit
cached no more. -/
theorem contiguous_resaved :
    Contiguous unaryCodec
      ((((({} : BlockStore).saved unaryCodec (saveAt 1 0)).saved unaryCodec
        (saveAt 2 0)).deleteLatestBlock).saved unaryCodec (saveAt 2 1))
      (update (update (update (fun _ => none) 1 (some (saveAt 1 0))) 2 (some (saveAt 2 0))) 2
        (some (saveAt 2 1))) := by
  have huncached : ∀ sv : Saved, sv.Uncached {} := fun sv => ⟨nofun, nofun⟩
  refine contiguous_of_steps (n := ⟨_, _⟩) (Steps.tail (a := .call (.save (saveAt 2 1)))
    (Steps.tail (a := .call .delete) (Steps.tail (a := .call (.save (saveAt 2 0)))
      (Steps.tail (a := .call (.save (saveAt 1 0))) (.refl _) ?_ rfl) ?_ rfl) ?_ rfl) ?_ rfl) ?_
  · exact ⟨wellFormed_saveAt 0 (by decide) (by decide), huncached _⟩
  · exact ⟨wellFormed_saveAt 0 (by decide) (by decide), ⟨nofun, nofun⟩⟩
  · exact fun _ => by decide
  · exact ⟨wellFormed_saveAt 1 (by decide) (by decide), ⟨nofun, nofun⟩⟩
  · decide

/-- The seen commit of a deleted block is returned for the one saved in its place; and a block is
saved below the base. -/
theorem not_contiguous :
    (∃ n, Reachable (Node.next unaryCodec) {} n ∧ 0 < n.store.base ∧
      n.store.base ≤ n.store.height ∧ ¬Contiguous unaryCodec n.store n.saved) ∧
    ∃ n, Reachable (Node.next unaryCodec) {} n ∧ 0 < n.store.base ∧
      n.store.base ≤ n.store.height ∧ n.store.base = 5 ∧
        n.store.loadBlock unaryCodec 4 ≠ .ok none := by
  constructor
  · have hrun : (exec (Node.next unaryCodec) {} [.call (.save (saveAt 1 0)), .call (.save (saveAt 2 0)),
        .touch (.loadSeenCommit 2), .call .delete, .call (.save (saveAt 2 1))]).map
        (fun n => (n.store.base, n.store.height, n.store.loadSeenCommit 2,
          (n.saved 2).map Saved.seenCommit)) =
        some (1, 2, some (saveAt 2 0).seenCommit, some (saveAt 2 1).seenCommit) := by
      decide +kernel
    obtain ⟨n, hn, heq⟩ := map_eq_some_iff.mp hrun
    simp only [Prod.mk.injEq] at heq
    obtain ⟨hbase, hheight, hload, hsaved⟩ := heq
    refine ⟨n, steps_of_exec hn, by omega, by omega, fun hc => ?_⟩
    obtain ⟨sv, hsv, -, -, -, hseen⟩ := hc.inside 2 (by omega) (by omega)
    rw [hsv] at hsaved
    rw [hload] at hseen
    have hsame : (saveAt 2 0).seenCommit = (saveAt 2 1).seenCommit :=
      (some.inj hseen).trans (some.inj hsaved)
    exact absurd hsame (by decide)
  · have hrun : (exec (Node.next unaryCodec) {} [.call (.save (saveAt 5 0)), .call .delete,
        .call .delete, .call (.save (saveAt 4 0)), .call (.save (saveAt 5 0))]).map
        (fun n => (n.store.base, n.store.height, (n.store.loadBlock unaryCodec 4).toOption)) =
        some (5, 5, some (some (blockAt 4, (saveAt 4 0).meta unaryCodec))) := by
      decide +kernel
    obtain ⟨n, hn, heq⟩ := map_eq_some_iff.mp hrun
    simp only [Prod.mk.injEq] at heq
    obtain ⟨hbase, hheight, hload⟩ := heq
    refine ⟨n, steps_of_exec hn, by omega, by omega, hbase, fun hok => ?_⟩
    rw [hok] at hload
    cases hload

end CometBFT.Blockstore
