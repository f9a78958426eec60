import CometBFT.Evidence.Verify
import CometBFT.Types.PartSet

/-!
# The block store

The model of `store/store.go`: block metas, parts, commits, extended commits and seen commits in a
database, each kind of record under keys of its own, with caches in front of four of them. A batch is
written atomically, together with the new base and height; the parts of a large block are written
one by one before it.

Records are values: what is written is read back, since callers only save blocks and commits that are
valid. A cache entry can be dropped at any time, which covers what an LRU cache drops.

What a call leaves behind if the process stops inside it is a list of databases, one for each durable
write, the last of them after the last write. `newBlockStore` on one of them is what the next start
sees.
-/

namespace CometBFT.Blockstore

open CometBFT.Types Function

structure BlockMeta where
  blockID : BlockID
  blockSize : ℤ
  header : Header
  numTxs : ℕ
deriving DecidableEq, Repr

/-- How many parts the block has. -/
def BlockMeta.total (m : BlockMeta) : ℕ := m.blockID.partSetHeader.total.toNat

/-- Hashing and decoding of blocks. Nothing is not a block, and blocks of different heights do not
collide. -/
structure Codec where
  hash : Block → Bytes
  size : Block → ℤ
  decode : Bytes → Option Block
  decode_nil : decode [] = none
  hash_height : ∀ b b', hash b = hash b' → hash b ≠ [] → b.height = b'.height

/-! ### Records -/

structure DB where
  metas : ℤ → Option BlockMeta := fun _ => none
  hashes : Bytes → Option ℤ := fun _ => none
  parts : ℤ × ℕ → Option Part := fun _ => none
  commits : ℤ → Option Commit := fun _ => none
  extCommits : ℤ → Option ExtendedCommit := fun _ => none
  seenCommits : ℤ → Option Commit := fun _ => none
  /-- `BlockStoreState` -/
  base : ℤ := 0
  height : ℤ := 0

structure Caches where
  seenCommits : ℤ → Option Commit := fun _ => none
  commits : ℤ → Option Commit := fun _ => none
  extCommits : ℤ → Option ExtendedCommit := fun _ => none
  parts : ℤ × ℕ → Option Part := fun _ => none

structure BlockStore where
  db : DB := {}
  base : ℤ := 0
  height : ℤ := 0
  caches : Caches := {}

/-- `NewBlockStore`, with `LoadBlockStoreState`. -/
def newBlockStore (db : DB) : BlockStore where
  db := db
  base := if 0 < db.height ∧ db.base = 0 then 1 else db.base
  height := db.height

/-- The parts of one height, from index zero up to a bound, replaced. -/
def setParts (parts : ℤ × ℕ → Option Part) (height : ℤ) (n : ℕ) (new : ℕ → Option Part) :
    ℤ × ℕ → Option Part :=
  fun k => if k.1 = height ∧ k.2 < n then new k.2 else parts k

variable {k height : ℤ} {i n : ℕ} {new : ℕ → Option Part} {parts : ℤ × ℕ → Option Part} {db : DB}

theorem setParts_of_lt (h : i < n) :
    setParts parts height n new (height, i) = new i := if_pos ⟨rfl, h⟩

theorem setParts_of_ne (h : k ≠ height) : setParts parts height n new (k, i) = parts (k, i) :=
  if_neg fun hk => h hk.1

theorem setParts_of_le (h : n ≤ i) : setParts parts height n new (k, i) = parts (k, i) :=
  if_neg fun hk => absurd hk.2 (not_lt.mpr h)

namespace BlockStore

variable (bs : BlockStore)

/-! ### Loading -/

def loadBlockMeta (height : ℤ) : Option BlockMeta := bs.db.metas height

def loadBlockPart (height : ℤ) (index : ℕ) : Option Part :=
  Cache.read bs.caches.parts bs.db.parts (height, index)

def loadBlockCommit (height : ℤ) : Option Commit :=
  Cache.read bs.caches.commits bs.db.commits height

def loadBlockExtendedCommit (height : ℤ) : Option ExtendedCommit :=
  Cache.read bs.caches.extCommits bs.db.extCommits height

def loadSeenCommit (height : ℤ) : Option Commit :=
  Cache.read bs.caches.seenCommits bs.db.seenCommits height

/-- The bytes of the first `n` parts; there are none if a part is missing. -/
def loadParts (height : ℤ) : ℕ → Option Bytes
  | 0 => some []
  | n + 1 => (loadParts height n).bind fun buf =>
    (bs.loadBlockPart height n).map fun part => buf ++ part.bytes

/-- The panic of a block that cannot be decoded. -/
inductive LoadPanic where
  | readingBlock
deriving DecidableEq, Repr

def loadBlock (codec : Codec) (height : ℤ) : Except LoadPanic (Option (Block × BlockMeta)) :=
  match bs.loadBlockMeta height with
  | none => .ok none
  | some blockMeta =>
    match bs.loadParts height blockMeta.total with
    | none => .ok none
    | some buf =>
      match codec.decode buf with
      | none => .error .readingBlock
      | some block => .ok (some (block, blockMeta))

def loadBlockByHash (codec : Codec) (hash : Bytes) :
    Except LoadPanic (Option (Block × BlockMeta)) :=
  match bs.db.hashes hash with
  | none => .ok none
  | some height => bs.loadBlock codec height

end BlockStore

/-! ### Saving -/

/-- The arguments of a save. `SaveBlock` has no extended commit; `SaveBlockWithExtendedCommit` has
one, and saves the commit in it as the seen commit. -/
structure Saved where
  block : Block
  parts : PartSet
  seenCommit : Commit
  extCommit : Option ExtendedCommit := none
  seen_of_ext : ∀ ec, extCommit = some ec → seenCommit = ec.toCommit := by nofun

/-- `NewBlockMeta`. -/
def Saved.meta (codec : Codec) (sv : Saved) : BlockMeta where
  blockID := ⟨codec.hash sv.block, sv.parts.header⟩
  blockSize := codec.size sv.block
  header := sv.block.toHeader
  numTxs := sv.block.txs.length

inductive SaveError where
  | extensions
  | notContiguous (wanted got : ℤ)
  | incompleteParts
  | differentHeight (block commit : ℤ)
deriving DecidableEq, Repr

def maxBlockPartsToBatch : ℕ := 10

/-- The parts that are written before the batch. -/
def DB.putParts (db : DB) (sv : Saved) (n : ℕ) : DB :=
  { db with parts := setParts db.parts sv.block.height n sv.parts.parts }

/-- The batch of a block, with the parts. -/
def DB.putBlock (codec : Codec) (db : DB) (sv : Saved) (base : ℤ) : DB where
  metas := update db.metas sv.block.height (some (sv.meta codec))
  hashes := update db.hashes (codec.hash sv.block) (some sv.block.height)
  parts := setParts db.parts sv.block.height sv.parts.total.toNat sv.parts.parts
  commits := update db.commits (sv.block.height - 1) sv.block.lastCommit
  extCommits := match sv.extCommit with
    | none => db.extCommits
    | some ec => update db.extCommits sv.block.height (some ec)
  seenCommits := update db.seenCommits sv.block.height (some sv.seenCommit)
  base := base
  height := sv.block.height

/-- The deletions of `DeleteLatestBlock` that need the meta of the block. -/
def DB.dropParts (db : DB) (height : ℤ) : DB :=
  match db.metas height with
  | none => db
  | some m => { db with
      hashes := update db.hashes m.blockID.hash none
      parts := setParts db.parts height m.total fun _ => none }

theorem DB.dropParts_of_none (h : db.metas height = none) :
    db.dropParts height = db := by
  rw [dropParts, h]

theorem DB.dropParts_of_some {m : BlockMeta} (h : db.metas height = some m) :
    db.dropParts height = { db with
      hashes := update db.hashes m.blockID.hash none
      parts := setParts db.parts height m.total fun _ => none } := by
  rw [dropParts, h]

theorem DB.dropParts_parts_of_ne (hk : k ≠ height) :
    (db.dropParts height).parts (k, i) = db.parts (k, i) := by
  cases h : db.metas height with
  | none => rw [dropParts_of_none h]
  | some m =>
    rw [dropParts_of_some h]
    simp only [setParts_of_ne hk]

namespace BlockStore

variable (bs : BlockStore)

/-- The checks of `SaveBlockWithExtendedCommit` and `saveBlockToBatch`, each of which panics. -/
def checkSave (sv : Saved) : Option SaveError :=
  if (sv.extCommit.map fun ec => ec.extendedSignatures.all (·.ensureExtension true)) = some false then
    some .extensions
  else if 0 < bs.base ∧ sv.block.height ≠ bs.height + 1 then
    some (.notContiguous (bs.height + 1) sv.block.height)
  else if !sv.parts.isComplete then some .incompleteParts
  else if sv.block.height ≠ sv.seenCommit.height then
    some (.differentHeight sv.block.height sv.seenCommit.height)
  else none

/-- The base after a block of this height is saved. -/
def baseAfter (height : ℤ) : ℤ := if bs.base = 0 then height else bs.base

/-- The store after `SaveBlock` or `SaveBlockWithExtendedCommit`. -/
def saved (codec : Codec) (sv : Saved) : BlockStore where
  db := bs.db.putBlock codec sv (bs.baseAfter sv.block.height)
  base := bs.baseAfter sv.block.height
  height := sv.block.height
  caches := { bs.caches with
    parts := setParts bs.caches.parts sv.block.height sv.parts.total.toNat sv.parts.parts }

def save (codec : Codec) (sv : Saved) : Except SaveError BlockStore :=
  match bs.checkSave sv with
  | some err => .error err
  | none => .ok (bs.saved codec sv)

/-- The durable writes of a save. -/
def saveWrites (codec : Codec) (sv : Saved) : List DB :=
  match bs.checkSave sv with
  | some _ => []
  | none =>
    (if sv.parts.count ≤ maxBlockPartsToBatch then []
      else (List.range sv.parts.total.toNat).map fun i => bs.db.putParts sv (i + 1)) ++
    [(bs.saved codec sv).db]

/-! ### Deleting -/

/-- The batch of `DeleteLatestBlock`. -/
def deleteBatch : DB :=
  let target := bs.height
  { bs.db.dropParts target with
    commits := update bs.db.commits target none
    seenCommits := update bs.db.seenCommits target none
    metas := update bs.db.metas target none
    base := bs.base
    height := target - 1 }

def deleteLatestBlock : BlockStore :=
  { bs with db := bs.deleteBatch, height := bs.height - 1 }

end BlockStore

/-! ### Pruning -/

/-- Where the loop of `PruneBlocks` stands: what is durable, what will be once the batch is written,
and the flushes so far. -/
structure Pruning where
  db : DB
  batch : DB
  caches : Caches
  pruned : ℕ := 0
  evidencePoint : ℤ
  flushed : List DB := []

namespace Pruning

/-- `flush`, with the new base. -/
def flush (st : Pruning) (base height : ℤ) : Pruning :=
  let db := { st.batch with base, height }
  { st with db, batch := db, flushed := st.flushed ++ [db] }

/-- The deletions for one block. -/
def deleteBlock (st : Pruning) (h : ℤ) (m : BlockMeta) : Pruning :=
  let batch := if h < st.evidencePoint then
      { st.batch with metas := update st.batch.metas h none, commits := update st.batch.commits h none }
    else st.batch
  let caches := if h < st.evidencePoint then
      { st.caches with commits := Cache.evict st.caches.commits h }
    else st.caches
  { st with
    batch := { batch with
      hashes := update batch.hashes m.blockID.hash none
      seenCommits := update batch.seenCommits h none
      parts := setParts batch.parts h m.total fun _ => none }
    caches := { caches with
      seenCommits := Cache.evict caches.seenCommits h
      parts := setParts caches.parts h m.total fun _ => none }
    pruned := st.pruned + 1 }

/-- The first block that evidence can still be about stops the deletion of metas and commits. -/
def meetEvidence (st : Pruning) (state : Sm.State) (height h : ℤ) (m : BlockMeta) : Pruning :=
  if st.evidencePoint = height ∧ !Evpool.isEvidenceExpired state.lastBlockHeight state.lastBlockTime h
      m.header.time state.consensusParams.evidence then
    { st with evidencePoint := h }
  else st

/-- One round of the loop. -/
def step (state : Sm.State) (bsHeight height h : ℤ) (st : Pruning) : Pruning :=
  match st.db.metas h with
  | none => st
  | some m =>
    let st := (st.meetEvidence state height h m).deleteBlock h m
    if st.pruned % 1000 = 0 ∧ 0 < st.pruned then st.flush h bsHeight else st

/-- The loop over `n` heights. -/
def loop (state : Sm.State) (bsHeight height : ℤ) : ℕ → ℤ → Pruning → Pruning
  | 0, _, st => st
  | n + 1, h, st => loop state bsHeight height n (h + 1) (step state bsHeight height h st)

end Pruning

inductive PruneError where
  | notPositive
  | beyondHeight (height : ℤ)
  | belowBase (height base : ℤ)
deriving DecidableEq, Repr

namespace BlockStore

variable (bs : BlockStore)

def checkPrune (height : ℤ) : Option PruneError :=
  if height ≤ 0 then some .notPositive
  else if height > bs.height then some (.beyondHeight bs.height)
  else if height < bs.base then some (.belowBase height bs.base)
  else none

/-- The loop of `PruneBlocks` and its last flush. -/
def pruning (height : ℤ) (state : Sm.State) : Pruning :=
  (Pruning.loop state bs.height height (height - bs.base).toNat bs.base
    { db := bs.db, batch := bs.db, caches := bs.caches, evidencePoint := height }).flush height bs.height

/-- The store after `PruneBlocks`. -/
def pruned (height : ℤ) (state : Sm.State) : BlockStore :=
  let st := bs.pruning height state
  { bs with db := st.db, base := height, caches := st.caches }

/-- `PruneBlocks`, with the evidence retain height. -/
def pruneBlocks (height : ℤ) (state : Sm.State) : Except PruneError (BlockStore × ℤ) :=
  match bs.checkPrune height with
  | some err => .error err
  | none => .ok (bs.pruned height state, (bs.pruning height state).evidencePoint)

/-- The durable writes of `PruneBlocks`. -/
def pruneWrites (height : ℤ) (state : Sm.State) : List DB :=
  match bs.checkPrune height with
  | some _ => []
  | none => (bs.pruning height state).flushed

end BlockStore

/-! ### What the loop of `PruneBlocks` does -/

/-- Nothing of height `k` is deleted: the loop has not come to it, or there was no block. -/
def Passed (db : DB) (b h k : ℤ) : Prop := b ≤ k → k < h → db.metas k = none

theorem Passed.of_not {b h : ℤ} (hout : ¬(b ≤ k ∧ k < h)) : Passed db b h k :=
  fun hb hk => absurd ⟨hb, hk⟩ hout

theorem Passed.of_succ {b h : ℤ} (hp : Passed db b (h + 1) k) : Passed db b h k :=
  fun hb hk => hp hb (hk.trans (lt_add_one h))

/-- What has become of the records `db` and the caches `c` when the heights from `b` up to `h` have
been gone through, if metas are kept from the evidence point `ep` on. -/
structure Pruned (db : DB) (c : Caches) (b h ep : ℤ) (db' : DB) (c' : Caches) : Prop where
  metas_of_le : ∀ k, h ≤ k → db'.metas k = db.metas k
  metas_of_lt : ∀ k, k < b → db'.metas k = db.metas k
  metas_sub : ∀ k m, db'.metas k = some m → db.metas k = some m
  commits_of : ∀ k, Passed db b h k → db'.commits k = db.commits k
  seen_of : ∀ k, Passed db b h k → db'.seenCommits k = db.seenCommits k
  parts_of : ∀ k i, Passed db b h k → db'.parts (k, i) = db.parts (k, i)
  hashes_of : ∀ x, (∀ k m, b ≤ k → k < h → db.metas k = some m → m.blockID.hash ≠ x) →
    db'.hashes x = db.hashes x
  exts : db'.extCommits = db.extCommits
  cachedCommits_of : ∀ k, Passed db b h k → c'.commits k = c.commits k
  cachedSeen_of : ∀ k, Passed db b h k → c'.seenCommits k = c.seenCommits k
  cachedParts_of : ∀ k i, Passed db b h k → c'.parts (k, i) = c.parts (k, i)
  cachedExts : c'.extCommits = c.extCommits
  /-- a block that was there has lost its parts, its seen commit and its hash -/
  gone : ∀ k m, b ≤ k → k < h → db.metas k = some m →
    (∀ i, i < m.total → db'.parts (k, i) = none ∧ c'.parts (k, i) = none) ∧
      (∀ i, m.total ≤ i → db'.parts (k, i) = db.parts (k, i) ∧ c'.parts (k, i) = c.parts (k, i)) ∧
      db'.seenCommits k = none ∧ c'.seenCommits k = none ∧ db'.hashes m.blockID.hash = none
  /-- and below the evidence point its meta and its commit -/
  goneBelow : ∀ k m, b ≤ k → k < h → k < ep → db.metas k = some m →
    db'.metas k = none ∧ db'.commits k = none ∧ c'.commits k = none

namespace Pruned

variable {db db' : DB} {c c' : Caches} {b h ep : ℤ} {m : BlockMeta}

theorem refl (db : DB) (c : Caches) (b ep : ℤ) : Pruned db c b b ep db c where
  metas_of_le _ _ := rfl
  metas_of_lt _ _ := rfl
  metas_sub _ _ hm := hm
  commits_of _ _ := rfl
  seen_of _ _ := rfl
  parts_of _ _ _ := rfl
  hashes_of _ _ := rfl
  exts := rfl
  cachedCommits_of _ _ := rfl
  cachedSeen_of _ _ := rfl
  cachedParts_of _ _ _ := rfl
  cachedExts := rfl
  gone _ _ hb hk _ := absurd hk (not_lt.mpr hb)
  goneBelow _ _ hb hk _ _ := absurd hk (not_lt.mpr hb)

/-- The base and the height on disk do not count. -/
theorem withState (hp : Pruned db c b h ep db' c') (base height : ℤ) :
    Pruned db c b h ep { db' with base, height } c' := { hp with }

theorem anti (hp : Pruned db c b h ep db' c') {ep' : ℤ} (hle : ep' ≤ ep) :
    Pruned db c b h ep' db' c' :=
  { hp with goneBelow := fun k m hb hk hep hm => hp.goneBelow k m hb hk (hep.trans_le hle) hm }

/-- A height without a block is passed over. -/
theorem skip (hp : Pruned db c b h ep db' c') (hm : db.metas h = none) :
    Pruned db c b (h + 1) ep db' c' where
  metas_of_le k hk := hp.metas_of_le k (by omega)
  metas_of_lt := hp.metas_of_lt
  metas_sub := hp.metas_sub
  commits_of k hk := hp.commits_of k hk.of_succ
  seen_of k hk := hp.seen_of k hk.of_succ
  parts_of k i hk := hp.parts_of k i hk.of_succ
  hashes_of x hx := hp.hashes_of x fun k m hb hk => hx k m hb (by omega)
  exts := hp.exts
  cachedCommits_of k hk := hp.cachedCommits_of k hk.of_succ
  cachedSeen_of k hk := hp.cachedSeen_of k hk.of_succ
  cachedParts_of k i hk := hp.cachedParts_of k i hk.of_succ
  cachedExts := hp.cachedExts
  gone k m hb hk hkm := by
    refine hp.gone k m hb (lt_of_le_of_ne (by omega) ?_) hkm
    rintro rfl
    rw [hm] at hkm
    cases hkm
  goneBelow k m hb hk hep hkm := by
    refine hp.goneBelow k m hb (lt_of_le_of_ne (by omega) ?_) hep hkm
    rintro rfl
    rw [hm] at hkm
    cases hkm

end Pruned

namespace Pruning

variable {db : DB} {c : Caches} {b h t : ℤ} {m : BlockMeta} {st : Pruning}

/-! ### The records and the caches after the deletions for one block -/

/-- The records that evidence is about are deleted below the evidence point. -/
theorem deleteBlock_records (st : Pruning) (h : ℤ) (m : BlockMeta) (k : ℤ) :
    let gone := k = h ∧ h < st.evidencePoint
    ((st.deleteBlock h m).batch.metas k = if gone then none else st.batch.metas k) ∧
    ((st.deleteBlock h m).batch.commits k = if gone then none else st.batch.commits k) ∧
    (st.deleteBlock h m).caches.commits k = if gone then none else st.caches.commits k := by
  unfold deleteBlock
  by_cases hep : h < st.evidencePoint
  · by_cases hk : k = h
    · simp [hep, hk, Cache.evict]
    · simp [hep, hk, Cache.evict]
  · simp [hep]

/-- What is deleted whether or not evidence can be about the block. -/
theorem deleteBlock_always (st : Pruning) (h : ℤ) (m : BlockMeta) :
    (st.deleteBlock h m).batch.hashes = update st.batch.hashes m.blockID.hash none ∧
      (st.deleteBlock h m).batch.seenCommits = update st.batch.seenCommits h none ∧
      (st.deleteBlock h m).batch.parts = setParts st.batch.parts h m.total (fun _ => none) ∧
      (st.deleteBlock h m).batch.extCommits = st.batch.extCommits ∧
      (st.deleteBlock h m).caches.seenCommits = update st.caches.seenCommits h none ∧
      (st.deleteBlock h m).caches.parts = setParts st.caches.parts h m.total (fun _ => none) ∧
      (st.deleteBlock h m).caches.extCommits = st.caches.extCommits := by
  unfold deleteBlock
  by_cases hep : h < st.evidencePoint
  · simp [hep, Cache.evict]
  · simp [hep, Cache.evict]

theorem pruned_deleteBlock (hp : Pruned db c b h st.evidencePoint st.batch st.caches) (hb : b ≤ h)
    (hm : db.metas h = some m) :
    Pruned db c b (h + 1) st.evidencePoint (st.deleteBlock h m).batch
      (st.deleteBlock h m).caches := by
  obtain ⟨hhash, hseen, hparts, hext, hcseen, hcparts, hcext⟩ := deleteBlock_always st h m
  have hne : ∀ k, Passed db b (h + 1) k → k ≠ h := by
    rintro k hk rfl
    rw [hk hb (lt_add_one k)] at hm
    cases hm
  refine
    { metas_of_le := fun k hk => ?_
      metas_of_lt := fun k hk => ?_
      metas_sub := fun k m' hm' => ?_
      commits_of := fun k hk => ?_
      seen_of := fun k hk => ?_
      parts_of := fun k i hk => ?_
      hashes_of := fun x hx => ?_
      exts := hext.trans hp.exts
      cachedCommits_of := fun k hk => ?_
      cachedSeen_of := fun k hk => ?_
      cachedParts_of := fun k i hk => ?_
      cachedExts := hcext.trans hp.cachedExts
      gone := fun k m' hbk hk hkm => ?_
      goneBelow := fun k m' hbk hk hep hkm => ?_ }
  · rw [(deleteBlock_records ..).1, if_neg (by omega)]
    exact hp.metas_of_le k (by omega)
  · rw [(deleteBlock_records ..).1, if_neg (by omega)]
    exact hp.metas_of_lt k hk
  · rw [(deleteBlock_records ..).1] at hm'
    split_ifs at hm'
    exact hp.metas_sub k m' hm'
  · rw [(deleteBlock_records ..).2.1, if_neg fun heq => hne k hk heq.1]
    exact hp.commits_of k hk.of_succ
  · rw [hseen, update_of_ne (hne k hk)]
    exact hp.seen_of k hk.of_succ
  · rw [hparts, setParts_of_ne (hne k hk)]
    exact hp.parts_of k i hk.of_succ
  · rw [hhash, update_of_ne (hx h m hb (by omega) hm).symm]
    exact hp.hashes_of x fun k m hb hk => hx k m hb (by omega)
  · rw [(deleteBlock_records ..).2.2, if_neg fun heq => hne k hk heq.1]
    exact hp.cachedCommits_of k hk.of_succ
  · rw [hcseen, update_of_ne (hne k hk)]
    exact hp.cachedSeen_of k hk.of_succ
  · rw [hcparts, setParts_of_ne (hne k hk)]
    exact hp.cachedParts_of k i hk.of_succ
  · rw [hparts, hcparts, hseen, hcseen, hhash]
    by_cases hkh : k = h
    · subst hkh
      obtain rfl : m = m' := Option.some.inj (hm.symm.trans hkm)
      refine ⟨fun i hi => ?_, fun i hi => ?_, ?_, ?_, ?_⟩
      · rw [setParts_of_lt hi, setParts_of_lt hi]
        exact ⟨rfl, rfl⟩
      · rw [setParts_of_le hi, setParts_of_le hi]
        exact ⟨hp.parts_of k i (.of_not (by omega)), hp.cachedParts_of k i (.of_not (by omega))⟩
      · rw [update_self]
      · rw [update_self]
      · rw [update_self]
    · obtain ⟨hlt, hge, hs, hcs, hx⟩ := hp.gone k m' hbk (by omega) hkm
      simp only [setParts_of_ne hkh, update_of_ne hkh]
      refine ⟨hlt, hge, hs, hcs, ?_⟩
      rw [update_apply]
      split_ifs
      · rfl
      · exact hx
  · rw [(deleteBlock_records ..).1, (deleteBlock_records ..).2.1, (deleteBlock_records ..).2.2]
    by_cases hkh : k = h
    · subst hkh
      simp only [and_self, hep, if_true]
    · simp only [hkh, false_and, if_false]
      exact hp.goneBelow k m' hbk (by omega) hep hkm

/-! ### The loop -/

/-- The loop has come to height `h`. -/
structure At (db : DB) (c : Caches) (b t h : ℤ) (st : Pruning) : Prop where
  pruned : Pruned db c b h st.evidencePoint st.batch st.caches
  metas : ∀ k, h ≤ k → st.db.metas k = db.metas k
  point : st.evidencePoint = t ∨ b ≤ st.evidencePoint ∧ st.evidencePoint < h

theorem At.meetEvidence (hs : At db c b t h st) (hb : b ≤ h) (ht : h < t) (state : Sm.State) :
    Pruned db c b h (st.meetEvidence state t h m).evidencePoint
        (st.meetEvidence state t h m).batch (st.meetEvidence state t h m).caches ∧
      ((st.meetEvidence state t h m).evidencePoint = t ∨
        b ≤ (st.meetEvidence state t h m).evidencePoint ∧
          (st.meetEvidence state t h m).evidencePoint < h + 1) := by
  unfold Pruning.meetEvidence
  split_ifs with hmeet
  · exact ⟨hs.pruned.anti (hmeet.1 ▸ ht.le), .inr ⟨hb, lt_add_one h⟩⟩
  · exact ⟨hs.pruned, hs.point.imp_right fun hp => ⟨hp.1, hp.2.trans (lt_add_one h)⟩⟩

theorem At.flush (hs : At db c b t h st) (base height : ℤ) : At db c b t h (st.flush base height) where
  pruned := hs.pruned.withState base height
  metas k hk := hs.pruned.metas_of_le k hk
  point := hs.point

theorem At.step (hs : At db c b t h st) (hb : b ≤ h) (ht : h < t) (state : Sm.State)
    (bsHeight : ℤ) : At db c b t (h + 1) (st.step state bsHeight t h) := by
  unfold Pruning.step
  rw [hs.metas h le_rfl]
  cases hm : db.metas h with
  | none =>
    exact ⟨hs.pruned.skip hm, fun k hk => hs.metas k (by omega),
      hs.point.imp_right fun hp => ⟨hp.1, hp.2.trans (lt_add_one h)⟩⟩
  | some m =>
    obtain ⟨hp, hpoint⟩ := hs.meetEvidence (m := m) hb ht state
    have hdel : At db c b t (h + 1) ((st.meetEvidence state t h m).deleteBlock h m) := by
      refine ⟨pruned_deleteBlock hp hb hm, fun k hk => ?_, hpoint⟩
      have hdb : (st.meetEvidence state t h m).db = st.db := by
        unfold Pruning.meetEvidence
        split_ifs
        · rfl
        · rfl
      show (st.meetEvidence state t h m).db.metas k = _
      rw [hdb]
      exact hs.metas k (by omega)
    dsimp only
    split_ifs
    · exact hdel.flush h bsHeight
    · exact hdel

theorem At.loop (state : Sm.State) (bsHeight : ℤ) (n : ℕ) (hs : At db c b t h st) (hb : b ≤ h)
    (ht : h + n = t) : At db c b t t (Pruning.loop state bsHeight t n h st) := by
  induction n generalizing h st with
  | zero =>
    obtain rfl : h = t := by simpa using ht
    exact hs
  | succ n ih =>
    push_cast at ht
    exact ih (hs.step hb (by omega) state bsHeight) (by omega) (by omega)

end Pruning

/-- **What `PruneBlocks` leaves.** -/
theorem BlockStore.pruning_spec (bs : BlockStore) (state : Sm.State) (hle : bs.base ≤ height) :
    Pruned bs.db bs.caches bs.base height (bs.pruning height state).evidencePoint
      (bs.pruning height state).db (bs.pruning height state).caches := by
  have hstart : Pruning.At bs.db bs.caches bs.base height bs.base
      { db := bs.db, batch := bs.db, caches := bs.caches, evidencePoint := height } :=
    ⟨.refl _ _ _ _, fun _ _ => rfl, .inl rfl⟩
  exact ((hstart.loop state bs.height (height - bs.base).toNat le_rfl (by omega)).flush
    height bs.height).pruned

end CometBFT.Blockstore
