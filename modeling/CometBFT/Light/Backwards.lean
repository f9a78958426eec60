import CometBFT.Lib.Loop
import CometBFT.Light.Providers

/-!
# Backwards verification

The model of `verifyLightBlock`, `VerifyLightBlockAtHeight` and `backwards` in `light/client.go`. A
block below the first trusted one is verified by following the hashes of last blocks down from there.

What providers answer may differ from one request to the next: the `n`-th request is answered by
`World.primary n`, and when the witnesses are asked at that moment their responses are
`World.witnesses n`. The trusted store is a list of blocks in ascending order of their heights. The
verification forwards, `verifyFunc` in the source, is a parameter.

## Main results

* `backwards_linked` — what `backwards` verified is linked to the trusted header
* `saved_block_linked` — so is the block that is saved, just if the providers reply with no other linked
  block of its height
* `unlinked_block_saved` — the block that is saved need not be the one that was verified
-/

namespace CometBFT.Light

open CometBFT.Types List

/-! ### The trusted store -/

/-- The trusted store, in ascending order of heights. `size` counts what was saved. -/
structure TrustedStore where
  blocks : List LightBlock := []
  size : UInt16 := 0
deriving DecidableEq, Repr

namespace TrustedStore

variable (store : TrustedStore)

def insertBlock (lb : LightBlock) : List LightBlock → List LightBlock
  | [] => [lb]
  | b :: rest =>
    if lb.height < b.height then lb :: b :: rest
    else if lb.height = b.height then lb :: rest
    else b :: insertBlock lb rest

def saveLightBlock (lb : LightBlock) : Except Failure TrustedStore :=
  if lb.height ≤ 0 then .error (.panic "negative or zero height")
  else .ok ⟨insertBlock lb store.blocks, store.size + 1⟩

/-- None if it is not found. -/
def lightBlock (height : ℤ) : Except Failure (Option LightBlock) :=
  if height ≤ 0 then .error (.panic "negative or zero height")
  else .ok (store.blocks.find? fun b => b.height = height)

def lightBlockBefore (height : ℤ) : Except Failure (Option LightBlock) :=
  if height ≤ 0 then .error (.panic "negative or zero height")
  else .ok (store.blocks.reverse.find? fun b => b.height < height)

def firstLightBlockHeight : ℤ := (store.blocks.head?.map fun b => b.height).getD (-1)

def lastLightBlockHeight : ℤ := (store.blocks.getLast?.map fun b => b.height).getD (-1)

/-- The lowest blocks are removed. -/
def prune (size : UInt16) : TrustedStore :=
  if store.size ≤ size then store
  else
    let numToPrune := (store.size - size).toNat
    let pruned := min numToPrune store.blocks.length
    ⟨store.blocks.drop numToPrune, store.size - UInt16.ofNat pruned⟩

end TrustedStore

/-! ### The client -/

/-- How providers answer: the `n`-th request to the primary, and the witnesses if they are asked then. -/
structure World (P : Type) where
  primary : ℕ → P → ℤ → Reply
  witnesses : ℕ → List P → ℤ → List Response

/-- A provider replies to some request for the height with the block. -/
def World.Replies {P : Type} (world : World P) (height : ℤ) (b : LightBlock) : Prop :=
  (∃ n q, world.primary n q height = .ok b) ∨
    ∃ n qs, ∃ r ∈ world.witnesses n qs height, r.reply = .ok b

/-- Providers answer a request for a height with a block of that height. -/
def World.Answers {P : Type} (world : World P) : Prop :=
  ∀ h b, h ≠ 0 → world.Replies h b → b.height = h

structure Client (P : Type) where
  providers : Providers P
  trustedStore : TrustedStore
  latestTrustedBlock : LightBlock
  pruningSize : UInt16 := 1000
  /-- How many requests were made. -/
  requests : ℕ := 0
deriving DecidableEq

/-- What `verifyLightBlock` returns; `ε` are the errors of the verification forwards. -/
inductive UpdateError (ε : Type) where
  | negativeOrZeroHeight
  | fromPrimary (e : ClientError)
  | firstBlockMissing
  | blockBeforeMissing (height : ℤ)
  | forwards (e : ε)
  | headerNotObtained (height : ℤ) (e : ClientError)
  | backwards (e : VerifyError)
deriving DecidableEq, Repr

namespace Client

variable {P ε : Type} (p : Primitives) (world : World P) (c : Client P)

/-- `lightBlockFromPrimary` as the world answers. -/
def lightBlockFromPrimary (height : ℤ) :
    Except Failure (Client P × Except ClientError LightBlock) := do
  let (providers, r) ← c.providers.lightBlockFromPrimary
    (world.primary c.requests c.providers.primary height)
    (world.witnesses c.requests c.providers.witnesses height)
  return ({ c with providers, requests := c.requests + 1 }, r)

/-- `findNewPrimary` as the world answers. -/
def findNewPrimary (height : ℤ) (remove : Bool) :
    Except Failure (Client P × Except ClientError LightBlock) := do
  let (providers, r) ← c.providers.findNewPrimary
    (world.witnesses c.requests c.providers.witnesses height) remove
  return ({ c with providers, requests := c.requests + 1 }, r)

/-- The client and the variables of `backwards`. -/
structure Backwards (P : Type) where
  client : Client P
  verifiedHeader : Header
  newHeader : Header

/-- What `backwards` ends with: the client and an error, or the last header that was verified. -/
abbrev BackwardsResult (P ε : Type) := Except Failure (Client P × Except (UpdateError ε) Header)

/-- `backwards` when the header from the primary is not verified: another primary is found, and if it
has the same target the function is called again. -/
def replacePrimary (s : Backwards P) (err : VerifyError) :
    Iteration (Backwards P) (BackwardsResult P ε) :=
  match s.client.findNewPrimary world s.newHeader.height true with
  | .error e => .done (.error e)
  | .ok (client, .error _) => .done (.ok (client, .error (.backwards err)))
  | .ok (client, .ok newPrimarysBlock) =>
    if newPrimarysBlock.hash p ≠ s.newHeader.hash p then
      .done (.ok (client, .error (.backwards err)))
    else .next ⟨client, s.verifiedHeader, newPrimarysBlock.toHeader⟩

/-- One iteration of `backwards`. -/
def backwardsStep (s : Backwards P) : Iteration (Backwards P) (BackwardsResult P ε) :=
  if s.verifiedHeader.height ≤ s.newHeader.height then .done (.ok (s.client, .ok s.verifiedHeader))
  else
    match s.client.lightBlockFromPrimary world (s.verifiedHeader.height - 1) with
    | .error e => .done (.error e)
    | .ok (client, .error e) =>
      .done (.ok (client, .error (.headerNotObtained (s.verifiedHeader.height - 1) e)))
    | .ok (client, .ok interimBlock) =>
      match verifyBackwards p interimBlock.toHeader s.verifiedHeader with
      | none => .next { s with client, verifiedHeader := interimBlock.toHeader }
      | some err => replacePrimary p world { s with client } err

/-- `backwards`, with at most `fuel` iterations. -/
def backwards (ε : Type) (fuel : ℕ) (trustedHeader newHeader : Header) :
    Option (BackwardsResult P ε) :=
  Loop.run (backwardsStep p world) fuel ⟨c, trustedHeader, newHeader⟩

def updateTrustedLightBlock (l : LightBlock) : Except Failure (Client P) := do
  let store ← c.trustedStore.saveLightBlock l
  return { c with
    trustedStore := if 0 < c.pruningSize then store.prune c.pruningSize else store
    latestTrustedBlock := if c.latestTrustedBlock.height < l.height then l
      else c.latestTrustedBlock }

/-- What is done once a block is verified, or not. -/
def finish (newLightBlock : LightBlock) (err : Option (UpdateError ε)) :
    Except Failure (Client P × Option (UpdateError ε)) :=
  match err with
  | some e => .ok (c, some e)
  | none => do return (← c.updateTrustedLightBlock newLightBlock, none)

variable (verifyFunc : Client P → LightBlock → LightBlock → Time →
  Except Failure (Client P × Option ε))

/-- Verification forwards from a trusted block. -/
def forwards (trusted newLightBlock : LightBlock) (now : Time) :
    Except Failure (Client P × Option (UpdateError ε)) := do
  let (client, err) ← verifyFunc c trusted newLightBlock now
  client.finish newLightBlock (err.map .forwards)

/-- `verifyLightBlock`; none if the iterations of `backwards` are not enough. -/
def verifyLightBlock (fuel : ℕ) (newLightBlock : LightBlock) (now : Time) :
    Option (Except Failure (Client P × Option (UpdateError ε))) :=
  let firstBlockHeight := c.trustedStore.firstLightBlockHeight
  if c.latestTrustedBlock.height ≤ newLightBlock.height then
    some (c.forwards verifyFunc c.latestTrustedBlock newLightBlock now)
  else if newLightBlock.height < firstBlockHeight then
    match c.trustedStore.lightBlock firstBlockHeight with
    | .error e => some (.error e)
    | .ok none => some (.ok (c, some .firstBlockMissing))
    | .ok (some firstBlock) =>
      (c.backwards p world ε fuel firstBlock.toHeader newLightBlock.toHeader).map fun r => do
        let (client, result) ← r
        match result with
        | .error e => client.finish newLightBlock (some e)
        | .ok _ => client.finish newLightBlock none
  else
    match c.trustedStore.lightBlockBefore newLightBlock.height with
    | .error e => some (.error e)
    | .ok none => some (.ok (c, some (.blockBeforeMissing newLightBlock.height)))
    | .ok (some closestBlock) => some (c.forwards verifyFunc closestBlock newLightBlock now)

/-- `VerifyLightBlockAtHeight` of a height that is not trusted yet. -/
def verifyLightBlockAtHeight (fuel : ℕ) (height : ℤ) (now : Time) :
    Option (Except Failure (Client P × Option (UpdateError ε))) :=
  if height ≤ 0 then some (.ok (c, some .negativeOrZeroHeight))
  else
    match c.lightBlockFromPrimary world height with
    | .error e => some (.error e)
    | .ok (client, .error e) => some (.ok (client, some (.fromPrimary e)))
    | .ok (client, .ok l) => client.verifyLightBlock p world verifyFunc fuel l now

end Client

/-! ### Links -/

/-- `h'` is reached from `h` by following the hashes of last blocks, one height down each time. -/
inductive Linked (p : Primitives) (h : Header) : Header → Prop where
  | refl : Linked p h h
  | down {b b' : Header} (hb : Linked p h b) (hash : b'.hash p = b.lastBlockID.hash)
      (height : b'.height = b.height - 1) : Linked p h b'

theorem Linked.height_le {p : Primitives} {h h' : Header} (hl : Linked p h h') :
    h'.height ≤ h.height := by
  induction hl with
  | refl => exact le_refl _
  | down _ _ hheight ih => omega

theorem Linked.eq_of_height_eq {p : Primitives} {h h' : Header} (hl : Linked p h h')
    (heq : h'.height = h.height) : h' = h := by
  cases hl with
  | refl => rfl
  | down hb _ hdown =>
    have := hb.height_le
    omega

/-- One height down there is only one hash. -/
theorem Linked.hash_eq {p : Primitives} {h h' : Header} (hl : Linked p h h')
    (hheight : h'.height = h.height - 1) : h'.hash p = h.lastBlockID.hash := by
  cases hl with
  | refl => omega
  | down hb hash hdown => rw [hash, hb.eq_of_height_eq (by omega)]

/-- A header below is linked by one chain only, as long as headers of one height with the same hash name
the same last block. -/
theorem Linked.hash_unique {p : Primitives} {h a b : Header}
    (hcollision : ∀ a b, Linked p h a → Linked p h b → a.height = b.height → a.hash p = b.hash p →
      a.lastBlockID.hash = b.lastBlockID.hash)
    (ha : Linked p h a) (hb : Linked p h b) (hheight : a.height = b.height)
    (hlt : a.height < h.height) : a.hash p = b.hash p := by
  induction ha generalizing b with
  | refl => exact absurd hlt (lt_irrefl _)
  | @down a a' ha hash hdown ih =>
    cases hb with
    | refl => omega
    | @down b b' hb hash' hdown' =>
      have heights : a.height = b.height := by omega
      rw [hash, hash']
      rcases ha.height_le.lt_or_eq with hbelow | htop
      · exact hcollision a b ha hb heights (ih hb heights hbelow)
      · rw [ha.eq_of_height_eq htop, hb.eq_of_height_eq (heights.symm.trans htop)]

namespace Client

variable {P ε : Type} {p : Primitives} {world : World P} {c c' : Client P}

variable {b : LightBlock} {height : ℤ} {r : Except ClientError LightBlock}

theorem replies_of_findNewPrimary {remove : Bool}
    (h : c.findNewPrimary world height remove = .ok (c', .ok b)) : world.Replies height b := by
  obtain ⟨⟨providers, r⟩, hfind, h⟩ := ok_of_bind h
  cases h
  obtain ⟨r, hr, hb⟩ := Providers.exists_mem_of_findNewPrimary hfind
  exact .inr ⟨_, _, r, hr, hb⟩

theorem replies_of_lightBlockFromPrimary
    (h : c.lightBlockFromPrimary world height = .ok (c', .ok b)) : world.Replies height b := by
  obtain ⟨⟨providers, r⟩, hask, h⟩ := ok_of_bind h
  cases h
  rcases Providers.mem_of_lightBlockFromPrimary hask with hreply | ⟨r, hr, hb⟩
  · exact .inl ⟨_, _, hreply⟩
  · exact .inr ⟨_, _, r, hr, hb⟩

/-- What the iterations keep: what was verified is linked to the trusted header and was replied, and
the target stays at its height. Nothing is saved. -/
structure Linking (p : Primitives) (world : World P) (store : TrustedStore) (trusted : Header)
    (height : ℤ) (s : Backwards P) : Prop where
  store : s.client.trustedStore = store
  linked : Linked p trusted s.verifiedHeader
  replied : s.verifiedHeader = trusted ∨
    ∃ b : LightBlock, b.toHeader = s.verifiedHeader ∧ world.Replies b.height b
  above : height ≤ s.verifiedHeader.height
  target : s.newHeader.height = height

theorem trustedStore_of_findNewPrimary {remove : Bool}
    (h : c.findNewPrimary world height remove = .ok (c', r)) :
    c'.trustedStore = c.trustedStore := by
  obtain ⟨⟨providers, r⟩, -, h⟩ := ok_of_bind h
  cases h
  rfl

theorem trustedStore_of_lightBlockFromPrimary
    (h : c.lightBlockFromPrimary world height = .ok (c', r)) :
    c'.trustedStore = c.trustedStore := by
  obtain ⟨⟨providers, r⟩, -, h⟩ := ok_of_bind h
  cases h
  rfl

theorem Linking.next {store : TrustedStore} {trusted : Header} (hworld : world.Answers)
    (hpos : 0 < height) {s t : Backwards P} (h : Linking p world store trusted height s)
    (hstep : (backwardsStep p world s : Iteration _ (BackwardsResult P ε)) = .next t) :
    Linking p world store trusted height t := by
  have htarget := h.target
  unfold backwardsStep replacePrimary at hstep
  repeat' split at hstep
  all_goals cases hstep
  · rename_i hgt _ client interim hask _ hverify
    have hreplies := replies_of_lightBlockFromPrimary hask
    have hheight := hworld _ _ (by omega) hreplies
    refine ⟨(trustedStore_of_lightBlockFromPrimary hask).trans h.store,
      h.linked.down (of_verifyBackwards_eq_none hverify) hheight,
      .inr ⟨interim, rfl, by rwa [hheight]⟩, ?_, htarget⟩
    change height ≤ interim.height
    omega
  · rename_i hask _ _ _ _ _ _ hfind _
    exact ⟨(trustedStore_of_findNewPrimary hfind).trans
        ((trustedStore_of_lightBlockFromPrimary hask).trans h.store), h.linked, h.replied, h.above,
      (hworld _ _ (by dsimp only; omega) (replies_of_findNewPrimary hfind)).trans htarget⟩

theorem backwardsStep_eq_ok {s : Backwards P} {last : Header}
    (h : (backwardsStep p world s : Iteration _ (BackwardsResult P ε)) =
      .done (.ok (c, .ok last))) :
    c = s.client ∧ last = s.verifiedHeader ∧ s.verifiedHeader.height ≤ s.newHeader.height := by
  unfold backwardsStep replacePrimary at h
  repeat' split at h
  all_goals cases h
  exact ⟨rfl, rfl, ‹_›⟩

/-- **What was verified is linked** to the trusted header, at the height of the target, and a provider
has replied with it. -/
theorem backwards_linked (hworld : world.Answers) {fuel : ℕ} {trusted new last : Header}
    (hpos : 0 < new.height) (hlt : new.height < trusted.height)
    (h : c.backwards p world ε fuel trusted new = some (.ok (c', .ok last))) :
    Linked p trusted last ∧ last.height = new.height ∧ c'.trustedStore = c.trustedStore ∧
      ∃ b : LightBlock, b.toHeader = last ∧ world.Replies new.height b := by
  obtain ⟨s, hs, hdone⟩ := Loop.of_run_eq_some
    (I := Linking p world c.trustedStore trusted new.height)
    (fun s t h hstep => h.next hworld hpos hstep) ⟨rfl, .refl, .inl rfl, hlt.le, rfl⟩ h
  obtain ⟨rfl, rfl, hle⟩ := backwardsStep_eq_ok hdone
  have hheight := le_antisymm (hs.target ▸ hle) hs.above
  refine ⟨hs.linked, hheight, hs.store, ?_⟩
  rcases hs.replied with heq | ⟨b, heq, hreplies⟩
  · rw [heq] at hheight
    exact absurd hheight hlt.ne'
  · rw [← heq] at hheight
    exact ⟨b, heq, hheight ▸ hreplies⟩

/-- What is saved when `verifyLightBlock` succeeds backwards. -/
theorem of_verifyLightBlock_backwards {verifyFunc : Client P → LightBlock → LightBlock → Time →
      Except Failure (Client P × Option ε)} {fuel : ℕ} {first new : LightBlock} {now : Time}
    (hfirst : c.trustedStore.blocks.head? = some first)
    (hlatest : new.height < c.latestTrustedBlock.height) (hlt : new.height < first.height)
    (h : c.verifyLightBlock p world verifyFunc fuel new now = some (.ok (c', none))) :
    ∃ c₁ last, c.backwards p world ε fuel first.toHeader new.toHeader = some (.ok (c₁, .ok last)) ∧
      0 < new.height ∧ c₁.updateTrustedLightBlock new = .ok c' := by
  have hheight : c.trustedStore.firstLightBlockHeight = first.height := by
    rw [TrustedStore.firstLightBlockHeight, hfirst]
    rfl
  have hfind : c.trustedStore.blocks.find? (fun b => b.height = first.height) = some first := by
    obtain ⟨rest, hrest⟩ := head?_eq_some_iff.mp hfirst
    rw [hrest, find?_cons_of_pos]
    exact decide_eq_true rfl
  unfold verifyLightBlock at h
  rw [hheight] at h
  dsimp only at h
  rw [if_neg (not_le.mpr hlatest), if_pos hlt] at h
  unfold TrustedStore.lightBlock at h
  by_cases hpos : first.height ≤ 0
  · rw [if_pos hpos] at h
    cases h
  rw [if_neg hpos, hfind] at h
  obtain ⟨r, hr, h⟩ := Option.map_eq_some_iff.mp h
  obtain ⟨⟨c₁, result⟩, rfl, h⟩ := ok_of_bind h
  cases result with
  | error e => cases h
  | ok last =>
    change c₁.finish new none = _ at h
    obtain ⟨c₂, hupdate, h⟩ := ok_of_bind h
    cases h
    refine ⟨c₁, last, hr, ?_, hupdate⟩
    obtain ⟨store, hstore, -⟩ := ok_of_bind hupdate
    unfold TrustedStore.saveLightBlock at hstore
    split at hstore
    · cases hstore
    · omega

/-- What is in the store after a block was saved. -/
theorem mem_of_updateTrustedLightBlock {new : LightBlock}
    (h : c.updateTrustedLightBlock new = .ok c') (hb : b ∈ c'.trustedStore.blocks) :
    b = new ∨ b ∈ c.trustedStore.blocks := by
  have hinsert : ∀ {blocks : List LightBlock}, b ∈ TrustedStore.insertBlock new blocks →
      b = new ∨ b ∈ blocks := by
    intro blocks hb
    induction blocks with
    | nil => exact .inl (mem_singleton.mp hb)
    | cons b' rest ih =>
      unfold TrustedStore.insertBlock at hb
      split_ifs at hb
      · exact mem_cons.mp hb
      · exact (mem_cons.mp hb).imp_right (mem_cons_of_mem _)
      · rcases mem_cons.mp hb with rfl | hb
        · exact .inr mem_cons_self
        · exact (ih hb).imp_right (mem_cons_of_mem _)
  obtain ⟨store, hstore, h⟩ := ok_of_bind h
  cases h
  unfold TrustedStore.saveLightBlock at hstore
  split at hstore
  · cases hstore
  cases hstore
  dsimp only at hb
  split at hb
  · unfold TrustedStore.prune at hb
    split at hb
    · exact hinsert hb
    · exact hinsert (mem_of_mem_drop hb)
  · exact hinsert hb

/-- **The block that is saved is linked** to the first trusted one as long as every linked block that a
provider replies with for its height has its hash; and only then, if header hashes do not collide. -/
theorem saved_block_linked (hworld : world.Answers)
    {verifyFunc : Client P → LightBlock → LightBlock → Time →
      Except Failure (Client P × Option ε)} {fuel : ℕ} {first new : LightBlock} {now : Time}
    (hfirst : c.trustedStore.blocks.head? = some first)
    (hlatest : new.height < c.latestTrustedBlock.height) (hlt : new.height < first.height)
    (h : c.verifyLightBlock p world verifyFunc fuel new now = some (.ok (c', none))) :
    ((∀ b, world.Replies new.height b → Linked p first.toHeader b.toHeader →
        b.hash p = new.hash p) →
      ∃ last, Linked p first.toHeader last ∧ last.height = new.height ∧
        last.hash p = new.hash p) ∧
    ((∀ a b, Linked p first.toHeader a → Linked p first.toHeader b → a.height = b.height →
        a.hash p = b.hash p → a.lastBlockID.hash = b.lastBlockID.hash) →
      (∃ last, Linked p first.toHeader last ∧ last.height = new.height ∧
        last.hash p = new.hash p) →
      ∀ b, world.Replies new.height b → Linked p first.toHeader b.toHeader →
        b.hash p = new.hash p) ∧
    ∀ b ∈ c'.trustedStore.blocks, b = new ∨ b ∈ c.trustedStore.blocks := by
  obtain ⟨c₁, last, hback, hpos, hupdate⟩ := of_verifyLightBlock_backwards hfirst hlatest hlt h
  obtain ⟨hlinked, hheight, hstore, b, rfl, hreplies⟩ := backwards_linked hworld hpos hlt hback
  refine ⟨fun hsame => ⟨b.toHeader, hlinked, hheight, hsame b hreplies hlinked⟩, ?_, fun b hb => ?_⟩
  · rintro hcollision ⟨last, hlast, hlastHeight, hhash⟩ b hb hbLinked
    have heights : b.height = last.height := (hworld _ b hpos.ne' hb).trans hlastHeight.symm
    exact (hbLinked.hash_unique hcollision hlast heights (by omega)).trans hhash
  · rw [← hstore]
    exact mem_of_updateTrustedLightBlock hupdate hb

end Client

/-! ### A primary that answers twice -/

/-- The trusted block, at height 3. -/
def trustedThird : LightBlock := plainBlock 3 9 (5 :: replicate 31 0)

/-- The block before it. -/
def linkedSecond : LightBlock := plainBlock 2 5 []

/-- Another block of that height. -/
def otherSecond : LightBlock := plainBlock 2 6 []

def twoFaced (first : LightBlock) : World ℕ where
  primary n _ h := .ok (if h = 2 then if n = 0 then first else linkedSecond else plainBlock h 1 [])
  witnesses _ _ _ := []

def thirdClient : Client ℕ := ⟨⟨0, [1]⟩, ⟨[trustedThird], 1⟩, trustedThird, 1000, 0⟩

/-- No forward verification is needed here. -/
def noForwards (c : Client ℕ) (_ _ : LightBlock) (_ : Time) :
    Except Failure (Client ℕ × Option Empty) := .ok (c, none)

theorem twoFaced_answers (first : LightBlock) (hfirst : first.height = 2) :
    (twoFaced first).Answers := by
  rintro h b - (⟨n, q, hb⟩ | ⟨n, qs, r, hr, -⟩)
  swap
  · cases hr
  obtain rfl := Except.ok.inj hb
  by_cases h2 : h = 2
  · rw [if_pos h2, h2]
    by_cases hn : n = 0
    · rw [if_pos hn, hfirst]
    · rw [if_neg hn]
      rfl
  · rw [if_neg h2]
    rfl

/-- The primary first answers with another block than the one before the trusted block, and then, when
that height is verified, with that one. The other block is saved. -/
theorem unlinked_block_saved :
    (twoFaced otherSecond).Answers ∧
      thirdClient.verifyLightBlockAtHeight plainPrimitives (twoFaced otherSecond) noForwards 10 2 20
        = some (.ok ({ thirdClient with
          trustedStore := ⟨[otherSecond, trustedThird], 2⟩, requests := 2 }, none)) ∧
      ∀ last, Linked plainPrimitives trustedThird.toHeader last →
        last.height = otherSecond.height →
        last.hash plainPrimitives ≠ otherSecond.hash plainPrimitives := by
  refine ⟨twoFaced_answers _ rfl, by decide +kernel, fun last hlinked hheight => ?_⟩
  rw [hlinked.hash_eq (hheight.trans (by decide))]
  decide +kernel

theorem saved_block_linked_second :
    (∃ last, Linked plainPrimitives trustedThird.toHeader last ∧ last.height = linkedSecond.height ∧
      last.hash plainPrimitives = linkedSecond.hash plainPrimitives) ∧
    ∀ b ∈ [linkedSecond, trustedThird], b = linkedSecond ∨ b ∈ [trustedThird] := by
  have hverify : thirdClient.verifyLightBlock plainPrimitives (twoFaced linkedSecond) noForwards 10
      linkedSecond 20 = some (.ok ({ thirdClient with
        trustedStore := ⟨[linkedSecond, trustedThird], 2⟩, requests := 1 }, none)) := by
    decide +kernel
  obtain ⟨hlinked, -, hstored⟩ := Client.saved_block_linked (twoFaced_answers linkedSecond rfl)
    (show thirdClient.trustedStore.blocks.head? = some trustedThird from rfl) (by decide)
    (by decide) hverify
  refine ⟨hlinked ?_, hstored⟩
  rintro b (⟨n, q, hb⟩ | ⟨n, qs, r, hr, -⟩) -
  · obtain rfl := Except.ok.inj hb
    by_cases hn : n = 0
    · rw [hn]
      rfl
    · rw [if_neg hn]
      rfl
  · cases hr

end CometBFT.Light
