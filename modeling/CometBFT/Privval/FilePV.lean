import CometBFT.Lib.Runs
import CometBFT.Types.Vote

/-!
# The file signer

The model of `privval/file.go`. A `FilePV` signs votes and proposals for one validator and keeps the
height, round and step of the last signature in a file, so that the validator does not sign two
messages for one step, also when the process is stopped and started again.

A call that signs something new goes through three states: the new `LastSignState` is in memory; it
is in the file; the caller has the signature. The process can crash in each of them, and then starts
again with what is in the file. A failure of `Save` is a panic in the source, so it is a crash here. A
vote whose call failed may have got the signature of its extension already; nobody uses it then.

## Main results

* `sign_spec` — a call reuses the last signature, or makes one for a later step
* `Inv.next` — what every step of the process keeps
* `no_double_signing` — one value of the sign bytes for each step, in every run
-/

namespace CometBFT.Privval

open CometBFT.Types List Option

/-! ### The last sign state -/

inductive SignError where
  | heightRegression (got last : ℤ)
  | roundRegression (height got last : ℤ)
  | stepRegression (height round got last : ℤ)
  | noSignBytes
  | unexpectedExtension
  | conflictingData
  | signFailed
deriving DecidableEq, Repr

inductive SignFailure where
  | err (error : SignError)
  | panic (msg : String)
deriving DecidableEq, Repr

/-- A panic of the functions in `types`. -/
def orPanic {α : Type} : Except Failure α → Except SignFailure α
  | .ok a => .ok a
  | .error _ => .error (.panic "panic in types")

theorem ok_of_orPanic {α : Type} {x : Except Failure α} {a : α} (h : orPanic x = .ok a) :
    x = .ok a := by
  cases x with
  | error e => cases h
  | ok b => exact congrArg _ (Except.ok.inj h)

def stepPropose : ℤ := 1

def stepPrevote : ℤ := 2

def stepPrecommit : ℤ := 3

def voteToStep (vote : Vote) : Except SignFailure ℤ :=
  match vote.type with
  | .prevote => .ok stepPrevote
  | .precommit => .ok stepPrecommit
  | _ => .error (.panic "Unknown vote type")

/-- `FilePVLastSignState`. A nil slice is none. -/
structure LastSignState where
  height : ℤ := 0
  round : ℤ := 0
  step : ℤ := 0
  signature : Option Bytes := none
  signBytes : Option Bytes := none
deriving DecidableEq, Repr

namespace LastSignState

variable (lss : LastSignState)

def hrs : HRS := Types.hrs lss.height lss.round lss.step

/-- Whether the last signature is to be used again. -/
def checkHRS (height round step : ℤ) : Except SignFailure Bool :=
  if lss.height > height then .error (.err (.heightRegression height lss.height))
  else if lss.height ≠ height then .ok false
  else if lss.round > round then .error (.err (.roundRegression height round lss.round))
  else if lss.round ≠ round then .ok false
  else if lss.step > step then .error (.err (.stepRegression height round step lss.step))
  else if lss.step < step then .ok false
  else if lss.signBytes = none then .error (.err .noSignBytes)
  else if lss.signature = none then
    .error (.panic "pv: Signature is nil but SignBytes is not!")
  else .ok true

/-- A slice that is read back from the file; an empty one was left out. -/
def omitEmpty : Option Bytes → Option Bytes
  | some [] => none
  | bytes => bytes

/-- What is read back from the file after a `Save`. -/
def reload : LastSignState :=
  { lss with signature := omitEmpty lss.signature, signBytes := omitEmpty lss.signBytes }

end LastSignState

/-! ### Signing -/

/-- The key of a `FilePV`, and the codec of what is signed. -/
structure FilePV where
  crypto : Crypto
  pubKey : PubKey
  privKeySign : Bytes → Bytes
  decodeVote : Bytes → Option CanonicalVote
  decodeProposal : Bytes → Option CanonicalProposal

/-- Which of the calls of `PrivKey.Sign` return an error. -/
structure Faults where
  extension : Bool := false
  message : Bool := false
deriving DecidableEq, Repr

/-- What a call did that returned no error: it used the last signature again, or it made a new one,
with the state to be saved. -/
inductive Outcome (μ : Type) where
  | reused (message : μ)
  | signed (message : μ) (lss : LastSignState)

namespace FilePV

variable (pv : FilePV)

/-- The time of the last message, and whether the two differ by their times only. -/
def onlyDifferByTimestamp {κ : Type} [DecidableEq κ] (decode : Bytes → Option κ) (what : String)
    (timestamp : κ → Time) (withTimestamp : κ → Time → κ) (lastSignBytes newSignBytes : Bytes) :
    Except SignFailure (Time × Bool) :=
  match decode lastSignBytes with
  | none => .error (.panic ("LastSignBytes cannot be unmarshalled into " ++ what))
  | some last =>
    match decode newSignBytes with
    | none => .error (.panic ("signBytes cannot be unmarshalled into " ++ what))
    | some new => .ok (timestamp last, withTimestamp new 0 = withTimestamp last 0)

def checkVotesOnlyDifferByTimestamp : Bytes → Bytes → Except SignFailure (Time × Bool) :=
  onlyDifferByTimestamp pv.decodeVote "vote" CanonicalVote.timestamp
    fun vote timestamp => { vote with timestamp }

def checkProposalsOnlyDifferByTimestamp : Bytes → Bytes → Except SignFailure (Time × Bool) :=
  onlyDifferByTimestamp pv.decodeProposal "proposal" CanonicalProposal.timestamp
    fun proposal timestamp => { proposal with timestamp }

/-- The part of `signVote` for the extension, which is signed anew in every call. -/
def extend (signExtension fails : Bool) (chainID : String) (vote : Vote) : Except SignFailure Vote :=
  if signExtension then
    if vote.type = .precommit ∧ vote.blockID.isNil = false then
      if fails then .error (.err .signFailed)
      else .ok { vote with
        extensionSignature := pv.privKeySign (pv.crypto.voteExtensionSignBytes chainID vote) }
    else if vote.extension ≠ [] then .error (.err .unexpectedExtension)
    else .ok { vote with extensionSignature := [] }
  else .ok vote

/-- The last part of `signVote` and `signProposal`. The message gets a signature, and a time if the
signature is one for another time. -/
def reuseOrSign {μ : Type} (lss : LastSignState) (fails sameHRS : Bool) (height round step : ℤ)
    (signBytes : Bytes) (onlyDifferByTimestamp : Bytes → Bytes → Except SignFailure (Time × Bool))
    (put : Option Time → Bytes → μ) : Except SignFailure (Outcome μ) :=
  if sameHRS then
    if signBytes = lss.signBytes.getD [] then .ok (.reused (put none (lss.signature.getD [])))
    else do
      let (timestamp, ok) ← onlyDifferByTimestamp (lss.signBytes.getD []) signBytes
      if ok then return .reused (put (some timestamp) (lss.signature.getD []))
      else .error (.err .conflictingData)
  else if fails then .error (.err .signFailed)
  else
    let sig := pv.privKeySign signBytes
    .ok (.signed (put none sig) ⟨height, round, step, some sig, some signBytes⟩)

def signVote (lss : LastSignState) (faults : Faults) (chainID : String) (vote : Vote)
    (signExtension : Bool) : Except SignFailure (Outcome Vote) := do
  let step ← voteToStep vote
  let sameHRS ← lss.checkHRS vote.height vote.round step
  let signBytes ← orPanic (pv.crypto.voteSignBytes chainID vote)
  let vote ← pv.extend signExtension faults.extension chainID vote
  pv.reuseOrSign lss faults.message sameHRS vote.height vote.round step signBytes
    pv.checkVotesOnlyDifferByTimestamp fun timestamp signature =>
      { vote with timestamp := timestamp.getD vote.timestamp, signature }

def signProposal (lss : LastSignState) (faults : Faults) (chainID : String) (proposal : Proposal) :
    Except SignFailure (Outcome Proposal) := do
  let sameHRS ← lss.checkHRS proposal.height proposal.round stepPropose
  let signBytes ← orPanic (pv.crypto.proposalSignBytes chainID proposal)
  pv.reuseOrSign lss faults.message sameHRS proposal.height proposal.round stepPropose signBytes
    pv.checkProposalsOnlyDifferByTimestamp fun timestamp signature =>
      { proposal with timestamp := timestamp.getD proposal.timestamp, signature }

end FilePV

/-! ### Messages of both kinds -/

/-- What a `FilePV` is asked to sign. -/
inductive Message where
  | vote (vote : Vote)
  | proposal (proposal : Proposal)
deriving DecidableEq, Repr

namespace Message

/-- The step that a message is for; no vote of another type is ever signed. -/
def step : Message → ℤ
  | .vote v => match v.type with
    | .prevote => stepPrevote
    | .precommit => stepPrecommit
    | _ => 0
  | .proposal _ => stepPropose

def hrs : Message → HRS
  | .vote v => Types.hrs v.height v.round (step (.vote v))
  | .proposal p => Types.hrs p.height p.round stepPropose

def signature : Message → Bytes
  | .vote v => v.signature
  | .proposal p => p.signature

def timestamp : Message → Time
  | .vote v => v.timestamp
  | .proposal p => p.timestamp

/-- The same request at another time. -/
def withTimestamp (timestamp : Time) : Message → Message
  | .vote v => .vote { v with timestamp }
  | .proposal p => .proposal { p with timestamp }

def signBytes (crypto : Crypto) (chainID : String) : Message → Except Failure Bytes
  | .vote v => crypto.voteSignBytes chainID v
  | .proposal p => crypto.proposalSignBytes chainID p

/-- Only a precommit for a block may have an extension, if extensions are signed. -/
def ExtensionAllowed (signExtension : Bool) : Message → Prop
  | .vote v => signExtension = true → (v.type = .precommit ∧ v.blockID.isNil = false) ∨
      v.extension = []
  | .proposal _ => True

end Message

def Outcome.map {μ ν : Type} (f : μ → ν) : Outcome μ → Outcome ν
  | .reused message => .reused (f message)
  | .signed message lss => .signed (f message) lss

/-- `SignVote` or `SignProposal`. -/
def FilePV.sign (pv : FilePV) (lss : LastSignState) (faults : Faults) (chainID : String)
    (signExtension : Bool) : Message → Except SignFailure (Outcome Message)
  | .vote v => Outcome.map .vote <$> pv.signVote lss faults chainID v signExtension
  | .proposal p => Outcome.map .proposal <$> pv.signProposal lss faults chainID p

/-! ### The process -/

/-- A message that was given back with a signature; whether that was a new one. -/
structure Release where
  chainID : String
  message : Message
  fresh : Bool
deriving DecidableEq, Repr

inductive Phase where
  | idle
  | saving (release : Release)
  | returning (release : Release)
deriving DecidableEq, Repr

/-- The state in memory and in the file, where a call is, and what was given back so far. -/
structure Process where
  mem : LastSignState := {}
  disk : LastSignState := {}
  phase : Phase := .idle
  released : List Release := []
deriving DecidableEq, Repr

inductive Action where
  | call (chainID : String) (message : Message) (signExtension : Bool) (faults : Faults)
  | save
  | return
  | crash
deriving DecidableEq, Repr

namespace Process

/-- The process is started again. -/
def restart (s : Process) : Process := { s with mem := s.disk.reload, phase := .idle }

def next (pv : FilePV) (s : Process) : Action → Option Process
  | .call chainID message signExtension faults =>
    match s.phase with
    | .idle =>
      match pv.sign s.mem faults chainID signExtension message with
      | .ok (.reused message) => some { s with phase := .returning ⟨chainID, message, false⟩ }
      | .ok (.signed message lss) =>
        some { s with mem := lss, phase := .saving ⟨chainID, message, true⟩ }
      | .error (.err _) => some s
      | .error (.panic _) => some s.restart
    | _ => none
  | .save =>
    match s.phase with
    | .saving release => some { s with disk := s.mem, phase := .returning release }
    | _ => none
  | .return =>
    match s.phase with
    | .returning release =>
      some { s with phase := .idle, released := s.released ++ [release] }
    | _ => none
  | .crash => some s.restart

end Process

/-! ### What a call does -/

/-- What the codec and the signatures are documented to do: decoding gives back what was encoded, the
encoding starts with its length, and what `Sign` returns is not empty and verifies. -/
structure FilePV.Sound (pv : FilePV) : Prop where
  decodeVote : ∀ v b, pv.crypto.encodeVote v = some b → pv.decodeVote b = some v ∧ b ≠ []
  decodeProposal : ∀ p b, pv.crypto.encodeProposal p = some b → pv.decodeProposal b = some p ∧ b ≠ []
  sign_ne_nil : ∀ b, pv.privKeySign b ≠ []
  verify : ∀ b, pv.crypto.verifySignature pv.pubKey b (pv.privKeySign b) = true

/-- The state after a message was signed. -/
structure LastSigned (pv : FilePV) (lss : LastSignState) (chainID : String) (m : Message) :
    Prop where
  hrs : lss.hrs = m.hrs
  step : 0 < m.step
  signBytes : ∃ bytes, m.signBytes pv.crypto chainID = .ok bytes ∧ lss.signBytes = some bytes ∧
    lss.signature = some (pv.privKeySign bytes)

/-- A state that some signature has led to, or the one before the first. -/
def Signed (pv : FilePV) (lss : LastSignState) : Prop :=
  (lss.signBytes = none ∧ lss.signature = none) ∨ ∃ chainID m, LastSigned pv lss chainID m

variable {pv : FilePV} {lss : LastSignState} {faults : Faults} {chainID : String} {ext : Bool}
  {m m' : Message}

variable {height round step : ℤ}

theorem checkHRS_true (h : lss.checkHRS height round step = .ok true) :
    lss.hrs = hrs height round step ∧ lss.signBytes ≠ none := by
  unfold LastSignState.checkHRS at h
  split_ifs at h with h₁ h₂ h₃ h₄ h₅ h₆ h₇
  · cases h
  · cases h
  · cases h
  · exact ⟨hrs_inj.mpr ⟨by omega, by omega, by omega⟩, h₇⟩

theorem checkHRS_false (h : lss.checkHRS height round step = .ok false) :
    lss.hrs < hrs height round step := by
  unfold LastSignState.checkHRS at h
  rw [LastSignState.hrs, hrs_lt_iff]
  split_ifs at h
  · omega
  · omega
  · omega
  · cases h

theorem checkHRS_of_eq (h : lss.hrs = hrs height round step) (hbytes : lss.signBytes ≠ none)
    (hsig : lss.signature ≠ none) :
    lss.checkHRS height round step = .ok true := by
  obtain ⟨hheight, hround, hstep⟩ := hrs_inj.mp h
  unfold LastSignState.checkHRS
  rw [if_neg (by omega), if_neg (by omega), if_neg (by omega), if_neg (by omega),
    if_neg (by omega), if_neg (by omega), if_neg hbytes, if_neg hsig]

variable {bytes : Bytes}

variable {check : Bytes → Bytes → Except SignFailure (Time × Bool)} {sameHRS : Bool}

/-- **The last part of a call**: the last signature is used again for a message that is the last one
up to its time, or a new one is made. -/
theorem reuseOrSign_spec {μ : Type} {fails : Bool} {put : Option Time → Bytes → μ} {o : Outcome μ}
    (h : pv.reuseOrSign lss fails sameHRS height round step bytes check put = .ok o) :
    (sameHRS = true ∧ ((bytes = lss.signBytes.getD [] ∧
        o = .reused (put none (lss.signature.getD []))) ∨
      ∃ t, check (lss.signBytes.getD []) bytes = .ok (t, true) ∧
        o = .reused (put (some t) (lss.signature.getD [])))) ∨
    (sameHRS = false ∧ o = .signed (put none (pv.privKeySign bytes))
      ⟨height, round, step, some (pv.privKeySign bytes), some bytes⟩) := by
  unfold FilePV.reuseOrSign at h
  split at h
  · rename_i hsame
    refine .inl ⟨hsame, ?_⟩
    split at h
    · rename_i hbytes
      exact .inl ⟨hbytes, (Except.ok.inj h).symm⟩
    · obtain ⟨⟨t, ok⟩, hcheck, h⟩ := ok_of_bind h
      dsimp only at h
      split at h
      · rename_i hok
        exact .inr ⟨t, by rw [hcheck, hok], (Except.ok.inj h).symm⟩
      · cases h
  · rename_i hsame
    split at h
    · cases h
    · exact .inr ⟨by simpa using hsame, (Except.ok.inj h).symm⟩

/-! ### Sign bytes -/

variable {v : Vote}

/-- The canonical form has the time, and not the signatures. -/
theorem canonicalizeVote_withTimestamp {c : CanonicalVote} (t : Time) (sig extSig : Bytes)
    (h : canonicalizeVote chainID v = .ok c) :
    canonicalizeVote chainID { v with timestamp := t, signature := sig, extensionSignature := extSig }
      = .ok { c with timestamp := t } := by
  obtain ⟨b, hb, h⟩ := ok_of_bind h
  cases h
  unfold canonicalizeVote
  rw [hb]
  rfl

theorem canonicalizeProposal_withTimestamp {p : Proposal} {c : CanonicalProposal} (t : Time)
    (sig : Bytes) (h : canonicalizeProposal chainID p = .ok c) :
    canonicalizeProposal chainID { p with timestamp := t, signature := sig } =
      .ok { c with timestamp := t } := by
  obtain ⟨b, hb, h⟩ := ok_of_bind h
  cases h
  unfold canonicalizeProposal
  rw [hb]
  rfl

/-- Two messages that differ by their times only are the same when they have the same time. -/
theorem CanonicalVote.withTimestamp_eq {c c₀ : CanonicalVote}
    (h : { c with timestamp := 0 } = { c₀ with timestamp := 0 }) :
    { c with timestamp := c₀.timestamp } = c₀ := by
  obtain ⟨_, _, _, _, _, _⟩ := c
  obtain ⟨_, _, _, _, _, _⟩ := c₀
  cases h
  rfl

theorem CanonicalProposal.withTimestamp_eq {c c₀ : CanonicalProposal}
    (h : { c with timestamp := 0 } = { c₀ with timestamp := 0 }) :
    { c with timestamp := c₀.timestamp } = c₀ := by
  obtain ⟨_, _, _, _, _, _, _⟩ := c
  obtain ⟨_, _, _, _, _, _, _⟩ := c₀
  cases h
  rfl

theorem extend_spec {fails : Bool} {v' : Vote} (h : pv.extend ext fails chainID v = .ok v') :
    ∃ extSig, v' = { v with extensionSignature := extSig } := by
  unfold FilePV.extend at h
  split_ifs at h
  · exact ⟨_, (Except.ok.inj h).symm⟩
  · exact ⟨_, (Except.ok.inj h).symm⟩
  · exact ⟨v.extensionSignature, (Except.ok.inj h).symm⟩

theorem voteToStep_spec (h : voteToStep v = .ok step) :
    (Message.vote v).step = step ∧ 1 < step := by
  obtain ⟨type, _⟩ := v
  cases type with
  | prevote =>
    cases h
    exact ⟨rfl, by decide⟩
  | precommit =>
    cases h
    exact ⟨rfl, by decide⟩
  | _ => cases h

theorem voteToStep_of_pos (h : 0 < (Message.vote v).step) :
    voteToStep v = .ok (Message.vote v).step := by
  obtain ⟨type, _⟩ := v
  cases type with
  | prevote => rfl
  | precommit => rfl
  | _ => exact absurd h (lt_irrefl 0)

/-- What is compared are the messages that were encoded. -/
theorem onlyDifferByTimestamp_eq {κ : Type} [DecidableEq κ] {decode : Bytes → Option κ}
    {what : String} {timestamp : κ → Time} {withTimestamp : κ → Time → κ} {last new : κ}
    {lastBytes newBytes : Bytes} (hlast : decode lastBytes = some last)
    (hnew : decode newBytes = some new) :
    FilePV.onlyDifferByTimestamp decode what timestamp withTimestamp lastBytes newBytes =
      .ok (timestamp last, withTimestamp new 0 = withTimestamp last 0) := by
  unfold FilePV.onlyDifferByTimestamp
  rw [hlast, hnew]

/-- A state for a later step than that of a proposal was left by a vote. -/
theorem LastSigned.exists_vote (h : LastSigned pv lss chainID m) (hstep : 1 < lss.step) :
    ∃ v, m = .vote v := by
  cases m with
  | vote v => exact ⟨v, rfl⟩
  | proposal p =>
    have := (hrs_inj.mp h.hrs).2.2
    unfold stepPropose at this
    omega

theorem LastSigned.exists_proposal (h : LastSigned pv lss chainID m) (hstep : lss.step = 1) :
    ∃ p, m = .proposal p := by
  cases m with
  | proposal p => exact ⟨p, rfl⟩
  | vote v =>
    have hlt := (voteToStep_spec (voteToStep_of_pos h.step)).2
    have := (hrs_inj.mp h.hrs).2.2
    omega

/-- What a call did that returned no error. -/
inductive Call (pv : FilePV) (lss : LastSignState) (chainID : String) (m : Message) :
    Outcome Message → Prop where
  | reused {m' : Message} (hlast : LastSigned pv lss chainID m')
      (hsig : lss.signature = some m'.signature) : Call pv lss chainID m (.reused m')
  | signed {m' : Message} {lss' : LastSignState} (hlt : lss.hrs < lss'.hrs)
      (hlast : LastSigned pv lss' chainID m') (hsig : lss'.signature = some m'.signature) :
      Call pv lss chainID m (.signed m' lss')

/-- A message with the sign bytes of the last one and its signature. -/
theorem LastSigned.reused {chainID' : String} {m₀ : Message} (h : LastSigned pv lss chainID' m₀)
    (hhrs : lss.hrs = m'.hrs) (hstep : 0 < m'.step)
    (hbytes : m'.signBytes pv.crypto chainID = .ok (lss.signBytes.getD []))
    (hsig : m'.signature = lss.signature.getD []) : Call pv lss chainID m (.reused m') := by
  obtain ⟨b, -, hb, hs⟩ := h.signBytes
  rw [hb] at hbytes
  rw [hs] at hsig
  exact .reused ⟨hhrs, hstep, b, hbytes, hb, hs⟩ (by rw [hs, hsig]; rfl)

section

variable (hpv : pv.Sound) (hsigned : Signed pv lss)

include hpv hsigned

theorem signVote_spec {o : Outcome Vote} (h : pv.signVote lss faults chainID v ext = .ok o) :
    Call pv lss chainID (.vote v) (o.map .vote) := by
  obtain ⟨step, hstep, h⟩ := ok_of_bind h
  obtain ⟨sameHRS, hcheck, h⟩ := ok_of_bind h
  obtain ⟨bytes, hbytes, h⟩ := ok_of_bind h
  obtain ⟨v₁, hv₁, h⟩ := ok_of_bind h
  obtain ⟨rfl, hpos⟩ := voteToStep_spec hstep
  obtain ⟨extSig, rfl⟩ := extend_spec hv₁
  obtain ⟨c, hc, hencode⟩ := voteSignBytes_eq_ok.mp (ok_of_orPanic hbytes)
  have hpos' := zero_lt_one.trans hpos
  -- without the signatures it is the request
  have hrequest : ∀ sig, (Message.vote { v with signature := sig, extensionSignature := extSig
      }).signBytes pv.crypto chainID = .ok bytes := fun sig => ok_of_orPanic hbytes
  rcases reuseOrSign_spec h with ⟨rfl, hreused⟩ | ⟨rfl, rfl⟩
  · obtain ⟨hhrs, hne⟩ := checkHRS_true hcheck
    rcases hsigned with ⟨hnone, -⟩ | ⟨chainID', m₀, hlast⟩
    · exact absurd hnone hne
    rcases hreused with ⟨rfl, rfl⟩ | ⟨t, hdiffer, rfl⟩
    · exact hlast.reused hhrs hpos' (hrequest _) rfl
    · refine hlast.reused hhrs hpos' ?_ rfl
      obtain ⟨v₀, rfl⟩ := hlast.exists_vote ((hrs_inj.mp hhrs).2.2 ▸ hpos)
      obtain ⟨lastBytes, hlastBytes, hb, -⟩ := hlast.signBytes
      obtain ⟨c₀, -, hencode₀⟩ := voteSignBytes_eq_ok.mp hlastBytes
      rw [hb] at hdiffer ⊢
      unfold FilePV.checkVotesOnlyDifferByTimestamp at hdiffer
      rw [getD_some, onlyDifferByTimestamp_eq (hpv.decodeVote _ _ hencode₀).1
        (hpv.decodeVote _ _ hencode).1] at hdiffer
      obtain ⟨rfl, hsame⟩ := Prod.mk.inj (Except.ok.inj hdiffer)
      refine voteSignBytes_eq_ok.mpr ⟨_, canonicalizeVote_withTimestamp _ _ _ hc, ?_⟩
      have heq := CanonicalVote.withTimestamp_eq (of_decide_eq_true hsame)
      exact (congrArg pv.crypto.encodeVote heq).trans hencode₀
  · exact .signed (checkHRS_false hcheck) ⟨rfl, hpos', bytes, hrequest _, rfl, rfl⟩ rfl

theorem signProposal_spec {p : Proposal} {o : Outcome Proposal}
    (h : pv.signProposal lss faults chainID p = .ok o) :
    Call pv lss chainID (.proposal p) (o.map .proposal) := by
  obtain ⟨sameHRS, hcheck, h⟩ := ok_of_bind h
  obtain ⟨bytes, hbytes, h⟩ := ok_of_bind h
  obtain ⟨c, hc, hencode⟩ := proposalSignBytes_eq_ok.mp (ok_of_orPanic hbytes)
  have hpos : 0 < (Message.proposal p).step := zero_lt_one
  have hrequest : ∀ sig, (Message.proposal { p with signature := sig }).signBytes pv.crypto chainID =
      .ok bytes := fun sig => ok_of_orPanic hbytes
  rcases reuseOrSign_spec h with ⟨rfl, hreused⟩ | ⟨rfl, rfl⟩
  · obtain ⟨hhrs, hne⟩ := checkHRS_true hcheck
    rcases hsigned with ⟨hnone, -⟩ | ⟨chainID', m₀, hlast⟩
    · exact absurd hnone hne
    rcases hreused with ⟨rfl, rfl⟩ | ⟨t, hdiffer, rfl⟩
    · exact hlast.reused hhrs hpos (hrequest _) rfl
    · refine hlast.reused hhrs hpos ?_ rfl
      obtain ⟨p₀, rfl⟩ := hlast.exists_proposal (hrs_inj.mp hhrs).2.2
      obtain ⟨lastBytes, hlastBytes, hb, -⟩ := hlast.signBytes
      obtain ⟨c₀, -, hencode₀⟩ := proposalSignBytes_eq_ok.mp hlastBytes
      rw [hb] at hdiffer ⊢
      unfold FilePV.checkProposalsOnlyDifferByTimestamp at hdiffer
      rw [getD_some, onlyDifferByTimestamp_eq (hpv.decodeProposal _ _ hencode₀).1
        (hpv.decodeProposal _ _ hencode).1] at hdiffer
      obtain ⟨rfl, hsame⟩ := Prod.mk.inj (Except.ok.inj hdiffer)
      refine proposalSignBytes_eq_ok.mpr ⟨_, canonicalizeProposal_withTimestamp _ _ hc, ?_⟩
      have heq := CanonicalProposal.withTimestamp_eq (of_decide_eq_true hsame)
      exact (congrArg pv.crypto.encodeProposal heq).trans hencode₀
  · exact .signed (checkHRS_false hcheck) ⟨rfl, hpos, bytes, hrequest _, rfl, rfl⟩ rfl

/-- **A call** reuses the last signature, or makes one for a later step. -/
theorem sign_spec {o : Outcome Message} (h : pv.sign lss faults chainID ext m = .ok o) :
    Call pv lss chainID m o := by
  cases m with
  | vote v =>
    obtain ⟨o, ho, rfl⟩ := ok_of_map h
    exact signVote_spec hpv hsigned ho
  | proposal p =>
    obtain ⟨o, ho, rfl⟩ := ok_of_map h
    exact signProposal_spec hpv hsigned ho

end

/-! ### Requests for another time -/

theorem extend_of_allowed (pv : FilePV) (chainID : String)
    (h : (Message.vote v).ExtensionAllowed ext) : ∃ v', pv.extend ext false chainID v = .ok v' := by
  unfold FilePV.extend
  split
  · rename_i hext
    split
    · exact ⟨_, rfl⟩
    · rename_i hnot
      rw [if_neg (not_not.mpr ((h hext).resolve_left hnot))]
      exact ⟨_, rfl⟩
  · exact ⟨v, rfl⟩

/-- The last signature is used again, with the last time if the times differ. -/
theorem reuseOrSign_of_same {μ : Type} {lastBytes sig : Bytes} {put : Option Time → Bytes → μ}
    {t : Time} (hb : lss.signBytes = some lastBytes) (hsig : lss.signature = some sig)
    (hcheck : check lastBytes bytes = .ok (t, true)) :
    ∃ o, pv.reuseOrSign lss false true height round step bytes check put =
      .ok (.reused (put o sig)) ∧ (o = none ∧ bytes = lastBytes ∨ o = some t) := by
  unfold FilePV.reuseOrSign
  rw [hb, hsig, if_pos rfl, getD_some, getD_some]
  split
  · rename_i hsame
    exact ⟨none, rfl, .inl ⟨rfl, hsame⟩⟩
  · rw [hcheck]
    exact ⟨some t, rfl, .inr rfl⟩

theorem signVote_eq {w w' : Vote} (hstep : voteToStep w = .ok step)
    (hcheck : lss.checkHRS w.height w.round step = .ok sameHRS)
    (hbytes : pv.crypto.voteSignBytes chainID w = .ok bytes)
    (hextend : pv.extend ext faults.extension chainID w = .ok w') :
    pv.signVote lss faults chainID w ext =
      pv.reuseOrSign lss faults.message sameHRS w'.height w'.round step bytes
        pv.checkVotesOnlyDifferByTimestamp fun timestamp signature =>
          { w' with timestamp := timestamp.getD w'.timestamp, signature } := by
  unfold FilePV.signVote
  rw [bind_of_ok hstep, bind_of_ok hcheck, hbytes]
  exact bind_of_ok hextend _

theorem signProposal_eq {q : Proposal}
    (hcheck : lss.checkHRS q.height q.round stepPropose = .ok sameHRS)
    (hbytes : pv.crypto.proposalSignBytes chainID q = .ok bytes) :
    pv.signProposal lss faults chainID q =
      pv.reuseOrSign lss faults.message sameHRS q.height q.round stepPropose bytes
        pv.checkProposalsOnlyDifferByTimestamp fun timestamp signature =>
          { q with timestamp := timestamp.getD q.timestamp, signature } := by
  unfold FilePV.signProposal
  rw [bind_of_ok hcheck, hbytes]
  rfl

/-- **A request that differs from the last message by its time only** gets the signature and the time
of that message. -/
theorem sign_withTimestamp (hpv : pv.Sound) (hlast : LastSigned pv lss chainID m) {t : Time}
    (hbytes : (m.withTimestamp t).signBytes pv.crypto chainID = .ok bytes)
    (hallowed : m.ExtensionAllowed ext) :
    ∃ m', pv.sign lss {} chainID ext (m.withTimestamp t) = .ok (.reused m') ∧
      m'.timestamp = m.timestamp ∧ lss.signature = some m'.signature := by
  obtain ⟨lastBytes, hlastBytes, hb, hsig⟩ := hlast.signBytes
  have hcheck : ∀ h r s, m.hrs = hrs h r s → lss.checkHRS h r s = .ok true := fun h r s heq =>
    checkHRS_of_eq (hlast.hrs.trans heq) (by rw [hb]; exact nofun) (by rw [hsig]; exact nofun)
  cases m with
  | vote v =>
    obtain ⟨v', hv'⟩ := extend_of_allowed pv chainID
      (show (Message.vote { v with timestamp := t }).ExtensionAllowed ext from hallowed)
    obtain ⟨extSig, rfl⟩ := extend_spec hv'
    obtain ⟨c, hc, hencode⟩ := voteSignBytes_eq_ok.mp hlastBytes
    obtain ⟨c', hc', hencode'⟩ := voteSignBytes_eq_ok.mp hbytes
    have hsame : ∀ t, canonicalizeVote chainID { v with timestamp := t } =
        .ok { c with timestamp := t } := fun t => canonicalizeVote_withTimestamp t _ _ hc
    obtain rfl : { c with timestamp := t } = c' := Except.ok.inj ((hsame t).symm.trans hc')
    have htime : c.timestamp = v.timestamp := by
      rw [Except.ok.inj (hc.symm.trans (hsame v.timestamp))]
    have hdiffer : pv.checkVotesOnlyDifferByTimestamp lastBytes bytes = .ok (v.timestamp, true) := by
      unfold FilePV.checkVotesOnlyDifferByTimestamp
      rw [onlyDifferByTimestamp_eq (hpv.decodeVote _ _ hencode).1 (hpv.decodeVote _ _ hencode').1,
        htime, decide_eq_true rfl]
    have hsign : ∃ o, pv.signVote lss {} chainID { v with timestamp := t } ext = .ok (.reused { v with
        timestamp := o.getD t, signature := pv.privKeySign lastBytes, extensionSignature := extSig }) ∧
          (o = none ∧ bytes = lastBytes ∨ o = some v.timestamp) := by
      rw [signVote_eq (w := { v with timestamp := t }) (voteToStep_of_pos hlast.step)
        (hcheck _ _ _ rfl) hbytes hv']
      exact reuseOrSign_of_same hb hsig hdiffer
    obtain ⟨o, ho, htimes⟩ := hsign
    refine ⟨_, congrArg (fun x => Outcome.map Message.vote <$> x) ho, ?_, hsig⟩
    rcases htimes with ⟨rfl, rfl⟩ | rfl
    · -- the same bytes are decoded to the same time
      have hdecode := (hpv.decodeVote _ _ hencode).1
      rw [(hpv.decodeVote _ _ hencode').1] at hdecode
      exact (congrArg CanonicalVote.timestamp (some.inj hdecode)).trans htime
    · rfl
  | proposal p =>
    obtain ⟨c, hc, hencode⟩ := proposalSignBytes_eq_ok.mp hlastBytes
    obtain ⟨c', hc', hencode'⟩ := proposalSignBytes_eq_ok.mp hbytes
    have hsame : ∀ t, canonicalizeProposal chainID { p with timestamp := t } =
        .ok { c with timestamp := t } := fun t => canonicalizeProposal_withTimestamp t _ hc
    obtain rfl : { c with timestamp := t } = c' := Except.ok.inj ((hsame t).symm.trans hc')
    have htime : c.timestamp = p.timestamp := by
      rw [Except.ok.inj (hc.symm.trans (hsame p.timestamp))]
    have hdiffer : pv.checkProposalsOnlyDifferByTimestamp lastBytes bytes =
        .ok (p.timestamp, true) := by
      unfold FilePV.checkProposalsOnlyDifferByTimestamp
      rw [onlyDifferByTimestamp_eq (hpv.decodeProposal _ _ hencode).1
        (hpv.decodeProposal _ _ hencode').1, htime, decide_eq_true rfl]
    have hsign : ∃ o, pv.signProposal lss {} chainID { p with timestamp := t } = .ok (.reused { p with
        timestamp := o.getD t, signature := pv.privKeySign lastBytes }) ∧
          (o = none ∧ bytes = lastBytes ∨ o = some p.timestamp) := by
      rw [signProposal_eq (q := { p with timestamp := t }) (hcheck _ _ _ rfl) hbytes]
      exact reuseOrSign_of_same hb hsig hdiffer
    obtain ⟨o, ho, htimes⟩ := hsign
    refine ⟨_, congrArg (fun x => Outcome.map Message.proposal <$> x) ho, ?_, hsig⟩
    rcases htimes with ⟨rfl, rfl⟩ | rfl
    · have hdecode := (hpv.decodeProposal _ _ hencode).1
      rw [(hpv.decodeProposal _ _ hencode').1] at hdecode
      exact (congrArg CanonicalProposal.timestamp (some.inj hdecode)).trans htime
    · rfl

/-! ### Runs -/

/-- What is known while a call is in a phase. -/
def Process.InPhase (pv : FilePV) (s : Process) : Phase → Prop
  | .idle => s.mem = s.disk
  | .saving r => s.disk.hrs < s.mem.hrs ∧ LastSigned pv s.mem r.chainID r.message ∧
      s.mem.signature = some r.message.signature
  | .returning r => s.mem = s.disk ∧ LastSigned pv s.disk r.chainID r.message ∧
      s.disk.signature = some r.message.signature ∧
      (r.fresh = true → ∀ e ∈ s.released, e.message.hrs < s.disk.hrs)

/-- What holds in every state of a run: the file has the last message that was signed and saved, and
all that was given back is for an earlier step or has the sign bytes of that message. -/
structure Process.Inv (pv : FilePV) (s : Process) : Prop where
  signed : Signed pv s.disk
  phase : s.InPhase pv s.phase
  released : ∀ e ∈ s.released, e.message.hrs ≤ s.disk.hrs ∧
    (e.message.hrs = s.disk.hrs → LastSigned pv s.disk e.chainID e.message)
  verifies : ∀ e ∈ s.released, ∃ bytes, e.message.signBytes pv.crypto e.chainID = .ok bytes ∧
    e.message.signature = pv.privKeySign bytes
  unique : ∀ e ∈ s.released, ∀ e' ∈ s.released, e.message.hrs = e'.message.hrs →
    e.message.signBytes pv.crypto e.chainID = e'.message.signBytes pv.crypto e'.chainID
  increasing : (s.released.filter Release.fresh).Pairwise fun e e' => e.message.hrs < e'.message.hrs

/-- Two messages that one state was left by have the same sign bytes. -/
theorem LastSigned.signBytes_eq {chainID' : String} (h : LastSigned pv lss chainID m)
    (h' : LastSigned pv lss chainID' m') :
    m.signBytes pv.crypto chainID = m'.signBytes pv.crypto chainID' := by
  obtain ⟨bytes, hm, hb, -⟩ := h.signBytes
  obtain ⟨bytes', hm', hb', -⟩ := h'.signBytes
  rw [hm, hm', some.inj (hb.symm.trans hb')]

theorem signBytes_ne_nil (hpv : pv.Sound) (h : m.signBytes pv.crypto chainID = .ok bytes) :
    bytes ≠ [] := by
  cases m with
  | vote v =>
    obtain ⟨c, -, hencode⟩ := voteSignBytes_eq_ok.mp h
    exact (hpv.decodeVote _ _ hencode).2
  | proposal p =>
    obtain ⟨c, -, hencode⟩ := proposalSignBytes_eq_ok.mp h
    exact (hpv.decodeProposal _ _ hencode).2

/-- Nothing of a state that was saved is lost in the file. -/
theorem reload_eq (hpv : pv.Sound) (h : Signed pv lss) : lss.reload = lss := by
  have homit : ∀ o, o ≠ some [] → LastSignState.omitEmpty o = o := by
    rintro (_ | _ | _) ho
    · rfl
    · exact absurd rfl ho
    · rfl
  have hne : lss.signBytes ≠ some [] ∧ lss.signature ≠ some [] := by
    rcases h with ⟨hbytes, hsig⟩ | ⟨chainID, m, hlast⟩
    · rw [hbytes, hsig]
      exact ⟨nofun, nofun⟩
    · obtain ⟨bytes, hm, hbytes, hsig⟩ := hlast.signBytes
      rw [hbytes, hsig]
      refine ⟨fun h => signBytes_ne_nil hpv hm (some.inj h), fun h => ?_⟩
      exact hpv.sign_ne_nil bytes (some.inj h)
  unfold LastSignState.reload
  rw [homit _ hne.1, homit _ hne.2]

namespace Process

variable {s s' : Process} {a : Action}

theorem inv_start (pv : FilePV) : Inv pv {} := by
  refine ⟨.inl ⟨rfl, rfl⟩, rfl, ?_, ?_, ?_, .nil⟩
  · rintro e ⟨⟩
  · rintro e ⟨⟩
  · rintro e ⟨⟩

/-- **A crash** forgets the call and what was not saved. -/
theorem Inv.restart (hpv : pv.Sound) (h : Inv pv s) : Inv pv s.restart :=
  ⟨h.signed, reload_eq hpv h.signed, h.released, h.verifies, h.unique, h.increasing⟩

theorem Inv.call (hpv : pv.Sound) (h : Inv pv s)
    (hnext : Process.next pv s (.call chainID m ext faults) = some s') : Inv pv s' := by
  unfold Process.next at hnext
  dsimp only at hnext
  split at hnext
  · rename_i hidle
    have hmem : s.InPhase pv .idle := hidle ▸ h.phase
    change s.mem = s.disk at hmem
    have hsigned := h.signed
    rw [← hmem] at hsigned
    split at hnext
    · rename_i hsign
      cases hnext
      cases sign_spec hpv hsigned hsign with
      | reused hlast hsig =>
        refine ⟨h.signed, ⟨hmem, hmem ▸ hlast, hmem ▸ hsig, nofun⟩, h.released, h.verifies, h.unique,
          h.increasing⟩
    · rename_i hsign
      cases hnext
      cases sign_spec hpv hsigned hsign with
      | signed hlt hlast hsig =>
        exact ⟨h.signed, ⟨hmem ▸ hlt, hlast, hsig⟩, h.released, h.verifies, h.unique, h.increasing⟩
    · cases hnext
      exact h
    · cases hnext
      exact h.restart hpv
  · cases hnext

theorem Inv.save (h : Inv pv s) (hnext : Process.next pv s .save = some s') : Inv pv s' := by
  unfold Process.next at hnext
  dsimp only at hnext
  split at hnext
  · rename_i r hsaving
    obtain ⟨hlt, hlast, hsig⟩ : s.InPhase pv (.saving r) := hsaving ▸ h.phase
    cases hnext
    have hbefore : ∀ e ∈ s.released, e.message.hrs < s.mem.hrs := fun e he =>
      (h.released e he).1.trans_lt hlt
    exact ⟨.inr ⟨_, _, hlast⟩, ⟨rfl, hlast, hsig, fun _ => hbefore⟩,
      fun e he => ⟨(hbefore e he).le, fun heq => absurd heq (hbefore e he).ne⟩, h.verifies, h.unique,
      h.increasing⟩
  · cases hnext

theorem Inv.return (h : Inv pv s) (hnext : Process.next pv s .return = some s') : Inv pv s' := by
  unfold Process.next at hnext
  dsimp only at hnext
  split at hnext
  · rename_i r hreturning
    obtain ⟨hmem, hlast, hsig, hfresh⟩ : s.InPhase pv (.returning r) := hreturning ▸ h.phase
    cases hnext
    have hsame : ∀ e ∈ s.released, e.message.hrs = r.message.hrs →
        e.message.signBytes pv.crypto e.chainID = r.message.signBytes pv.crypto r.chainID :=
      fun e he heq => ((h.released e he).2 (heq.trans hlast.hrs.symm)).signBytes_eq hlast
    refine ⟨h.signed, hmem, fun e he => ?_, fun e he => ?_, fun e he e' he' heq => ?_, ?_⟩
    · rcases mem_append.mp he with he | he
      · exact h.released e he
      · obtain rfl := mem_singleton.mp he
        exact ⟨hlast.hrs.ge, fun _ => hlast⟩
    · rcases mem_append.mp he with he | he
      · exact h.verifies e he
      · obtain rfl := mem_singleton.mp he
        obtain ⟨bytes, hbytes, -, hsig'⟩ := hlast.signBytes
        exact ⟨bytes, hbytes, some.inj (hsig.symm.trans hsig')⟩
    · rcases mem_append.mp he with hold | hnew
      · rcases mem_append.mp he' with hold' | hnew'
        · exact h.unique e hold e' hold' heq
        · rw [mem_singleton.mp hnew'] at heq ⊢
          exact hsame e hold heq
      · rw [mem_singleton.mp hnew] at heq ⊢
        rcases mem_append.mp he' with hold' | hnew'
        · exact (hsame e' hold' heq.symm).symm
        · rw [mem_singleton.mp hnew']
    · change ((s.released ++ [r]).filter Release.fresh).Pairwise _
      rw [filter_append]
      cases hr : r.fresh with
      | true =>
        rw [filter_singleton, hr]
        refine pairwise_append.mpr ⟨h.increasing, pairwise_singleton _ _, ?_⟩
        intro e he r' hr'
        obtain rfl := mem_singleton.mp hr'
        rw [← hlast.hrs]
        exact hfresh hr e (mem_of_mem_filter he)
      | false =>
        rw [filter_singleton, hr, cond_false, append_nil]
        exact h.increasing
  · cases hnext

/-- **A step** of the process. -/
theorem Inv.next (hpv : pv.Sound) (h : Inv pv s) (hnext : Process.next pv s a = some s') :
    Inv pv s' := by
  cases a with
  | call => exact h.call hpv hnext
  | save => exact h.save hnext
  | «return» => exact h.return hnext
  | crash =>
    cases hnext
    exact h.restart hpv

/-- **No double signing**, whatever is asked for and wherever the process crashes. For each step at
most one value of the sign bytes is given back with a signature; the new signatures are for later and
later steps; every signature verifies against the message it is given back with. And a request that
differs from the message that was signed last by its time only gets the signature and the time of that
message. -/
theorem no_double_signing (hpv : pv.Sound) (hrun : Reachable (Process.next pv) {} s) :
    (∀ e ∈ s.released, ∀ e' ∈ s.released, e.message.hrs = e'.message.hrs →
      e.message.signBytes pv.crypto e.chainID = e'.message.signBytes pv.crypto e'.chainID) ∧
    ((s.released.filter Release.fresh).Pairwise fun e e' => e.message.hrs < e'.message.hrs) ∧
    (∀ e ∈ s.released, ∃ bytes, e.message.signBytes pv.crypto e.chainID = .ok bytes ∧
      pv.crypto.verifySignature pv.pubKey bytes e.message.signature = true) ∧
    (∀ chainID m t ext bytes, LastSigned pv s.mem chainID m →
      (m.withTimestamp t).signBytes pv.crypto chainID = .ok bytes → m.ExtensionAllowed ext →
      ∃ m', pv.sign s.mem {} chainID ext (m.withTimestamp t) = .ok (.reused m') ∧
        m'.timestamp = m.timestamp ∧ s.mem.signature = some m'.signature) ∧
    (∀ e ∈ s.released, s.phase = .idle → e.message.hrs = s.mem.hrs →
      LastSigned pv s.mem e.chainID e.message ∧ s.mem.signature = some e.message.signature) := by
  have hinv : Inv pv s := Steps.invariant hrun (inv_start pv)
    fun _ _ _ h _ hnext => h.next hpv hnext
  refine ⟨hinv.unique, hinv.increasing, fun e he => ?_, fun chainID m t ext bytes hlast hbytes hext =>
    sign_withTimestamp hpv hlast hbytes hext, fun e he hidle heq => ?_⟩
  · obtain ⟨bytes, hbytes, hsig⟩ := hinv.verifies e he
    exact ⟨bytes, hbytes, hsig ▸ hpv.verify bytes⟩
  · have hmem : s.InPhase pv .idle := hidle ▸ hinv.phase
    change s.mem = s.disk at hmem
    rw [hmem] at heq ⊢
    have hlast := (hinv.released e he).2 heq
    refine ⟨hlast, ?_⟩
    obtain ⟨bytes, hbytes, hsig⟩ := hinv.verifies e he
    obtain ⟨bytes', hbytes', -, hsig'⟩ := hlast.signBytes
    rw [hsig', hsig, Except.ok.inj (hbytes.symm.trans hbytes')]

/-! ### A signer for two votes -/

/-- A prevote of which only the time is open. -/
def prevoteAt (timestamp : Time) : Vote where
  type := .prevote
  height := 1
  round := 0
  blockID := ⟨replicate 32 1, ⟨1, replicate 32 1⟩⟩
  timestamp := timestamp
  validatorAddress := []
  validatorIndex := 0

def canonicalAt (timestamp : Time) : CanonicalVote :=
  ⟨.prevote, 1, 0, some (prevoteAt 0).blockID, timestamp, "chain"⟩

/-- It can encode one prevote at two times. -/
def twoTimes : FilePV where
  crypto := {
    address := fun key => key.bytes
    verifySignature := fun _ bytes sig => sig = 0 :: bytes
    encodeVote := fun v =>
      if v = canonicalAt 1 then some [1] else if v = canonicalAt 2 then some [2] else none
    encodeVoteExtension := fun _ => []
    encodeProposal := fun _ => none }
  pubKey := ⟨"", []⟩
  privKeySign bytes := 0 :: bytes
  decodeVote bytes :=
    if bytes = [1] then some (canonicalAt 1) else if bytes = [2] then some (canonicalAt 2) else none
  decodeProposal _ := none

theorem twoTimes_sound : twoTimes.Sound := by
  refine ⟨fun v b h => ?_, nofun, nofun, fun b => decide_eq_true rfl⟩
  change (if _ then _ else _) = _ at h
  split_ifs at h with h₁ h₂
  · cases h
    exact ⟨congrArg some h₁.symm, by decide⟩
  · cases h
    exact ⟨congrArg some h₂.symm, by decide⟩

/-- A prevote, a crash between the save and the return, and the same prevote at another time. -/
theorem no_double_signing_after_crash : ∃ s, Reachable (Process.next twoTimes) {} s ∧
    s.released = [⟨"chain", .vote { prevoteAt 1 with signature := [0, 1] }, false⟩] ∧
    ∀ e ∈ s.released, ∃ bytes, e.message.signBytes twoTimes.crypto e.chainID = .ok bytes ∧
      twoTimes.crypto.verifySignature twoTimes.pubKey bytes e.message.signature = true := by
  have hexec : exec (Process.next twoTimes) {} [.call "chain" (.vote (prevoteAt 1)) false {}, .save,
      .crash, .call "chain" (.vote (prevoteAt 2)) false {}, .return] =
        some ⟨⟨1, 0, 2, some [0, 1], some [1]⟩, ⟨1, 0, 2, some [0, 1], some [1]⟩, .idle,
          [⟨"chain", .vote { prevoteAt 1 with signature := [0, 1] }, false⟩]⟩ := by decide +kernel
  have hrun := steps_of_exec hexec
  exact ⟨_, hrun, rfl, (no_double_signing twoTimes_sound hrun).2.2.1⟩

end Process

end CometBFT.Privval
