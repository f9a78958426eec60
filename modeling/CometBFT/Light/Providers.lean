import CometBFT.Lib.SwapRemove
import CometBFT.Light.Verifier

/-!
# Primary and witnesses

The model of `lightBlockFromPrimary`, `findNewPrimary` and `removeWitnesses` in `light/client.go`. A
client has a primary, which it asks for light blocks, and witnesses, which it compares them with. If
the primary does not answer, the first witness that does takes its place.

The witnesses are asked at the same time. Their responses are a list here, in the order in which they
arrive. What a provider is does not matter, so the type of providers is a variable. All of this is done
under a mutex.

## Main results

* `removeWitnesses_spec` — the witnesses at the indices are gone, in range and without repetitions
* `findNewPrimary_of_none`, `findNewPrimary_of_some` — what the responses before the first light block
  do, and what it does
* `primary_never_witness` — primary and witnesses stay different, as long as a witness is left
* `primary_becomes_witness` — the last witness becomes the primary and stays a witness
-/

namespace CometBFT.Light

open CometBFT.Types List Option

inductive ProviderError where
  | heightTooHigh
  | lightBlockNotFound
  | noResponse
  /-- `context.Canceled`. -/
  | canceled
  /-- `context.DeadlineExceeded`. -/
  | deadlineExceeded
  | badLightBlock
  /-- Any other error. -/
  | other (msg : String)
deriving DecidableEq, Repr

/-- The errors for which a provider is not removed. -/
def ProviderError.benign : ProviderError → Bool
  | .heightTooHigh => true
  | .lightBlockNotFound => true
  | .noResponse => true
  | _ => false

/-- The errors of a context. -/
def ProviderError.context : ProviderError → Bool
  | .canceled => true
  | .deadlineExceeded => true
  | _ => false

/-- What a provider answers. -/
abbrev Reply := Except ProviderError LightBlock

inductive ClientError where
  | noWitnesses
  | provider (e : ProviderError)
  /-- The last error of a witness. -/
  | lastError (e : Option ProviderError)
deriving DecidableEq, Repr

/-- The two fields of `Client` with its providers. -/
structure Providers (P : Type*) where
  primary : P
  witnesses : List P
deriving DecidableEq, Repr

/-- `witnessResponse`. -/
structure Response where
  witnessIndex : ℕ
  reply : Reply

namespace Providers

variable {P : Type*} (c : Providers P)

def removeWitnesses (indexes : List ℕ) : Except Failure (Providers P × Option ClientError) :=
  if c.witnesses.length ≤ indexes.length then .ok (c, some .noWitnesses)
  else
    match (indexes.insertionSort (· ≤ ·)).reverse.foldlM swapRemove c.witnesses with
    | none => .error (.panic "index out of range")
    | some witnesses => .ok ({ c with witnesses }, none)

/-- The first witness that responds with a light block becomes the primary. -/
def promote (remove : Bool) (witnessesToRemove : List ℕ) (witnessIndex : ℕ) (lb : LightBlock) :
    Except Failure (Providers P × Except ClientError LightBlock) :=
  let witnesses := if remove then c.witnesses else c.witnesses ++ [c.primary]
  match witnesses[witnessIndex]? with
  | none => .error (.panic "index out of range")
  | some primary => do
    let (c, err) ← removeWitnesses ⟨primary, witnesses⟩ (witnessesToRemove ++ [witnessIndex])
    match err with
    | some e => return (c, .error e)
    | none => return (c, .ok lb)

/-- The loop of `findNewPrimary` over the responses. -/
def readResponses (remove : Bool) :
    List Response → List ℕ → Option ProviderError →
      Except Failure (Providers P × Except ClientError LightBlock)
  | [], witnessesToRemove, lastError => do
    -- that too many would be removed is only logged
    let (c, _) ← c.removeWitnesses witnessesToRemove
    return (c, .error (.lastError lastError))
  | response :: rest, witnessesToRemove, _ =>
    match response.reply with
    | .ok lb => c.promote remove witnessesToRemove response.witnessIndex lb
    | .error e =>
      if e.benign then readResponses remove rest witnessesToRemove (some e)
      else readResponses remove rest (witnessesToRemove ++ [response.witnessIndex]) (some e)

def findNewPrimary (responses : List Response) (remove : Bool) :
    Except Failure (Providers P × Except ClientError LightBlock) :=
  if c.witnesses = [] then .ok (c, .error .noWitnesses)
  else c.readResponses remove responses [] none

def lightBlockFromPrimary (reply : Reply) (responses : List Response) :
    Except Failure (Providers P × Except ClientError LightBlock) :=
  match reply with
  | .ok l => .ok (c, .ok l)
  | .error e =>
    if e.context then .ok (c, .error (.provider e))
    else c.findNewPrimary responses (!e.benign)

/-! ### What they do -/

/-- Each witness responds once. -/
def Arrives (responses : List Response) : Prop :=
  (responses.map Response.witnessIndex).Perm (range c.witnesses.length)

/-- The first light block, and the witness it is from. -/
def firstBlock : List Response → Option (ℕ × LightBlock)
  | [] => none
  | response :: rest =>
    match response.reply with
    | .ok lb => some (response.witnessIndex, lb)
    | .error _ => firstBlock rest

/-- The witnesses with an error that is not benign, before the first light block. -/
def malevolent : List Response → List ℕ
  | [] => []
  | response :: rest =>
    match response.reply with
    | .ok _ => []
    | .error e => if e.benign then malevolent rest else response.witnessIndex :: malevolent rest

/-- The last error, if there is no light block. -/
def lastError (last : Option ProviderError) : List Response → Option ProviderError
  | [] => last
  | response :: rest =>
    match response.reply with
    | .ok _ => last
    | .error e => lastError (some e) rest

theorem readResponses_eq (remove : Bool) (responses : List Response) (toRemove : List ℕ)
    (last : Option ProviderError) :
    c.readResponses remove responses toRemove last =
      match firstBlock responses with
      | some (i, lb) => c.promote remove (toRemove ++ malevolent responses) i lb
      | none => do
        let (c, _) ← c.removeWitnesses (toRemove ++ malevolent responses)
        return (c, .error (.lastError (lastError last responses))) := by
  induction responses generalizing toRemove last with
  | nil =>
    rw [readResponses, malevolent, append_nil]
    rfl
  | cons response rest ih =>
    rw [readResponses]
    cases hreply : response.reply with
    | ok lb =>
      rw [malevolent, firstBlock, hreply]
      dsimp only
      rw [append_nil]
    | error e =>
      rw [malevolent, firstBlock, lastError, hreply]
      dsimp only
      by_cases hbenign : e.benign = true
      · rw [if_pos hbenign, if_pos hbenign, ih]
      · rw [if_neg hbenign, if_neg hbenign, ih, append_assoc, singleton_append]

variable {c}

/-- The witnesses that are removed or promoted are among those that respond, once each. -/
theorem sublist_malevolent (responses : List Response) :
    (malevolent responses ++ ((firstBlock responses).map Prod.fst).toList).Sublist
      (responses.map Response.witnessIndex) := by
  induction responses with
  | nil => exact .slnil
  | cons response rest ih =>
    rw [malevolent, firstBlock, map_cons]
    cases hreply : response.reply with
    | ok lb => exact (nil_sublist _).cons_cons _
    | error e =>
      dsimp only
      by_cases hbenign : e.benign = true
      · rw [if_pos hbenign]
        exact ih.cons _
      · rw [if_neg hbenign, cons_append]
        exact ih.cons_cons _

/-- Indices in range and without repetitions. -/
def Indexes (n : ℕ) (indexes : List ℕ) : Prop := indexes.Nodup ∧ ∀ i ∈ indexes, i < n

instance (n : ℕ) (indexes : List ℕ) : Decidable (Indexes n indexes) :=
  inferInstanceAs (Decidable (_ ∧ _))

instance (responses : List Response) : Decidable (c.Arrives responses) :=
  inferInstanceAs (Decidable (List.Perm _ _))

variable {responses : List Response}

theorem Arrives.indexes (h : c.Arrives responses) :
    Indexes c.witnesses.length
      (malevolent responses ++ ((firstBlock responses).map Prod.fst).toList) := by
  have hsub := sublist_malevolent responses
  refine ⟨hsub.nodup (h.nodup_iff.mpr nodup_range), fun i hi => ?_⟩
  exact mem_range.mp (h.mem_iff.mp (hsub.subset hi))

/-- **Removal**: nothing is removed, or what is at the indices. -/
theorem removeWitnesses_spec {indexes : List ℕ} (h : Indexes c.witnesses.length indexes) :
    (c.witnesses.length ≤ indexes.length ∧ c.removeWitnesses indexes = .ok (c, some .noWitnesses)) ∨
      indexes.length < c.witnesses.length ∧ ∃ ws, c.removeWitnesses indexes = .ok (⟨c.primary, ws⟩, none) ∧
        ws.Perm (without indexes c.witnesses) := by
  unfold removeWitnesses
  by_cases hle : c.witnesses.length ≤ indexes.length
  · rw [if_pos hle]
    exact .inl ⟨hle, rfl⟩
  · rw [if_neg hle]
    have hperm : (indexes.insertionSort (· ≤ ·)).reverse.Perm indexes :=
      (reverse_perm _).trans (perm_insertionSort _ _)
    have hdesc : (indexes.insertionSort (· ≤ ·)).reverse.Pairwise (· > ·) := by
      rw [pairwise_reverse]
      have hsorted := pairwise_insertionSort (· ≤ ·) indexes
      have hnodup : (indexes.insertionSort (· ≤ ·)).Nodup :=
        (perm_insertionSort _ _).nodup_iff.mpr h.1
      exact (hsorted.and hnodup).imp fun h => lt_of_le_of_ne h.1 h.2
    obtain ⟨ws, hws, hwithout⟩ := exists_foldlM_swapRemove hdesc fun i hi =>
      h.2 i (hperm.mem_iff.mp hi)
    rw [hws]
    refine .inr ⟨not_le.mp hle, ws, rfl, ?_⟩
    rwa [without_congr fun i => hperm.mem_iff] at hwithout

/-- What `findNewPrimary` does if no witness responds with a light block. -/
theorem findNewPrimary_of_none (remove : Bool) (harrives : c.Arrives responses)
    (hfirst : firstBlock responses = none) :
    ∃ c' e, c.findNewPrimary responses remove = .ok (c', .error e) ∧ c'.primary = c.primary ∧
      (c'.witnesses = c.witnesses ∨
        c'.witnesses.Perm (without (malevolent responses) c.witnesses)) := by
  unfold findNewPrimary
  by_cases hempty : c.witnesses = []
  · rw [if_pos hempty]
    exact ⟨c, _, rfl, rfl, .inl rfl⟩
  rw [if_neg hempty, readResponses_eq, hfirst, nil_append]
  have hindexes := harrives.indexes
  rw [hfirst, map_none, toList_none, append_nil] at hindexes
  rcases removeWitnesses_spec hindexes with ⟨-, hremove⟩ | ⟨-, ws, hremove, hperm⟩
  · dsimp only
    rw [hremove]
    exact ⟨c, _, rfl, rfl, .inl rfl⟩
  · dsimp only
    rw [hremove]
    exact ⟨_, _, rfl, rfl, .inr hperm⟩

/-- The witnesses when one is promoted: the old primary is one of them, unless it is removed. -/
def candidates (c : Providers P) (remove : Bool) : List P :=
  if remove then c.witnesses else c.witnesses ++ [c.primary]

theorem getElem?_candidates {remove : Bool} {i : ℕ} (hi : i < c.witnesses.length) :
    (c.candidates remove)[i]? = c.witnesses[i]? := by
  unfold candidates
  cases remove with
  | true => rfl
  | false => exact getElem?_append_left hi

variable {lb : LightBlock}

/-- What `findNewPrimary` does with the first light block. -/
theorem findNewPrimary_of_some (remove : Bool) {i : ℕ} (harrives : c.Arrives responses)
    (hfirst : firstBlock responses = some (i, lb)) :
    ∃ w, c.witnesses[i]? = some w ∧
      (((c.candidates remove).length ≤ (malevolent responses).length + 1 ∧
        c.findNewPrimary responses remove =
          .ok (⟨w, c.candidates remove⟩, .error .noWitnesses)) ∨
      ((malevolent responses).length + 1 < (c.candidates remove).length ∧
        ∃ ws, c.findNewPrimary responses remove = .ok (⟨w, ws⟩, .ok lb) ∧
          (w :: ws).Perm (without (malevolent responses) (c.candidates remove)))) := by
  have hindexes := harrives.indexes
  rw [hfirst, map_some, toList_some] at hindexes
  have hi : i < c.witnesses.length :=
    hindexes.2 i (mem_append_right _ (mem_singleton_self i))
  have hnot : i ∉ malevolent responses := fun hmem =>
    (nodup_append.mp hindexes.1).2.2 i hmem i (mem_singleton_self i) rfl
  obtain ⟨w, hw⟩ : ∃ w, c.witnesses[i]? = some w := ⟨_, getElem?_eq_getElem hi⟩
  refine ⟨w, hw, ?_⟩
  have hw' : (c.candidates remove)[i]? = some w := (getElem?_candidates hi).trans hw
  have hle : c.witnesses.length ≤ (c.candidates remove).length := by
    unfold candidates
    cases remove with
    | true => exact Nat.le_refl _
    | false =>
      rw [if_neg Bool.false_ne_true, length_append]
      omega
  have hfind : c.findNewPrimary responses remove = do
      let (c, err) ← removeWitnesses ⟨w, c.candidates remove⟩ (malevolent responses ++ [i])
      match err with
      | some e => return (c, .error e)
      | none => return (c, .ok lb) := by
    unfold findNewPrimary
    rw [if_neg (ne_nil_of_length_pos (by omega)), readResponses_eq, hfirst, nil_append]
    change (match (c.candidates remove)[i]? with | none => _ | some _ => _) = _
    rw [hw']
    rfl
  have hindexes' : Indexes (c.candidates remove).length (malevolent responses ++ [i]) :=
    ⟨hindexes.1, fun j hj => Nat.lt_of_lt_of_le (hindexes.2 j hj) hle⟩
  have hspec := removeWitnesses_spec (c := ⟨w, c.candidates remove⟩) hindexes'
  rw [length_append, length_singleton] at hspec
  rw [hfind]
  rcases hspec with ⟨hle, hremove⟩ | ⟨hlt, ws, hremove, hperm⟩
  · rw [hremove]
    exact .inl ⟨hle, rfl⟩
  · rw [hremove]
    exact .inr ⟨hlt, ws, rfl, (hperm.cons w).trans (cons_without_perm hnot hw')⟩

theorem exists_mem_of_firstBlock {i : ℕ} (h : firstBlock responses = some (i, lb)) :
    ∃ r ∈ responses, r.reply = .ok lb := by
  induction responses with
  | nil => cases h
  | cons response rest ih =>
    rw [firstBlock] at h
    cases hreply : response.reply with
    | ok lb' =>
      rw [hreply] at h
      cases h
      exact ⟨response, mem_cons_self, hreply⟩
    | error e =>
      rw [hreply] at h
      obtain ⟨r, hr, hlb⟩ := ih h
      exact ⟨r, mem_cons_of_mem _ hr, hlb⟩

variable {c' : Providers P}

/-- What `findNewPrimary` returns is the response of a witness. -/
theorem exists_mem_of_findNewPrimary {remove : Bool}
    (h : c.findNewPrimary responses remove = .ok (c', .ok lb)) :
    ∃ r ∈ responses, r.reply = .ok lb := by
  unfold findNewPrimary at h
  split at h
  · cases h
  rw [readResponses_eq] at h
  cases hfirst : firstBlock responses with
  | none =>
    rw [hfirst] at h
    obtain ⟨_, -, h⟩ := ok_of_bind h
    cases h
  | some found =>
    obtain ⟨i, lb'⟩ := found
    rw [hfirst] at h
    dsimp only [promote] at h
    split at h
    · cases h
    · obtain ⟨⟨_, err⟩, -, h⟩ := ok_of_bind h
      cases err with
      | some e => cases h
      | none =>
        cases h
        exact exists_mem_of_firstBlock hfirst

/-- What `lightBlockFromPrimary` returns is the reply of the primary or the response of a witness. -/
theorem mem_of_lightBlockFromPrimary {reply : Reply}
    (h : c.lightBlockFromPrimary reply responses = .ok (c', .ok lb)) :
    reply = .ok lb ∨ ∃ r ∈ responses, r.reply = .ok lb := by
  unfold lightBlockFromPrimary at h
  split at h
  · cases h
    exact .inl rfl
  · split at h
    · cases h
    · exact .inr (exists_mem_of_findNewPrimary h)

/-- The providers that are left, in other words. -/
theorem without_candidates (remove : Bool) (harrives : c.Arrives responses) :
    (without (malevolent responses) (c.candidates remove)).Perm
      ((if remove then [] else [c.primary]) ++ without (malevolent responses) c.witnesses) := by
  unfold candidates
  cases remove with
  | true => exact .refl _
  | false =>
    have hlt : ∀ i ∈ malevolent responses, i < c.witnesses.length := fun i hi =>
      harrives.indexes.2 i (mem_append_left _ hi)
    rw [if_neg Bool.false_ne_true, if_neg Bool.false_ne_true, without_append hlt]
    exact perm_append_comm

/-! ### Runs -/

/-- What changes the providers of a client. -/
inductive Op where
  | findNewPrimary (responses : List Response) (remove : Bool)
  /-- The end of `detectDivergence` and `compareFirstLightBlockWithWitnesses`. -/
  | removeWitnesses (indexes : List ℕ)

/-- One operation; none if it panics, or if it is not one that can be. -/
def next (c : Providers P) : Op → Option (Providers P)
  | .findNewPrimary responses remove =>
    if c.Arrives responses then (c.findNewPrimary responses remove).toOption.map Prod.fst else none
  | .removeWitnesses indexes =>
    if Indexes c.witnesses.length indexes then (c.removeWitnesses indexes).toOption.map Prod.fst
    else none

/-- A witness is left after a promotion. -/
def LeavesWitness (c : Providers P) : Op → Prop
  | .findNewPrimary responses remove =>
    (firstBlock responses).isSome = true →
      (malevolent responses).length + 1 < (c.candidates remove).length
  | .removeWitnesses _ => True

instance (c : Providers P) (op : Op) : Decidable (c.LeavesWitness op) :=
  match op with
  | .findNewPrimary _ _ => inferInstanceAs (Decidable (_ → _))
  | .removeWitnesses _ => inferInstanceAs (Decidable True)

/-- The providers are different. -/
def Distinct (c : Providers P) : Prop := (c.primary :: c.witnesses).Nodup

theorem Distinct.sub (h : c.Distinct) (hprimary : c'.primary = c.primary) {ws : List P}
    (hws : ws.Sublist c.witnesses) (hperm : c'.witnesses.Perm ws) : c'.Distinct := by
  have hnodup : (c.primary :: ws).Nodup := (hws.cons_cons _).nodup h
  unfold Distinct
  rw [hprimary]
  exact (hperm.cons _).nodup_iff.mpr hnodup

/-- **The step.** Different providers stay different. -/
theorem Distinct.next {op : Op} (h : c.Distinct) (hleaves : c.LeavesWitness op)
    (hnext : c.next op = some c') : c'.Distinct := by
  cases op with
  | findNewPrimary responses remove =>
    rw [Providers.next] at hnext
    split at hnext
    · rename_i harrives
      cases hfirst : firstBlock responses with
      | none =>
        obtain ⟨c₁, e, hfind, hprimary, hws⟩ := findNewPrimary_of_none remove harrives hfirst
        rw [hfind] at hnext
        obtain rfl : c₁ = c' := some.inj hnext
        rcases hws with hws | hperm
        · exact h.sub hprimary (.refl _) (hws ▸ .refl _)
        · exact h.sub hprimary (without_sublist _ _) hperm
      | some found =>
        obtain ⟨i, lb⟩ := found
        have hlt := hleaves (by rw [hfirst]; rfl)
        obtain ⟨w, -, ⟨hle, -⟩ | ⟨-, ws, hfind, hperm⟩⟩ :=
          findNewPrimary_of_some remove harrives hfirst
        · omega
        · rw [hfind] at hnext
          obtain rfl := some.inj hnext
          refine hperm.nodup_iff.mpr ((without_candidates remove harrives).nodup_iff.mpr ?_)
          have hall : (c.primary :: without (malevolent responses) c.witnesses).Nodup :=
            ((without_sublist _ _).cons_cons _).nodup h
          cases remove with
          | true => exact (nodup_cons.mp hall).2
          | false => exact hall
    · cases hnext
  | removeWitnesses indexes =>
    rw [Providers.next] at hnext
    split at hnext
    · rename_i hindexes
      rcases removeWitnesses_spec hindexes with ⟨-, hremove⟩ | ⟨-, ws, hremove, hperm⟩
      · rw [hremove] at hnext
        obtain rfl := some.inj hnext
        exact h
      · rw [hremove] at hnext
        obtain rfl := some.inj hnext
        exact h.sub rfl (without_sublist _ _) hperm
    · cases hnext

/-- **The primary is never its own witness**, in every run in which each promotion leaves a witness:
all providers stay different. A promotion keeps those that gave no malevolent error, and if
`findNewPrimary` fails the primary is the same. -/
theorem primary_never_witness {c₀ c : Providers P} (h₀ : c₀.primary ∉ c₀.witnesses)
    (hnodup₀ : c₀.witnesses.Nodup) (hrun : Steps next LeavesWitness c₀ c) :
    c.primary ∉ c.witnesses ∧ c.witnesses.Nodup ∧
      ∀ responses remove, c.Arrives responses → c.LeavesWitness (.findNewPrimary responses remove) →
        ∃ c' r, c.findNewPrimary responses remove = .ok (c', r) ∧
          (∀ lb, r = .ok lb → (c'.primary :: c'.witnesses).Perm
            ((if remove then [] else [c.primary]) ++ without (malevolent responses) c.witnesses)) ∧
          ∀ e, r = .error e → c'.primary = c.primary := by
  have hdistinct : c.Distinct :=
    hrun.invariant (nodup_cons.mpr ⟨h₀, hnodup₀⟩) fun _ _ _ h hok hn => h.next hok hn
  obtain ⟨hprimary, hnodup⟩ := nodup_cons.mp hdistinct
  refine ⟨hprimary, hnodup, fun responses remove harrives hleaves => ?_⟩
  cases hfirst : firstBlock responses with
  | none =>
    obtain ⟨c', e, hfind, hsame, -⟩ := findNewPrimary_of_none remove harrives hfirst
    exact ⟨c', _, hfind, fun _ h => (nomatch h), fun _ _ => hsame⟩
  | some found =>
    obtain ⟨i, lb⟩ := found
    have hlt := hleaves (by rw [hfirst]; rfl)
    obtain ⟨w, -, ⟨hle, -⟩ | ⟨-, ws, hfind, hperm⟩⟩ :=
      findNewPrimary_of_some remove harrives hfirst
    · omega
    · exact ⟨⟨w, ws⟩, _, hfind, fun _ _ => hperm.trans (without_candidates remove harrives),
        fun _ h => nomatch h⟩

end Providers

/-! ### One witness, and two -/

/-- The only witness responds with a block. -/
def soleResponse : List Response := [⟨0, .ok (plainBlock 1 1 [])⟩]

/-- `removeWitnesses` refuses to remove the last witness when it is the primary already. -/
theorem primary_becomes_witness :
    Providers.Arrives ⟨0, [1]⟩ soleResponse ∧
      (Providers.findNewPrimary ⟨0, [1]⟩ soleResponse true).toOption.map
        (fun r => (r.1, r.2.toOption.isSome)) = some ((⟨1, [1]⟩ : Providers ℕ), false) := by
  decide +kernel

/-- Two promotions: the first witness gives a bad block and the second becomes the primary, then the
one that is left does. -/
theorem primary_never_witness_two :
    let responses : List Response := [⟨0, .error .badLightBlock⟩, ⟨1, .ok (plainBlock 1 1 [])⟩,
      ⟨2, .error .lightBlockNotFound⟩]
    let c₀ : Providers ℕ := ⟨0, [1, 2, 3]⟩
    let c : Providers ℕ := ⟨2, [3]⟩
    c₀.next (.findNewPrimary responses true) = some c ∧
      ∃ c' r, c.findNewPrimary soleResponse false = .ok (c', r) ∧
        ∀ e, r = .error e → c'.primary = c.primary := by
  intro responses c₀ c
  have hnext : c₀.next (.findNewPrimary responses true) = some c := by decide +kernel
  obtain ⟨-, -, hfind⟩ := Providers.primary_never_witness (by decide) (by decide)
    (.tail (.refl c₀) (by decide +kernel) hnext)
  obtain ⟨c', r, heq, -, herr⟩ := hfind soleResponse false (by decide +kernel) (by decide +kernel)
  exact ⟨hnext, c', r, heq, herr⟩

end CometBFT.Light
