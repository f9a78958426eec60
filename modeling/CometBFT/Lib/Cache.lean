import Mathlib.Logic.Function.Basic

/-!
# A table behind a cache

A table on disk, and a cache in front of it that holds some of its entries. A read looks into the
cache first; what it finds on disk goes into the cache. Entries leave the cache at any time, so
nothing is assumed of the policy.

An entry of the cache is *fresh* if it is what is on disk. A read of a fresh key is a read of the
disk, and neither reads nor evictions make a key stale: only writing to the disk does.

## Main results

* `Fresh.read_eq` — reading a fresh key
* `Within.load`, `Within.evict`, `Fresh.within` — a read and an eviction keep it fresh
-/

namespace CometBFT

open Function

section Tables

variable {κ ν : Type*} [DecidableEq κ] {table : κ → Option ν} {k k' : κ} {v v' : ν}

/-- An entry of a table that was written to is the new one, or one that was there. -/
theorem update_eq_some (h : update table k (some v) k' = some v') :
    k' = k ∧ v' = v ∨ k' ≠ k ∧ table k' = some v' := by
  by_cases hk : k' = k
  · rw [hk, update_self] at h
    exact .inl ⟨hk, (Option.some.inj h).symm⟩
  · rw [update_of_ne hk] at h
    exact .inr ⟨hk, h⟩

theorem update_none_eq_some (h : update table k none k' = some v') : table k' = some v' := by
  by_cases hk : k' = k
  · rw [hk, update_self] at h
    cases h
  · rwa [update_of_ne hk] at h

/-- A new entry leaves the others alone. -/
theorem update_of_none (hnone : table k = none) (h : table k' = some v') (o : Option ν) :
    update table k o k' = some v' := by
  rw [update_of_ne, h]
  rintro rfl
  rw [hnone] at h
  cases h

end Tables

namespace Cache

variable {κ ν : Type*} {cache cache' disk disk' : κ → Option ν} {k : κ}

/-- What a read returns. -/
def read (cache disk : κ → Option ν) (k : κ) : Option ν := (cache k).or (disk k)

/-- What the cache has under the key is on disk. -/
def Fresh (cache disk : κ → Option ν) (k : κ) : Prop := ∀ v, cache k = some v → disk k = some v

theorem Fresh.read_eq (h : Fresh cache disk k) : read cache disk k = disk k := by
  unfold read
  cases hc : cache k with
  | none => rfl
  | some v => exact (h v hc).symm

/-- Only the entries under the key count. -/
theorem Fresh.congr (h : Fresh cache disk k) (hcache : cache' k = cache k)
    (hdisk : disk' k = disk k) : Fresh cache' disk' k := by
  intro v hv
  rw [hdisk]
  exact h v (hcache.symm.trans hv)

/-- What the new cache holds was in the old one or is on disk. -/
def Within (cache' cache disk : κ → Option ν) : Prop :=
  ∀ k v, cache' k = some v → cache k = some v ∨ disk k = some v

theorem Fresh.within (h : Fresh cache disk k) (hw : Within cache' cache disk) :
    Fresh cache' disk k := by
  intro v hv
  rcases hw k v hv with hcache | hdisk
  · exact h v hcache
  · exact hdisk

theorem Within.eq_none (hw : Within cache' cache disk) (hcache : cache k = none)
    (hdisk : disk k = none) : cache' k = none := by
  refine Option.eq_none_iff_forall_ne_some.mpr fun v hv => ?_
  rcases hw k v hv with h | h
  · rw [hcache] at h
    cases h
  · rw [hdisk] at h
    cases h

theorem Within.refl (cache disk : κ → Option ν) : Within cache cache disk := fun _ _ => .inl

theorem Within.empty (cache disk : κ → Option ν) : Within (fun _ => none) cache disk := by
  intro k v hv
  cases hv

section Loads

variable [DecidableEq κ]

/-- The cache after a read. -/
def load (cache disk : κ → Option ν) (k : κ) : κ → Option ν := update cache k (read cache disk k)

def evict (cache : κ → Option ν) (k : κ) : κ → Option ν := update cache k none

theorem Within.load (cache disk : κ → Option ν) (k' : κ) : Within (load cache disk k') cache disk := by
  intro k v hv
  by_cases hk : k = k'
  · subst hk
    rw [Cache.load, update_self, read] at hv
    exact (Option.or_eq_some_iff.mp hv).imp_right And.right
  · rw [Cache.load, update_of_ne hk] at hv
    exact .inl hv

theorem Within.evict (cache disk : κ → Option ν) (k' : κ) : Within (evict cache k') cache disk := by
  intro k v hv
  exact .inl (update_none_eq_some hv)

end Loads

end Cache

end CometBFT
