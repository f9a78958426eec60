import Mathlib.Data.List.Nodup

/-!
# Tables with an index

A slice of elements, and a map from the key of an element to the element and its place in the slice.
An element is removed by its key: the last element of the slice takes its place, and the map is told
so.

The two parts are *consistent* if the map says of a key what the slice says. Then no key is in the
slice twice, and a removal never follows a pointer that is not there.

## Main results

* `Consistent.add`, `Consistent.remove` — both operations keep the parts consistent
* `Consistent.keys_nodup` — no key twice
-/

namespace CometBFT

open Function List

/-! ### A map and a slice -/

section Indexes

variable {α κ : Type*} {key : α → κ} {lookup : κ → Option (α × ℕ)} {list : List α} {x y : α} {k : κ}
  {i j : ℕ}

/-- The map says of a key what the slice says. -/
def Indexes (key : α → κ) (lookup : κ → Option (α × ℕ)) (list : List α) : Prop :=
  ∀ k x i, lookup k = some (x, i) ↔ list[i]? = some x ∧ key x = k

namespace Indexes

theorem nil : Indexes key (fun _ => none) ([] : List α) := by
  intro k x i
  constructor
  · intro h
    cases h
  · rintro ⟨h, -⟩
    cases h

theorem eq_of_key (h : Indexes key lookup list) (hx : list[i]? = some x) (hy : list[j]? = some y)
    (hkey : key x = key y) : i = j := by
  have hx' := (h (key x) x i).mpr ⟨hx, rfl⟩
  have hy' := (h (key x) y j).mpr ⟨hy, hkey.symm⟩
  exact (Prod.mk.inj (Option.some.inj (hx'.symm.trans hy'))).2

theorem keys_nodup (h : Indexes key lookup list) : (list.map key).Nodup := by
  rw [nodup_iff_getElem?_ne_getElem?]
  intro i j hij hj heq
  rw [length_map] at hj
  rw [getElem?_map, getElem?_map, getElem?_eq_getElem (Nat.lt_trans hij hj),
    getElem?_eq_getElem hj] at heq
  exact Nat.ne_of_lt hij (h.eq_of_key (getElem?_eq_getElem _) (getElem?_eq_getElem hj)
    (Option.some.inj heq))

variable [DecidableEq κ]

theorem concat (h : Indexes key lookup list) (hnone : lookup (key x) = none) :
    Indexes key (update lookup (key x) (some (x, list.length))) (list ++ [x]) := by
  intro k y i
  have hget : (list ++ [x])[i]? = some y ↔ list[i]? = some y ∨ i = list.length ∧ x = y := by
    rw [getElem?_append]
    split_ifs with hlt
    · exact ⟨.inl, fun h => h.resolve_right fun hi => absurd hi.1 (Nat.ne_of_lt hlt)⟩
    · rw [getElem?_singleton, getElem?_eq_none (l := list) (by omega)]
      split_ifs with hi
      · simp [show i = list.length by omega]
      · simp [show i ≠ list.length by omega]
  rw [hget]
  by_cases hk : k = key x
  · subst hk
    rw [update_self, Option.some.injEq, Prod.mk.injEq]
    constructor
    · rintro ⟨rfl, rfl⟩
      exact ⟨.inr ⟨rfl, rfl⟩, rfl⟩
    · rintro ⟨hi | ⟨rfl, rfl⟩, hkey⟩
      · rw [← hkey, (h _ y i).mpr ⟨hi, rfl⟩] at hnone
        cases hnone
      · exact ⟨rfl, rfl⟩
  · rw [update_of_ne hk, h k y i]
    constructor
    · rintro ⟨hi, hkey⟩
      exact ⟨.inl hi, hkey⟩
    · rintro ⟨hi | ⟨-, rfl⟩, rfl⟩
      · exact ⟨hi, rfl⟩
      · exact absurd rfl hk

/-- The last element goes. -/
theorem dropLast (h : Indexes key lookup list) (hx : list[list.length - 1]? = some x) :
    Indexes key (update lookup (key x) none) list.dropLast := by
  intro k y j
  rw [getElem?_dropLast]
  by_cases hk : k = key x
  · subst hk
    rw [update_self]
    constructor
    · intro hnone
      cases hnone
    · rintro ⟨hj, hkey⟩
      split at hj
      · have := h.eq_of_key hj hx hkey
        omega
      · cases hj
  · rw [update_of_ne hk, h k y j]
    constructor
    · rintro ⟨hj, rfl⟩
      have hlt := (List.getElem?_eq_some_iff.mp hj).1
      have hne : j ≠ list.length - 1 := by
        rintro rfl
        exact hk (congrArg key (Option.some.inj (hj.symm.trans hx)))
      rw [if_pos (by omega)]
      exact ⟨hj, rfl⟩
    · rintro ⟨hj, rfl⟩
      split at hj
      · exact ⟨hj, rfl⟩
      · cases hj

/-- The last element takes the place of another one. -/
theorem swap (h : Indexes key lookup list) (hx : list[i]? = some x)
    (hy : list[list.length - 1]? = some y) (hne : i ≠ list.length - 1) :
    Indexes key (update (update lookup (key x) none) (key y) (some (y, i)))
      (list.set i y).dropLast := by
  have hlt := (List.getElem?_eq_some_iff.mp hx).1
  have hkey : key y ≠ key x := fun heq => hne (h.eq_of_key hx hy heq.symm)
  intro k z j
  have hget : ((list.set i y).dropLast)[j]? = some z ↔
      j = i ∧ y = z ∨ j ≠ i ∧ j < list.length - 1 ∧ list[j]? = some z := by
    rw [getElem?_dropLast, length_set, getElem?_set]
    split_ifs with hj hji
    · simp [hji]
    · simp [Ne.symm hji, hj]
    · constructor
      · intro hnone
        cases hnone
      · rintro (⟨rfl, -⟩ | ⟨-, hj', -⟩)
        · omega
        · exact absurd hj' hj
  rw [hget]
  by_cases hky : k = key y
  · subst hky
    rw [update_self, Option.some.injEq, Prod.mk.injEq]
    constructor
    · rintro ⟨rfl, rfl⟩
      exact ⟨.inl ⟨rfl, rfl⟩, rfl⟩
    · rintro ⟨⟨rfl, rfl⟩ | ⟨-, hj, hz⟩, hkey'⟩
      · exact ⟨rfl, rfl⟩
      · have := h.eq_of_key hz hy hkey'
        omega
  · rw [update_of_ne hky]
    by_cases hkx : k = key x
    · subst hkx
      rw [update_self]
      constructor
      · intro hnone
        cases hnone
      · rintro ⟨⟨-, rfl⟩ | ⟨hji, -, hz⟩, hkey'⟩
        · exact absurd hkey' hkey
        · exact absurd (h.eq_of_key hz hx hkey') hji
    · rw [update_of_ne hkx, h k z j]
      constructor
      · rintro ⟨hz, rfl⟩
        have hj := (List.getElem?_eq_some_iff.mp hz).1
        refine ⟨.inr ⟨?_, ?_, hz⟩, rfl⟩
        · rintro rfl
          exact hkx (congrArg key (Option.some.inj (hz.symm.trans hx)))
        · have : j ≠ list.length - 1 := by
            rintro rfl
            exact hky (congrArg key (Option.some.inj (hz.symm.trans hy)))
          omega
      · rintro ⟨⟨-, rfl⟩ | ⟨-, -, hz⟩, rfl⟩
        · exact absurd rfl hky
        · exact ⟨hz, rfl⟩

end Indexes

end Indexes

/-! ### Tables -/

/-- A slice, and where the element of a key is in it. -/
structure IndexedTable (α κ : Type*) where
  lookup : κ → Option (α × ℕ) := fun _ => none
  list : List α := []

namespace IndexedTable

variable {α κ : Type*} [DecidableEq κ] (key : α → κ) (t : IndexedTable α κ)

omit [DecidableEq κ] in
/-- The element of a key. -/
def get (k : κ) : Option α := (t.lookup k).map Prod.fst

def add (x : α) : IndexedTable α κ where
  lookup := update t.lookup (key x) (some (x, t.list.length))
  list := t.list ++ [x]

/-- The table without the element of the key, and whether there was one; none if a pointer is nil or
an index out of range. -/
def remove (k : κ) : Option (IndexedTable α κ × Bool) :=
  match t.lookup k, t.list.getLast? with
  | some (_, index), some last =>
    let lookup := update t.lookup k none
    if index = t.list.length - 1 then some (⟨lookup, t.list.dropLast⟩, true)
    else match lookup (key last) with
      | none => none
      | some (item, _) =>
        if index < t.list.length then
          some (⟨update lookup (key last) (some (item, index)), (t.list.set index item).dropLast⟩,
            true)
        else none
  | _, _ => some (t, false)

omit [DecidableEq κ] in
/-- Both parts say the same. -/
def Consistent : Prop := Indexes key t.lookup t.list

variable {key t} {x : α} {k : κ} {i : ℕ}

theorem get_add (t : IndexedTable α κ) (x : α) (k : κ) :
    (t.add key x).get k = if k = key x then some x else t.get k := by
  unfold get IndexedTable.add
  by_cases hk : k = key x
  · simp [hk]
  · simp [hk]

theorem remove_of_none (hnone : t.get k = none) : t.remove key k = some (t, false) := by
  unfold remove
  rw [Option.map_eq_none_iff.mp hnone]

namespace Consistent

omit [DecidableEq κ] in
theorem empty : Consistent key {} := Indexes.nil

omit [DecidableEq κ] in
theorem keys_nodup (h : Consistent key t) : (t.list.map key).Nodup := Indexes.keys_nodup h

theorem add (h : Consistent key t) (hnone : t.get (key x) = none) : Consistent key (t.add key x) :=
  Indexes.concat h (Option.map_eq_none_iff.mp hnone)

/-- **A removal** succeeds, leaves the parts consistent, and takes the key out and no other. -/
theorem remove (h : Consistent key t) (hx : t.get k = some x) :
    ∃ t', t.remove key k = some (t', true) ∧ Consistent key t' ∧
      ∀ k', t'.get k' = if k' = k then none else t.get k' := by
  obtain ⟨⟨x', i⟩, hk, rfl⟩ := Option.map_eq_some_iff.mp hx
  obtain ⟨hi, rfl⟩ := (h k x' i).mp hk
  have hlt := (List.getElem?_eq_some_iff.mp hi).1
  have hne : t.list ≠ [] := List.ne_nil_of_length_pos (by omega)
  have hlast : t.list.getLast? = some (t.list.getLast hne) := getLast?_eq_some_getLast hne
  have hlast' : t.list[t.list.length - 1]? = some (t.list.getLast hne) := by
    rw [← getLast?_eq_getElem?, hlast]
  unfold IndexedTable.remove
  rw [hk, hlast]
  dsimp only
  by_cases hend : i = t.list.length - 1
  · rw [if_pos hend]
    refine ⟨_, rfl, Indexes.dropLast h (hend ▸ hi), fun k' => ?_⟩
    show Option.map Prod.fst (update t.lookup _ none k') = _
    rw [update_apply]
    split_ifs
    · rfl
    · rfl
  · have hkl : key (t.list.getLast hne) ≠ key x' := fun heq =>
      hend (Indexes.eq_of_key h hi hlast' heq.symm)
    have hitem := (h _ _ _).mpr ⟨hlast', rfl⟩
    rw [if_neg hend, update_of_ne hkl, hitem]
    dsimp only
    rw [if_pos hlt]
    refine ⟨_, rfl, Indexes.swap h hi hlast' hend, fun k' => ?_⟩
    show Option.map Prod.fst (update (update t.lookup _ none) _ _ k') = _
    by_cases hkl' : k' = key (t.list.getLast hne)
    · subst hkl'
      rw [update_self, if_neg hkl, get, hitem]
      rfl
    · rw [update_of_ne hkl', update_apply]
      split_ifs
      · rfl
      · rfl

end Consistent

end IndexedTable

end CometBFT
