/-!
# Computations that can fail

How a result of a composed computation is taken apart, and the ways in which the runtime of a
language stops one.
-/

namespace CometBFT

open List

inductive RuntimeError where
  | indexOutOfRange
  | makesliceLen
  | nilDereference
deriving DecidableEq, Repr

universe u v w

variable {ε : Type v} {α β : Type u}

variable {f : α → Except ε β} {x : Except ε α}

/-- If a computation has a result, each of its parts has one. -/
theorem ok_of_bind {r : β} (h : x >>= f = .ok r) : ∃ a, x = .ok a ∧ f a = .ok r := by
  cases x with
  | error e => cases h
  | ok a => exact ⟨a, rfl, h⟩

theorem bind_of_ok {a : α} (h : x = .ok a) (f : α → Except ε β) :
    x >>= f = f a := by
  rw [h]
  rfl

theorem bind_of_error {e : ε} (h : x = .error e) (f : α → Except ε β) :
    x >>= f = .error e := by
  rw [h]
  rfl

theorem ok_of_map {f : α → β} {r : β} (h : f <$> x = .ok r) :
    ∃ a, x = .ok a ∧ f a = r := by
  cases x with
  | error e => cases h
  | ok a => exact ⟨a, rfl, Except.ok.inj h⟩

/-- A list of checks that finds nothing: the first of them did not, nor did the rest. -/
theorem of_check_eq_none {α : Type u} {c : Prop} [Decidable c] {e : α} {rest : Option α}
    (h : (if c then some e else rest) = none) : ¬c ∧ rest = none := by
  split at h
  · cases h
  · exact ⟨‹_›, h⟩

/-- A computation that succeeds for each element. -/
theorem mapM_eq_map {α β : Type u} {f : α → Except ε β} {g : α → β} {l : List α}
    (h : ∀ a ∈ l, f a = .ok (g a)) : l.mapM f = .ok (l.map g) := by
  induction l with
  | nil => rfl
  | cons a l ih =>
    rw [mapM_cons, bind_of_ok (h a mem_cons_self),
      bind_of_ok (ih fun b hb => h b (mem_cons_of_mem a hb))]
    rfl

/-- A computation that gives each element back. -/
theorem mapM_eq_self {α : Type u} {f : α → Except ε α} {l : List α} (h : ∀ a ∈ l, f a = .ok a) :
    l.mapM f = .ok l := by
  rw [mapM_eq_map (g := id) h, map_id]

theorem mapM_ne_nil {α β : Type u} {f : α → Except ε β} {l : List α} {r : List β}
    (h : l.mapM f = .ok r) (hne : l ≠ []) : r ≠ [] := by
  rintro rfl
  obtain ⟨a, l, rfl⟩ := exists_cons_of_ne_nil hne
  rw [mapM_cons] at h
  obtain ⟨b, -, h⟩ := ok_of_bind h
  obtain ⟨r, -, h⟩ := ok_of_bind h
  cases h

/-- What each round of a loop keeps holds after the loop. -/
theorem of_foldlM {α : Type w} {f : β → α → Except ε β} {P : β → Prop} {l : List α} {b r : β}
    (hb : P b) (hround : ∀ b, ∀ a ∈ l, ∀ b', P b → f b a = .ok b' → P b')
    (h : l.foldlM f b = .ok r) : P r := by
  induction l generalizing b with
  | nil =>
    cases h
    exact hb
  | cons a l ih =>
    rw [foldlM_cons] at h
    obtain ⟨b', hb', h⟩ := ok_of_bind h
    exact ih (hround b a mem_cons_self b' hb hb')
      (fun b a ha => hround b a (mem_cons_of_mem _ ha)) h

/-- Each element of a list that was computed comes from the one at its place. -/
theorem exists_getElem?_of_mapM {α β : Type u} {f : α → Except ε β} {l : List α} {r : List β}
    (h : l.mapM f = .ok r) {i : Nat} {b : β} (hb : r[i]? = some b) :
    ∃ a, l[i]? = some a ∧ f a = .ok b := by
  induction l generalizing r i with
  | nil =>
    cases h
    cases hb
  | cons a l ih =>
    rw [mapM_cons] at h
    obtain ⟨b', hb', h⟩ := ok_of_bind h
    obtain ⟨r', hr', h⟩ := ok_of_bind h
    cases h
    cases i with
    | zero =>
      cases hb
      exact ⟨a, rfl, hb'⟩
    | succ i => exact ih hr' hb

theorem mapM_eq_map_iff {α β : Type u} {f : α → Except ε β} {g : α → β} {l : List α} :
    l.mapM f = .ok (l.map g) ↔ ∀ a ∈ l, f a = .ok (g a) := by
  refine ⟨fun h a ha => ?_, mapM_eq_map⟩
  obtain ⟨i, hi⟩ := getElem?_of_mem ha
  obtain ⟨a', ha', hf⟩ := exists_getElem?_of_mapM h (i := i) (b := g a) (by rw [getElem?_map, hi]; rfl)
  rw [hi] at ha'
  exact Option.some.inj ha' ▸ hf

end CometBFT
