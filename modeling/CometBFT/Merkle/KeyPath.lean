import CometBFT.Lib.Except
import CometBFT.Lib.Int64

/-!
# Key paths

The model of `crypto/merkle/proof_key_path.go`. A key path is written as a string, each key after a
slash and either escaped as a segment of a URL or, after `x:`, in hexadecimal digits. The strings are
byte strings, as those of the source. Of the standard library this module has `url.PathEscape` and
its inverse, `hex.DecodeString` and the verb `%X`.

An escaped key has no slash in it, but it can begin with `x:`, since a colon is not escaped.

## Main results

* `pathUnescape_pathEscape`, `hexDecode_hexEncode` — each encoding can be undone
* `key_path_decodes` — so can a whole path, if and only if no escaped key begins with `x:`
* `escaped_taken_for_hex` — the key of another path, or none, is read
-/

namespace CometBFT.Merkle

open List

inductive KeyEncoding where
  | url
  | hex
deriving DecidableEq, Repr

structure Key where
  name : List UInt8
  enc : KeyEncoding
deriving DecidableEq, Repr

/-! ### Two encodings -/

def upperhex (n : ℕ) : UInt8 := UInt8.ofNat (if n < 10 then 48 + n else 55 + n)

def hexByte (c : UInt8) : List UInt8 := [upperhex (c.toNat / 16), upperhex (c.toNat % 16)]

def unhex (c : UInt8) : Option ℕ :=
  if 48 ≤ c ∧ c ≤ 57 then some (c.toNat - 48)
  else if 97 ≤ c ∧ c ≤ 102 then some (c.toNat - 87)
  else if 65 ≤ c ∧ c ≤ 70 then some (c.toNat - 55)
  else none

/-- The byte that two digits stand for. -/
def unhexByte (a b : UInt8) : Option UInt8 :=
  (unhex a).bind fun x => (unhex b).map fun y => UInt8.ofNat (16 * x + y)

/-- `shouldEscape` for a segment of a path: letters, digits and `-_.~$&+=:@` are left alone. -/
def shouldEscape (c : UInt8) : Bool :=
  !(c.isASCIIAlphanum || c ∈ ([45, 95, 46, 126, 36, 38, 43, 61, 58, 64] : List UInt8))

/-- `url.PathEscape`. -/
def pathEscape (s : List UInt8) : List UInt8 :=
  s.flatMap fun c => if shouldEscape c then 37 :: hexByte c else [c]

/-- `url.PathUnescape`; none is an error. -/
def pathUnescape : List UInt8 → Option (List UInt8)
  | [] => some []
  | c :: rest =>
    if c = 37 then
      match rest with
      | a :: b :: rest => (unhexByte a b).bind fun c => (pathUnescape rest).map (c :: ·)
      | _ => none
    else (pathUnescape rest).map (c :: ·)

def hexEncode (s : List UInt8) : List UInt8 := s.flatMap hexByte

/-- `hex.DecodeString`. -/
def hexDecode : List UInt8 → Option (List UInt8)
  | [] => some []
  | a :: b :: rest => (unhexByte a b).bind fun c => (hexDecode rest).map (c :: ·)
  | [_] => none

/-- What stands for a key after its slash. -/
def Key.string (key : Key) : List UInt8 :=
  match key.enc with
  | .url => pathEscape key.name
  | .hex => 120 :: 58 :: hexEncode key.name

/-- `KeyPath.String`. -/
def pathString (path : List Key) : List UInt8 := path.flatMap fun key => 47 :: key.string

inductive KeyPathError where
  | noSlash
  | decodingHex (part : List UInt8)
  | decodingURL (part : List UInt8)
deriving DecidableEq, Repr

def decodePart (part : List UInt8) : Except KeyPathError (List UInt8) :=
  match part with
  | 120 :: 58 :: hexPart => ((hexDecode hexPart).map .ok).getD (.error (.decodingHex part))
  | _ => ((pathUnescape part).map .ok).getD (.error (.decodingURL part))

/-- `KeyPathToKeys`. -/
def keyPathToKeys (path : List UInt8) : Except KeyPathError (List (List UInt8)) :=
  match path with
  | 47 :: rest => (rest.splitOn 47).mapM decodePart
  | _ => .error .noSlash

/-! ### Each encoding can be undone -/

theorem unhex_upperhex : ∀ n < 16, unhex (upperhex n) = some n := by
  decide

theorem upperhex_ne_slash : ∀ n < 16, upperhex n ≠ 47 := by
  decide

theorem unhexByte_hexByte (c : UInt8) :
    unhexByte (upperhex (c.toNat / 16)) (upperhex (c.toNat % 16)) = some c := by
  have hlt := c.toNat_lt
  rw [unhexByte, unhex_upperhex _ (by omega), unhex_upperhex _ (by omega)]
  show some (UInt8.ofNat _) = _
  rw [Nat.div_add_mod, UInt8.ofNat_toNat]

theorem slash_not_mem_hexByte (c : UInt8) : 47 ∉ hexByte c := by
  have hlt := c.toNat_lt
  simp only [hexByte, mem_cons, not_mem_nil, or_false, not_or]
  exact ⟨(upperhex_ne_slash _ (by omega)).symm, (upperhex_ne_slash _ (by omega)).symm⟩

theorem hexDecode_hexEncode (s : List UInt8) : hexDecode (hexEncode s) = some s := by
  induction s with
  | nil => rfl
  | cons c s ih =>
    show (unhexByte _ _).bind _ = _
    rw [unhexByte_hexByte, Option.bind_some]
    exact congrArg (Option.map (c :: ·)) ih

theorem pathUnescape_pathEscape (s : List UInt8) : pathUnescape (pathEscape s) = some s := by
  induction s with
  | nil => rfl
  | cons c s ih =>
    rw [pathEscape, flatMap_cons]
    split
    · show (unhexByte _ _).bind _ = _
      rw [unhexByte_hexByte, Option.bind_some]
      exact congrArg (Option.map (c :: ·)) ih
    · rename_i hc
      -- the percent sign is escaped
      have hne : c ≠ 37 := by
        rintro rfl
        exact hc rfl
      rw [singleton_append, pathUnescape.eq_def]
      dsimp only
      rw [if_neg hne]
      exact congrArg (Option.map (c :: ·)) ih

/-! ### Paths -/

theorem Key.slash_not_mem (key : Key) : 47 ∉ key.string := by
  unfold Key.string
  split
  · rw [pathEscape, mem_flatMap]
    rintro ⟨c, -, hc⟩
    split at hc
    · exact slash_not_mem_hexByte c ((mem_cons.mp hc).resolve_left (by decide))
    · rename_i hesc
      obtain rfl := mem_singleton.mp hc
      exact hesc rfl
  · rw [hexEncode, mem_cons, mem_cons, mem_flatMap]
    rintro (h | h | ⟨c, -, hc⟩)
    · cases h
    · cases h
    · exact slash_not_mem_hexByte c hc

/-- A key that is escaped and begins with `x:`. -/
def Key.looksHex (key : Key) : Bool := key.enc = .url ∧ [120, 58] <+: key.name

/-- What is not a percent sign stands for itself. -/
theorem of_pathEscape_eq_cons {s rest : List UInt8} {d : UInt8} (h : pathEscape s = d :: rest)
    (hd : d ≠ 37) : ∃ s', s = d :: s' ∧ pathEscape s' = rest := by
  cases s with
  | nil => cases h
  | cons c s =>
    rw [pathEscape, flatMap_cons] at h
    split at h
    · exact absurd (cons.inj h).1.symm hd
    · obtain ⟨rfl, hrest⟩ := cons.inj h
      exact ⟨s, rfl, hrest⟩

/-- What is decoded as digits has no percent sign in it, and is twice as long as the result. -/
theorem of_hexDecode {l r : List UInt8} (h : hexDecode l = some r) :
    l.length = 2 * r.length ∧ 37 ∉ l := by
  fun_induction hexDecode l generalizing r with
  | case1 =>
    cases h
    exact ⟨rfl, not_mem_nil⟩
  | case2 a b rest ih =>
    obtain ⟨c, hc, h⟩ := Option.bind_eq_some_iff.mp h
    obtain ⟨r', hr', rfl⟩ := Option.map_eq_some_iff.mp h
    obtain ⟨x, hx, hc⟩ := Option.bind_eq_some_iff.mp hc
    obtain ⟨y, hy, -⟩ := Option.map_eq_some_iff.mp hc
    obtain ⟨hlen, hmem⟩ := ih hr'
    refine ⟨by simp only [length_cons, hlen]; omega, ?_⟩
    simp only [mem_cons, not_or]
    exact ⟨fun ha => (by subst ha; cases hx), fun hb => (by subst hb; cases hy), hmem⟩
  | case3 => cases h

theorem length_pathEscape {s : List UInt8} (h : 37 ∉ pathEscape s) :
    (pathEscape s).length = s.length := by
  induction s with
  | nil => rfl
  | cons c s ih =>
    rw [pathEscape, flatMap_cons, mem_append, not_or] at h
    rw [pathEscape, flatMap_cons, length_append, length_cons, ← pathEscape, ih h.2]
    split at h
    · exact absurd mem_cons_self h.1
    · rename_i hc
      rw [if_neg hc, length_singleton, add_comm]

/-- A key is read back exactly if it does not look like digits. If it does and can be decoded, then
what is decoded is shorter than the key. -/
theorem decodePart_string_iff {key : Key} :
    decodePart key.string = .ok key.name ↔ key.looksHex = false := by
  obtain ⟨name, enc⟩ := key
  cases enc with
  | hex =>
    refine iff_of_true ?_ (by simp [Key.looksHex])
    show ((hexDecode (hexEncode name)).map _).getD _ = _
    rw [hexDecode_hexEncode]
    rfl
  | url =>
    show decodePart (pathEscape name) = .ok name ↔ _
    unfold decodePart
    split
    · rename_i hexPart heq
      obtain ⟨s, rfl, hs⟩ := of_pathEscape_eq_cons heq (by decide)
      obtain ⟨s', rfl, rfl⟩ := of_pathEscape_eq_cons hs (by decide)
      refine iff_of_false (fun h => ?_) (by simp [Key.looksHex])
      cases hdec : hexDecode (pathEscape s') with
      | none =>
        rw [hdec] at h
        cases h
      | some r =>
        rw [hdec] at h
        obtain rfl : r = _ := Except.ok.inj h
        obtain ⟨hlen, hmem⟩ := of_hexDecode hdec
        rw [length_pathEscape hmem, length_cons, length_cons] at hlen
        omega
    · rename_i hno
      rw [pathUnescape_pathEscape]
      refine iff_of_true rfl (decide_eq_false ?_)
      rintro ⟨-, s', rfl⟩
      exact hno _ rfl

theorem pathString_cons (key : Key) (path : List Key) :
    pathString (key :: path) = 47 :: [47].intercalate ((key :: path).map Key.string) := by
  induction path generalizing key with
  | nil => simp [pathString, intercalate]
  | cons key' path ih =>
    rw [pathString, flatMap_cons, ← pathString, ih]
    simp [intercalate]

/-- The keys of a path are read back from its string exactly if each of them is. -/
theorem keyPathToKeys_iff {path : List Key} (hne : path ≠ []) :
    keyPathToKeys (pathString path) = .ok (path.map Key.name) ↔
      ∀ key ∈ path, key.looksHex = false := by
  cases path with
  | nil => cases hne rfl
  | cons key path =>
    rw [pathString_cons, keyPathToKeys, splitOn_intercalate, mapM_map, mapM_eq_map_iff]
    · exact forall₂_congr fun _ _ => decodePart_string_iff
    · rintro part hpart
      obtain ⟨key, -, rfl⟩ := mem_map.mp hpart
      exact key.slash_not_mem
    · exact cons_ne_nil _ _

/-- **Key paths decode to their keys** if and only if no escaped key looks like digits; the string of
such a path determines its keys, whatever the encodings are. -/
theorem key_path_decodes {path : List Key} (hne : path ≠ []) :
    (keyPathToKeys (pathString path) = .ok (path.map Key.name) ↔ ∀ key ∈ path, key.looksHex = false) ∧
      ((∀ key ∈ path, key.looksHex = false) → ∀ path' ≠ [], (∀ key ∈ path', key.looksHex = false) →
        pathString path' = pathString path → path'.map Key.name = path.map Key.name) := by
  refine ⟨keyPathToKeys_iff hne, fun h path' hne' h' heq => ?_⟩
  have hdecodes := (keyPathToKeys_iff hne').mpr h'
  rw [heq, (keyPathToKeys_iff hne).mpr h] at hdecodes
  exact (Except.ok.inj hdecodes).symm

/-- The keys `App` and `x:` and the byte 1; the second is in digits. -/
theorem key_path_decodes_app :
    keyPathToKeys (pathString [⟨[65, 112, 112], .url⟩, ⟨[120, 58], .hex⟩, ⟨[1], .url⟩]) =
      .ok [[65, 112, 112], [120, 58], [1]] :=
  (key_path_decodes (by decide)).1.mpr (by decide)

/-- **An escaped key is taken for digits.** The key `x:41` is escaped as `/x:41`, which is also the
string of the key `A` in digits and is decoded to that. The key `x:z` cannot be decoded at all. -/
theorem escaped_taken_for_hex :
    keyPathToKeys (pathString [⟨[120, 58, 52, 49], .url⟩]) = .ok [[65]] ∧
      pathString [⟨[120, 58, 52, 49], .url⟩] = pathString [⟨[65], .hex⟩] ∧
      keyPathToKeys (pathString [⟨[120, 58, 122], .url⟩]) = .error (.decodingHex [120, 58, 122]) := by
  decide

end CometBFT.Merkle
