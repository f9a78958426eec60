import CometBFT.Mediation.Message

/-!
# Message identities

`nextID` prints a counter in decimal and `validateControllerMessageID` parses it back. The two fit:
the digits printed are the digits parsed, so an ID determines its counter and every ID that is
issued is valid at the other end.

## Main results

* `digitsValue_decimal` — parsing undoes printing
* `messageID_injective` — an ID determines its counter
* `validateControllerMessageID_messageID` — IDs that are issued are valid
-/

namespace CometBFT.Mediation

open List

theorem toNat_digit {d : ℕ} (h : d < 10) : (UInt8.ofNat (48 + d)).toNat = 48 + d := by
  rw [UInt8.toNat_ofNat']
  omega

theorem digitsValue_map_reverse {ds : List ℕ} (h : ∀ d ∈ ds, d < 10) :
    digitsValue (ds.reverse.map fun d => UInt8.ofNat (48 + d)) = Nat.ofDigits 10 ds := by
  unfold digitsValue
  rw [foldl_map, foldl_reverse]
  induction ds with
  | nil => rfl
  | cons d ds ih =>
    rw [forall_mem_cons] at h
    rw [foldr_cons, ih h.2, Nat.ofDigits_cons, toNat_digit h.1]
    omega

/-- **Parsing undoes printing.** -/
theorem digitsValue_decimal (n : ℕ) : digitsValue (decimal n) = n := by
  unfold decimal
  split
  · subst_vars
    rfl
  · rw [digitsValue_map_reverse fun d hd => Nat.digits_lt_base (by decide) hd, Nat.ofDigits_digits]

theorem decimal_injective : Function.Injective decimal := fun a b h => by
  rw [← digitsValue_decimal a, h, digitsValue_decimal]

/-- **An ID determines its counter.** -/
theorem messageID_injective (localID destination : ID) :
    Function.Injective (messageID localID destination) := fun _ _ h =>
  decimal_injective (append_cancel_left h)

theorem decimal_ne_nil (n : ℕ) : decimal n ≠ [] := by
  unfold decimal
  split
  · simp
  · simpa [Nat.digits_eq_nil_iff_eq_zero]

theorem isDigit_of_lt {d : ℕ} (h : d < 10) : isDigit (UInt8.ofNat (48 + d)) = true := by
  interval_cases d <;> rfl

theorem decimal_all_isDigit (n : ℕ) : (decimal n).all isDigit = true := by
  unfold decimal
  split
  · rfl
  · rw [all_eq_true]
    intro b hb
    obtain ⟨d, hd, rfl⟩ := mem_map.mp hb
    exact isDigit_of_lt (Nat.digits_lt_base (by decide) (mem_reverse.mp hd))

/-- A `uint64` has at most twenty digits. -/
theorem decimal_length_le {n : ℕ} (h : n < 2 ^ 64) : (decimal n).length ≤ 20 := by
  unfold decimal
  split
  · decide
  · rw [length_map, length_reverse, Nat.digits_length_le_iff (by decide)]
    exact h.trans (by norm_num)

theorem parseUint_decimal {n : ℕ} (h : n < 2 ^ 64) : parseUint (decimal n) = some n := by
  unfold parseUint
  rw [if_pos ⟨decimal_ne_nil n, decimal_all_isDigit n, by rwa [digitsValue_decimal]⟩,
    digitsValue_decimal]

/-- **IDs that are issued are valid**, between identities of forty characters. -/
theorem validateControllerMessageID_messageID {m : ControllerMessage} {n : ℕ} (h : n < 2 ^ 64)
    (hfrom : m.From.length = 40) (hto : m.To.length = 40) (hid : m.ID = messageID m.From m.To n) :
    validateControllerMessageID m = true := by
  have hhead : m.ID = (m.From ++ ascii "_" ++ m.To ++ ascii "_") ++ decimal n := by
    rw [hid, messageID]
  have hlen : (m.From ++ ascii "_" ++ m.To ++ ascii "_").length = 82 := by
    simp [hfrom, hto, ascii]
  have hle := decimal_length_le h
  have hdrop : m.ID.drop (m.From ++ ascii "_" ++ m.To ++ ascii "_").length = decimal n := by
    rw [hhead, drop_left]
  simp only [validateControllerMessageID, Bool.and_eq_true, decide_eq_true_eq, hdrop]
  refine ⟨⟨⟨⟨?_, ?_⟩, ?_⟩, decimal_ne_nil n⟩, ?_⟩
  · rw [hhead]
    simp [decimal_ne_nil]
  · rw [hhead, length_append, hlen, controllerIDMaxBytes]
    omega
  · rw [hhead, isPrefixOf_iff_prefix]
    exact prefix_append _ _
  · rw [parseUint_decimal h]
    rfl

end CometBFT.Mediation
