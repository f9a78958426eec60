import CometBFT.Lib.Except
import CometBFT.Mediation.Identity

/-!
# Messages on the wire

A native payload travels inside an adapter frame, the frame as base64 inside a JSON object, and the
object as the body of an HTTP request. The frame is undone exactly by its decoder. The object is
built here as `encoding/json` writes it, since the receiver limits its length; reading it back is
the business of a `JSONCodec`, around which `decodeControllerMessage` has its own checks.

## Main results

* `adapterPayload_codec` — a frame is decoded to its channel and payload, and nothing but a frame is
* `base64Encode_length` — `base64.StdEncoding.EncodedLen`
* `marshalMessage_length` — the length of a body
* `decodeControllerMessage_marshal` — a body is read back, if the codec reads back what it wrote
-/

namespace CometBFT.Mediation

open List

/-! ### The adapter frame -/

theorem uint32_putUint32 {n : ℕ} (h : n < 2 ^ 32) (rest : Bytes) :
    uint32 (putUint32 n ++ rest) = n := by
  simp only [putUint32, cons_append, nil_append, uint32, UInt8.toNat_ofNat']
  omega

/-- **Decoding a frame gives back channel and payload.** -/
theorem decodeAdapterPayload_encode {channelID : UInt8} {wrapped payload : Bytes}
    (h : encodeAdapterPayload channelID wrapped = .ok payload) :
    decodeAdapterPayload payload = .ok ⟨controllerAdapterVersion, channelID, wrapped⟩ := by
  unfold encodeAdapterPayload at h
  split at h
  · cases h
  · rename_i hlen
    cases h
    have hu : uint32 (putUint32 wrapped.length ++ wrapped) = wrapped.length :=
      uint32_putUint32 (by omega) wrapped
    have hl : (putUint32 wrapped.length ++ wrapped).length = 4 + wrapped.length := by
      simp [putUint32]
      omega
    show decodeAdapterPayload (controllerAdapterVersion :: channelID ::
      (putUint32 wrapped.length ++ wrapped)) = _
    rw [decodeAdapterPayload, if_neg (by rw [hl, controllerAdapterHeader]; omega),
      if_neg (by simp), if_neg (by rw [hu, hl, controllerAdapterHeader]; omega)]
    rfl

theorem putUint32_uint32 (a b c d : UInt8) (rest : Bytes) :
    putUint32 (uint32 (a :: b :: c :: d :: rest)) = [a, b, c, d] := by
  have ha := a.toNat_lt
  have hb := b.toNat_lt
  have hc := c.toNat_lt
  have hd := d.toNat_lt
  simp only [putUint32, uint32, cons.injEq, ← UInt8.toNat_inj, UInt8.toNat_ofNat', and_true]
  omega

theorem uint32_lt (bs : Bytes) : uint32 bs < 2 ^ 32 := by
  fun_cases uint32 bs with
  | case1 a b c d =>
    have ha := a.toNat_lt
    have hb := b.toNat_lt
    have hc := c.toNat_lt
    have hd := d.toNat_lt
    omega
  | case2 => decide

/-- **A payload that is accepted** is the frame of its channel and bytes: no byte of it is ignored. -/
theorem encodeAdapterPayload_decode {data : Bytes} {p : AdapterPayload}
    (h : decodeAdapterPayload data = .ok p) :
    encodeAdapterPayload p.ChannelID p.Wrapped = .ok data := by
  revert h
  fun_cases decodeAdapterPayload data with
  | case4 version channelID rest hlen hversion hlength =>
    rintro ⟨⟩
    match rest, hlen, hlength with
    | [], hlen, _ | [_], hlen, _ | [_, _], hlen, _ | [_, _, _], hlen, _ =>
      simp [controllerAdapterHeader] at hlen
    | a :: b :: c :: d :: wrapped, _, hlength =>
      obtain rfl : version = controllerAdapterVersion := not_not.mp hversion
      have hn : wrapped.length = uint32 (a :: b :: c :: d :: wrapped) := (not_not.mp hlength).symm
      have hlt := uint32_lt (a :: b :: c :: d :: wrapped)
      show encodeAdapterPayload channelID wrapped = _
      rw [encodeAdapterPayload, if_neg (by omega), hn, putUint32_uint32]
      rfl
  | _ => nofun

/-- **The frames are the payloads that are accepted.** Channel and bytes come back from a frame, which
there is for all that the length field can count; and what is accepted is the frame of its result. -/
theorem adapterPayload_codec :
    (∀ channelID wrapped, (encodeAdapterPayload channelID wrapped >>= decodeAdapterPayload) =
      if wrapped.length < 2 ^ 32 then .ok ⟨controllerAdapterVersion, channelID, wrapped⟩
      else .error .lengthField) ∧
    ∀ data p, decodeAdapterPayload data = .ok p →
      encodeAdapterPayload p.ChannelID p.Wrapped = .ok data := by
  refine ⟨fun channelID wrapped => ?_, fun data p => encodeAdapterPayload_decode⟩
  split_ifs with hlen
  · have hframe : encodeAdapterPayload channelID wrapped = .ok _ := if_neg (by omega)
    rw [bind_of_ok hframe]
    exact decodeAdapterPayload_encode hframe
  · rw [encodeAdapterPayload, if_pos (by omega)]
    rfl

theorem adapterPayload_codec_one : decodeAdapterPayload [1, 32, 0, 0, 0, 1, 7] = .ok ⟨1, 32, [7]⟩ ∧
    encodeAdapterPayload 32 [7] = .ok [1, 32, 0, 0, 0, 1, 7] :=
  ⟨by decide, adapterPayload_codec.2 _ ⟨1, 32, [7]⟩ (by decide)⟩

/-- Four gigabytes have no frame. -/
theorem adapterPayload_too_long :
    (encodeAdapterPayload 0 (replicate (2 ^ 32) 0) >>= decodeAdapterPayload) ≠
      .ok ⟨controllerAdapterVersion, 0, replicate (2 ^ 32) 0⟩ := by
  have hlong : encodeAdapterPayload 0 (replicate (2 ^ 32) 0) = .error .lengthField :=
    if_pos (by rw [length_replicate]; omega)
  rw [hlong]
  nofun

theorem encodeAdapterPayload_length {channelID : UInt8} {wrapped payload : Bytes}
    (h : encodeAdapterPayload channelID wrapped = .ok payload) :
    payload.length = controllerAdapterHeader + wrapped.length := by
  unfold encodeAdapterPayload at h
  split at h <;> cases h
  simp [putUint32, controllerAdapterHeader]
  omega

/-! ### Base64 -/

def base64Alphabet : Bytes :=
  ascii "ABCDEFGHIJKLMNOPQRSTUVWXYZabcdefghijklmnopqrstuvwxyz0123456789+/"

/-- The character for six bits. -/
def base64Char (n : ℕ) : UInt8 := base64Alphabet.getD (n % 64) 0

/-- `base64.StdEncoding.Encode`. -/
def base64Encode : Bytes → Bytes
  | [] => []
  | [a] =>
    let n := a.toNat * 2 ^ 16
    [base64Char (n / 2 ^ 18), base64Char (n / 2 ^ 12), 61, 61]
  | [a, b] =>
    let n := a.toNat * 2 ^ 16 + b.toNat * 2 ^ 8
    [base64Char (n / 2 ^ 18), base64Char (n / 2 ^ 12), base64Char (n / 2 ^ 6), 61]
  | a :: b :: c :: rest =>
    let n := a.toNat * 2 ^ 16 + b.toNat * 2 ^ 8 + c.toNat
    base64Char (n / 2 ^ 18) :: base64Char (n / 2 ^ 12) :: base64Char (n / 2 ^ 6) ::
      base64Char n :: base64Encode rest

/-- `base64.StdEncoding.EncodedLen`. -/
def encodedLen (n : ℕ) : ℕ := (n + 2) / 3 * 4

theorem base64Encode_length (data : Bytes) : (base64Encode data).length = encodedLen data.length := by
  induction data using base64Encode.induct with
  | case1 => simp [base64Encode, encodedLen]
  | case2 a => simp [base64Encode, encodedLen]
  | case3 a b => simp [base64Encode, encodedLen]
  | case4 a b c rest ih =>
    rw [base64Encode]
    simp only [length_cons, ih, encodedLen]
    omega

theorem encodedLen_mono {m n : ℕ} (h : m ≤ n) : encodedLen m ≤ encodedLen n := by
  unfold encodedLen
  omega

/-! ### The JSON object -/

def hexDigit (n : ℕ) : UInt8 := (ascii "0123456789abcdef").getD n 0

/-- How `encoding/json` writes a character of a string, with its escaping for HTML. Bytes that are
not ASCII, which it would check for valid UTF-8, do not occur in the strings of a message. -/
def escapeJSON (b : UInt8) : Bytes :=
  if b = 34 ∨ b = 92 then [92, b]
  else if b = 8 then ascii "\\b"
  else if b = 9 then ascii "\\t"
  else if b = 10 then ascii "\\n"
  else if b = 12 then ascii "\\f"
  else if b = 13 then ascii "\\r"
  else if b < 32 ∨ b = 38 ∨ b = 60 ∨ b = 62 then
    ascii "\\u00" ++ [hexDigit (b.toNat / 16), hexDigit (b.toNat % 16)]
  else [b]

/-- A JSON string. -/
def jsonString (s : Bytes) : Bytes := ascii "\"" ++ s.flatMap escapeJSON ++ ascii "\""

/-- `json.Marshal` of a `controllerMessage`. -/
def marshalMessage (m : ControllerMessage) : Bytes :=
  ascii "\x7b\"From\":" ++ jsonString m.From ++ ascii ",\"To\":" ++ jsonString m.To ++
    ascii ",\"Data\":\"" ++ base64Encode m.Data ++ ascii "\",\"Type\":" ++ jsonString m.Typ ++
    ascii ",\"ID\":" ++ jsonString m.ID ++ ascii "\x7d"

/-- What `decodeControllerMessage` uses of `encoding/json`. -/
structure JSONCodec where
  /-- `Decode` into a `map[string]json.RawMessage`, up to the end of the body: each name with the
  text of its value -/
  decode : Bytes → Option (List (Bytes × Bytes))
  /-- `Unmarshal` of such a map into a `controllerMessage` -/
  unmarshal : List (Bytes × Bytes) → Option ControllerMessage

def requiredFields : List Bytes :=
  [ascii "From", ascii "To", ascii "Data", ascii "Type", ascii "ID"]

/-- `decodeControllerMessage`. -/
def JSONCodec.decodeControllerMessage (json : JSONCodec) (body : Bytes) :
    Option ControllerMessage :=
  match json.decode body with
  | none => none
  | some raw =>
    if raw.length ≠ requiredFields.length then none
    else if requiredFields.all (fun name => (raw.lookup name).isSome) then json.unmarshal raw
    else none

/-- The members of the object that `marshalMessage` writes. -/
def messageFields (m : ControllerMessage) : List (Bytes × Bytes) :=
  [(ascii "From", jsonString m.From), (ascii "To", jsonString m.To),
    (ascii "Data", ascii "\"" ++ base64Encode m.Data ++ ascii "\""),
    (ascii "Type", jsonString m.Typ), (ascii "ID", jsonString m.ID)]

/-- The codec reads back what it wrote. -/
def JSONCodec.RoundTrips (json : JSONCodec) (m : ControllerMessage) : Prop :=
  json.decode (marshalMessage m) = some (messageFields m) ∧
    json.unmarshal (messageFields m) = some m

/-- **A body is read back**: the checks on the names of its members pass. -/
theorem JSONCodec.decodeControllerMessage_marshal {json : JSONCodec} {m : ControllerMessage}
    (h : json.RoundTrips m) : json.decodeControllerMessage (marshalMessage m) = some m := by
  have hnames : requiredFields.all (fun name => ((messageFields m).lookup name).isSome) = true := by
    rw [all_eq_true]
    intro name hname
    rw [lookup_isSome_iff]
    simp only [requiredFields, mem_cons, not_mem_nil, or_false] at hname
    rcases hname with rfl | rfl | rfl | rfl | rfl <;> simp [messageFields]
  rw [JSONCodec.decodeControllerMessage, h.1]
  show (if (messageFields m).length ≠ requiredFields.length then none
    else if _ then _ else _) = some m
  rw [if_neg (by simp [messageFields, requiredFields]), if_pos hnames, h.2]

/-- Letters, digits and the underscore, which are written as they are. -/
def isPlain (b : UInt8) : Bool :=
  (48 ≤ b && b ≤ 57) || (65 ≤ b && b ≤ 90) || (97 ≤ b && b ≤ 122) || b = 95

theorem escapeJSON_of_isPlain {b : UInt8} (h : isPlain b = true) : escapeJSON b = [b] := by
  have hn : 48 ≤ b.toNat ∧ b.toNat ≠ 60 ∧ b.toNat ≠ 62 ∧ b.toNat ≠ 92 := by
    simp only [isPlain, Bool.or_eq_true, Bool.and_eq_true, decide_eq_true_eq, UInt8.le_iff_toNat_le,
      ← UInt8.toNat_inj, UInt8.reduceToNat] at h
    omega
  simp only [escapeJSON, ← UInt8.toNat_inj, UInt8.lt_iff_toNat_lt, UInt8.reduceToNat]
  repeat rw [if_neg (by omega)]

theorem jsonString_length {s : Bytes} (h : s.all isPlain = true) :
    (jsonString s).length = s.length + 2 := by
  have hflat : s.flatMap escapeJSON = s := by
    rw [all_eq_true] at h
    induction s with
    | nil => rfl
    | cons b s ih =>
      rw [flatMap_cons, escapeJSON_of_isPlain (h b (mem_cons_self ..)),
        ih fun c hc => h c (mem_cons_of_mem _ hc), singleton_append]
  rw [jsonString, hflat]
  simp [ascii]

/-- **The length of a body.** -/
theorem marshalMessage_length {m : ControllerMessage} (hfrom : m.From.all isPlain = true)
    (hto : m.To.all isPlain = true) (htyp : m.Typ.all isPlain = true)
    (hid : m.ID.all isPlain = true) :
    (marshalMessage m).length = encodedLen m.Data.length + m.From.length + m.To.length +
      m.Typ.length + m.ID.length + 47 := by
  have hlit : (ascii "\x7b\"From\":").length + (ascii ",\"To\":").length +
      (ascii ",\"Data\":\"").length + (ascii "\",\"Type\":").length +
      (ascii ",\"ID\":").length + (ascii "\x7d").length = 39 := by decide
  simp only [marshalMessage, length_append, jsonString_length hfrom, jsonString_length hto,
    jsonString_length htyp, jsonString_length hid, base64Encode_length]
  omega

end CometBFT.Mediation
