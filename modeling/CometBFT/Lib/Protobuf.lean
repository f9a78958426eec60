import CometBFT.Lib.Int64

/-!
# The protobuf wire format

A message is a sequence of fields, each a tag and a payload, and a generated decoder puts one field
after the other into the message. Which fields a message has is not known to the format, so a field
that the message does not have is read as well, and left alone. A decoder only ever says whether it
has failed; a decoder that has not is a function on the fields.

A repeated field of numbers can be *packed*, many of them in one payload. Decoders read such a
payload number by number, and the last one may run past the end of the payload: whether a field is
packed has to be known when it is read.
-/

namespace CometBFT.Protobuf

/-! ### Varints -/

/-- Seven bits of each byte, the lowest first, from at most `fuel` bytes. -/
def varint : ℕ → List UInt8 → Option (ℕ × List UInt8)
  | 0, _ => none
  | _ + 1, [] => none
  | fuel + 1, b :: rest =>
    if b < 128 then some (b.toNat, rest)
    else (varint fuel rest).map fun r => (b.toNat % 128 + 128 * r.1, r.2)

/-- A number of 64 bits; what is shifted out of them is lost. -/
def readVarint (bytes : List UInt8) : Option (ℕ × List UInt8) :=
  (varint 10 bytes).map fun r => (r.1 % 2 ^ 64, r.2)

def int64 (v : ℕ) : ℤ := wrap64 v

def int32 (v : ℕ) : ℤ := (v + 2147483648) % 4294967296 - 2147483648

def uint32 (v : ℕ) : UInt32 := UInt32.ofNat v

/-! ### Fields -/

inductive Payload where
  | varint (v : ℕ)
  | fixed64 (bytes : List UInt8)
  | bytes (bytes : List UInt8)
  | packed (vs : List ℕ)
  | group
  | fixed32 (bytes : List UInt8)
deriving DecidableEq, Repr

def takeBytes (n : ℕ) (bytes : List UInt8) : Option (List UInt8 × List UInt8) :=
  if n ≤ bytes.length then some (bytes.take n, bytes.drop n) else none

/-- A length, which is a signed number of 64 bits, and as many bytes. -/
def readBytes (bytes : List UInt8) : Option (List UInt8 × List UInt8) :=
  (readVarint bytes).bind fun r => if r.1 < 2 ^ 63 then takeBytes r.1 r.2 else none

/-- Numbers, until no more than `stop` bytes are left. -/
def packedLoop (stop : ℕ) : ℕ → List UInt8 → Option (List ℕ × List UInt8)
  | 0, bytes => if bytes.length ≤ stop then some ([], bytes) else none
  | fuel + 1, bytes =>
    if bytes.length ≤ stop then some ([], bytes)
    else (readVarint bytes).bind fun r =>
      (packedLoop stop fuel r.2).map fun rs => (r.1 :: rs.1, rs.2)

/-- A length, and numbers from as many bytes. -/
def readPacked (bytes : List UInt8) : Option (List ℕ × List UInt8) :=
  (readVarint bytes).bind fun r =>
    if r.1 < 2 ^ 63 ∧ r.1 ≤ r.2.length then packedLoop (r.2.length - r.1) r.1 r.2 else none

/-- The rest of a group, at some depth of nested groups. -/
def skipGroup : ℕ → ℕ → List UInt8 → Option (List UInt8)
  | _, 0, bytes => some bytes
  | 0, _ + 1, _ => none
  | fuel + 1, depth + 1, bytes =>
    (readVarint bytes).bind fun wire =>
      match wire.1 % 8 with
      | 0 => (readVarint wire.2).bind fun r => skipGroup fuel (depth + 1) r.2
      | 1 => (takeBytes 8 wire.2).bind fun r => skipGroup fuel (depth + 1) r.2
      | 2 => (readBytes wire.2).bind fun r => skipGroup fuel (depth + 1) r.2
      | 3 => skipGroup fuel (depth + 2) wire.2
      | 4 => skipGroup fuel depth wire.2
      | 5 => (takeBytes 4 wire.2).bind fun r => skipGroup fuel (depth + 1) r.2
      | _ => none

/-- What follows a tag with this wire type. -/
def readPayload (packed : Bool) (wireType : ℕ) (bytes : List UInt8) :
    Option (Payload × List UInt8) :=
  match wireType with
  | 0 => (readVarint bytes).map fun r => (.varint r.1, r.2)
  | 1 => (takeBytes 8 bytes).map fun r => (.fixed64 r.1, r.2)
  | 2 =>
    if packed then (readPacked bytes).map fun r => (.packed r.1, r.2)
    else (readBytes bytes).map fun r => (.bytes r.1, r.2)
  | 3 => (skipGroup bytes.length 1 bytes).map fun rest => (.group, rest)
  | 5 => (takeBytes 4 bytes).map fun r => (.fixed32 r.1, r.2)
  | _ => none

/-- A field: its number, which is a positive number of 32 bits, and its payload. -/
def readField (packed : ℕ → Bool) (bytes : List UInt8) : Option ((ℕ × Payload) × List UInt8) :=
  (readVarint bytes).bind fun wire =>
    let number := wire.1 / 8 % 2 ^ 32
    if number = 0 ∨ 2 ^ 31 ≤ number then none
    else (readPayload (packed number) (wire.1 % 8) wire.2).map fun r => ((number, r.1), r.2)

/-- At most `fuel` fields. -/
def fieldsLoop (packed : ℕ → Bool) : ℕ → List UInt8 → Option (List (ℕ × Payload))
  | _, [] => some []
  | 0, _ :: _ => none
  | fuel + 1, b :: bytes =>
    (readField packed (b :: bytes)).bind fun r => (fieldsLoop packed fuel r.2).map (r.1 :: ·)

/-- The fields of a message. -/
def fields (packed : ℕ → Bool) (bytes : List UInt8) : Option (List (ℕ × Payload)) :=
  fieldsLoop packed bytes.length bytes

/-! ### Sizes -/

/-- What the generated code calls `sov`, the size of a number of 64 bits. -/
def sov (x : ℕ) : ℕ := (Nat.log2 (x ||| 1) + 1 + 6) / 7

/-- What is inside a message has a tag and its length before it. -/
def nested (l : ℕ) : ℕ := 1 + l + sov l

/-! ### Messages -/

variable {α : Type*}

/-- How a field, by its number, is put into a message; a malformed one is not. -/
abbrev Setter (α : Type*) := α → ℕ → Payload → Option α

/-- A generated decoder. -/
def unmarshal (packed : ℕ → Bool) (set : Setter α) (m : α) (bytes : List UInt8) : Option α :=
  (fields packed bytes).bind fun fs => fs.foldlM (fun m f => set m f.1 f.2) m

/-- A field that is a number. -/
def onVarint (p : Payload) (f : ℕ → α) : Option α :=
  match p with
  | .varint v => some (f v)
  | _ => none

/-- A field that is a byte string. -/
def onBytes (p : Payload) (f : List UInt8 → α) : Option α :=
  match p with
  | .bytes b => some (f b)
  | _ => none

/-- A field that is a message, decoded by `f`. -/
def onMessage (p : Payload) (f : List UInt8 → Option α) : Option α :=
  match p with
  | .bytes b => f b
  | _ => none

end CometBFT.Protobuf
