import Moonfort.Leb128

/-!
# The protobuf wire format

A message is a sequence of numbered fields. Each starts with a key, which holds the
field's number and its wire type, and a reader takes the fields as they come.
-/

namespace WireFormat

/-- What a field holds, by its wire type. -/
inductive Value where
  | varint (number : ℕ)
  | fixed64 (data : List UInt8)
  /-- A string, a byte string or a nested message. -/
  | bytes (data : List UInt8)
  | fixed32 (data : List UInt8)
  deriving DecidableEq

/-- A numbered field. -/
structure Field where
  number : ℕ
  value : Value
  deriving DecidableEq

/-! ## Reading -/

/-- Read a value of a wire type from the front of the bytes. -/
def readValue (wire : ℕ) (bytes : List UInt8) : Option (Value × List UInt8) :=
  match wire with
  | 0 => (Leb128.decode bytes).map fun (number, size) => (.varint number, bytes.drop size)
  | 1 => if 8 ≤ bytes.length then some (.fixed64 (bytes.take 8), bytes.drop 8) else none
  | 2 =>
    (Leb128.decode bytes).bind fun (length, size) =>
      if length ≤ (bytes.drop size).length then
        some (.bytes ((bytes.drop size).take length), (bytes.drop size).drop length)
      else none
  | 5 => if 4 ≤ bytes.length then some (.fixed32 (bytes.take 4), bytes.drop 4) else none
  | _ => none

/-- Read a field from the front of the bytes. -/
def readField (bytes : List UInt8) : Option (Field × List UInt8) :=
  (Leb128.decode bytes).bind fun (key, size) =>
    (readValue (key % 8) (bytes.drop size)).map fun (value, rest) => (⟨key / 8, value⟩, rest)

/-- Read so many fields at most. -/
def parseFrom : (rounds : ℕ) → List UInt8 → Option (List Field)
  | _, [] => some []
  | 0, _ => none
  | rounds + 1, bytes =>
    (readField bytes).bind fun (field, rest) => (parseFrom rounds rest).map (field :: ·)

/-- Read a whole message. Every field takes a byte at least. -/
def parse (bytes : List UInt8) : Option (List Field) := parseFrom bytes.length bytes

/-! ## Writing -/

/-- The wire type of a value. -/
def Value.wire : Value → ℕ
  | .varint _ => 0
  | .fixed64 _ => 1
  | .bytes _ => 2
  | .fixed32 _ => 5

/-- The bytes of a value. -/
def Value.encode : Value → List UInt8
  | .varint number => Leb128.encode number
  | .fixed64 data => data
  | .bytes data => Leb128.encode data.length ++ data
  | .fixed32 data => data

/-- The bytes of a field. -/
def Field.encode (field : Field) : List UInt8 :=
  Leb128.encode (field.number * 8 + field.value.wire) ++ field.value.encode

/-- A value of fixed width has it. -/
def Value.Fits : Value → Prop
  | .fixed64 data => data.length = 8
  | .fixed32 data => data.length = 4
  | _ => True

/-- An encoded value reads back. -/
theorem readValue_encode {value : Value} (h : value.Fits) (rest : List UInt8) :
    readValue value.wire (value.encode ++ rest) = some (value, rest) := by
  cases value with
  | varint number =>
    rw [Value.wire, Value.encode, readValue, Leb128.decode_encode, Option.map_some]
    dsimp only
    rw [List.drop_left]
  | fixed64 data | fixed32 data =>
    have hlength : data.length = _ := h
    rw [Value.wire, Value.encode, readValue, if_pos (by rw [List.length_append]; omega),
      ← hlength, List.take_left, List.drop_left]
  | bytes data =>
    rw [Value.wire, Value.encode, readValue, List.append_assoc, Leb128.decode_encode,
      Option.bind_some]
    dsimp only
    rw [List.drop_left, if_pos (by rw [List.length_append]; omega), List.take_left, List.drop_left]

/-- An encoded field reads back. -/
theorem readField_encode {field : Field} (h : field.value.Fits) (rest : List UInt8) :
    readField (field.encode ++ rest) = some (field, rest) := by
  have hwire : field.value.wire < 8 := by cases field.value <;> simp [Value.wire]
  have hmod : (field.number * 8 + field.value.wire) % 8 = field.value.wire := by omega
  have hdiv : (field.number * 8 + field.value.wire) / 8 = field.number := by omega
  rw [readField, Field.encode, List.append_assoc, Leb128.decode_encode, Option.bind_some]
  dsimp only
  rw [List.drop_left, hmod, readValue_encode h, Option.map_some, hdiv]

/-- An encoded field has a byte at least. -/
theorem length_encode_pos (field : Field) : 0 < field.encode.length := by
  have := Leb128.length_encode_pos (field.number * 8 + field.value.wire)
  rw [Field.encode, List.length_append]
  omega

/-- The fields that are written one after the other are read back in order. -/
theorem parse_encode {fields : List Field} (h : ∀ field ∈ fields, field.value.Fits) :
    parse (fields.flatMap Field.encode) = some fields := by
  suffices hrounds : ∀ rounds, (fields.flatMap Field.encode).length ≤ rounds →
      parseFrom rounds (fields.flatMap Field.encode) = some fields from hrounds _ le_rfl
  induction fields with
  | nil => exact fun rounds _ => by cases rounds <;> rfl
  | cons field rest ih =>
    intro rounds hrounds
    have hpos := length_encode_pos field
    rw [List.flatMap_cons, List.length_append] at hrounds
    obtain ⟨byte, bytes, hbytes⟩ : ∃ byte bytes,
        field.encode ++ rest.flatMap Field.encode = byte :: bytes :=
      List.exists_cons_of_ne_nil (by
        intro hnil
        rw [(List.append_eq_nil_iff.mp hnil).1] at hpos
        exact absurd hpos (by decide))
    cases rounds with
    | zero => omega
    | succ rounds =>
      have hread := readField_encode (h field List.mem_cons_self) (rest.flatMap Field.encode)
      rw [List.flatMap_cons]
      rw [hbytes] at hread ⊢
      rw [parseFrom, hread, Option.bind_some]
      · dsimp only
        rw [ih (fun field hmem => h field (List.mem_cons_of_mem _ hmem)) rounds (by omega)]
        rfl
      · exact List.cons_ne_nil _ _

end WireFormat
