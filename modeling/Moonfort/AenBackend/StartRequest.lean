import Moonfort.WireFormat
import Moonfort.AenBackend.ConnectStream
import Moonfort.AenBackend.Varint
import Moonfort.MoonBit.Crypto

/-!
# The start request and its envelope

`encode_start_request` and `connect_envelope`. The request is a message in the
protobuf wire format, whose decoder gives back the command, the arguments and the
working directory. An envelope is what the stream decoder takes apart.
-/

namespace Moonfort.AenBackend

open MoonBit WireFormat

/-! ## The encoder -/

/-- `buffer.to_bytes()`, for contents whose length is an `Int`. -/
def toBytes (contents : List UInt8) : Option Bytes :=
  if h : contents.length < 2 ^ 31 then some ⟨contents, h⟩ else none

/-- `write_key`. -/
def writeKey (field wire : Int32) : List UInt8 := writeVarint ((field <<< 3) ||| wire)

/-- `write_length_delimited`. -/
def writeLengthDelimited (field : Int32) (value : Bytes) : List UInt8 :=
  writeKey field 2 ++ writeVarint value.length ++ value.data

/-- `write_string_field`. -/
def writeStringField (field : Int32) (value : String) : Option (List UInt8) :=
  (toBytes (utf8Encode value)).map (writeLengthDelimited field)

/-- `encode_start_request`. -/
def encodeStartRequest (command : String) (args : List String) (cwd : String) : Option Bytes := do
  let commandField ← writeStringField 1 command
  let argFields ← args.mapM (writeStringField 2)
  let cwdField ← writeStringField 4 cwd
  let process ← toBytes (commandField ++ argFields.flatten ++ cwdField)
  toBytes (writeLengthDelimited 1 process ++ writeKey 4 0 ++ writeVarint 0)

/-- `connect_envelope`. -/
def connectEnvelope (flag : Int32) (payload : Bytes) : Option Bytes :=
  let len := payload.length
  toBytes ([toByte flag, toByte (len >>> 24), toByte (len >>> 16), toByte (len >>> 8),
    toByte len] ++ payload.data)

/-! ## The reference decoder -/

/-- A request to start a process. -/
structure StartRequest where
  command : String
  args : List String
  cwd : String
  stdin : Option ℕ
  deriving DecidableEq

/-- The text of UTF-8 bytes. -/
def readText (bytes : List UInt8) : Option String :=
  bytes.toByteArray.utf8Decode?.map fun chars => String.ofList chars.toList

/-- The byte strings under a number, in order. -/
def bytesAt (number : ℕ) (fields : List Field) : List (List UInt8) :=
  fields.filterMap fun field =>
    match field.value with
    | .bytes data => if field.number = number then some data else none
    | _ => none

/-- The integers under a number, in order. -/
def integersAt (number : ℕ) (fields : List Field) : List ℕ :=
  fields.filterMap fun field =>
    match field.value with
    | .varint value => if field.number = number then some value else none
    | _ => none

/-- The text of a field that occurs once: the last one counts, and it may be missing. -/
def textAt (number : ℕ) (fields : List Field) : Option String :=
  match (bytesAt number fields).getLast? with
  | some bytes => readText bytes
  | none => some ""

/-- Decode a start request, with its fields in any order. A nested message that comes in
several parts is the message of the parts one after the other. -/
def decodeStartRequest (bytes : List UInt8) : Option StartRequest := do
  let request ← parse bytes
  let process ← parse (bytesAt 1 request).flatten
  let command ← textAt 1 process
  let args ← (bytesAt 2 process).mapM readText
  let cwd ← textAt 4 process
  pure ⟨command, args, cwd, (integersAt 4 request).getLast?⟩

/-! ## The request is decoded -/

/-- An encoded text reads back. -/
theorem readText_utf8Encode (s : String) : readText (utf8Encode s) = some s := by
  have hencode : (utf8Encode s).toByteArray = s.toList.utf8Encode := rfl
  rw [readText, hencode, List.utf8Decode?_utf8Encode, Option.map_some, List.toList_toArray,
    String.ofList_toList]

/-- Contents that are a byte string are these bytes. -/
theorem toBytes_of_lt {contents : List UInt8} (h : contents.length < 2 ^ 31) :
    toBytes contents = some ⟨contents, h⟩ :=
  dif_pos h

/-- A byte array holds the contents it was built from. -/
theorem toBytes_eq_some {contents : List UInt8} {bytes : Bytes} :
    toBytes contents = some bytes ↔ bytes.data = contents := by
  unfold toBytes
  constructor
  · intro h
    split at h
    · exact congrArg Bytes.data (Option.some.inj h).symm
    · cases h
  · rintro rfl
    rw [dif_pos bytes.length_lt]

/-- A length-delimited field is a field of the wire format. -/
theorem writeLengthDelimited_eq {number : ℕ} (hnumber : number < 16) (value : Bytes) :
    writeLengthDelimited (Int32.ofNat number) value =
      Field.encode ⟨number, .bytes value.data⟩ := by
  have hkey : ∀ number < 16, writeKey (Int32.ofNat number) 2 = Leb128.encode (number * 8 + 2) := by
    intro number hlt
    have hor : (Int32.ofNat number <<< 3) ||| 2 = Int32.ofNat (2 + number * 2 ^ 3) := by
      rw [Int32.or_comm]
      exact or_shiftLeft (a := 2) (s := 3) (by omega) (by omega)
    rw [writeKey, hor, writeVarint_ofNat (by omega)]
    congr 1
    omega
  rw [writeLengthDelimited, hkey number hnumber, Bytes.length, writeVarint_ofNat value.length_lt,
    Field.encode, Value.encode, Value.wire, List.append_assoc]

/-- A written text is the field of its bytes. -/
theorem writeStringField_eq_some {number : ℕ} (hnumber : number < 16) {value : String}
    {out : List UInt8} (h : writeStringField (Int32.ofNat number) value = some out) :
    out = Field.encode ⟨number, .bytes (utf8Encode value)⟩ := by
  obtain ⟨bytes, hbytes, rfl⟩ := Option.map_eq_some_iff.mp h
  rw [writeLengthDelimited_eq hnumber, toBytes_eq_some.mp hbytes]

/-- Written texts are the fields of their bytes, one after the other. -/
theorem mapM_writeStringField_eq_some {number : ℕ} (hnumber : number < 16) {values : List String}
    {out : List (List UInt8)} (h : values.mapM (writeStringField (Int32.ofNat number)) = some out) :
    out.flatten =
      (values.map fun value => (⟨number, .bytes (utf8Encode value)⟩ : Field)).flatMap
        Field.encode := by
  induction values generalizing out with
  | nil =>
    obtain rfl : out = [] := by simpa using h.symm
    rfl
  | cons value values ih =>
    rw [List.mapM_cons] at h
    obtain ⟨first, hfirst, h⟩ := Option.bind_eq_some_iff.mp h
    obtain ⟨rest, hrest, h⟩ := Option.bind_eq_some_iff.mp h
    obtain rfl : first :: rest = out := Option.some.inj h
    rw [List.flatten_cons, List.map_cons, List.flatMap_cons, ih hrest,
      writeStringField_eq_some hnumber hfirst]

/-- The fields of the nested message. -/
def processFields (command : String) (args : List String) (cwd : String) : List Field :=
  ⟨1, .bytes (utf8Encode command)⟩ ::
    ((args.map fun arg => (⟨2, .bytes (utf8Encode arg)⟩ : Field)) ++
      [⟨4, .bytes (utf8Encode cwd)⟩])

/-- The request in the wire format. -/
def startRequestBytes (command : String) (args : List String) (cwd : String) : List UInt8 :=
  List.flatMap Field.encode
    [⟨1, .bytes ((processFields command args cwd).flatMap Field.encode)⟩, ⟨4, .varint 0⟩]

/-- The encoder writes the fields of the request in the wire format. -/
theorem encodeStartRequest_eq_some {command cwd : String} {args : List String} {bytes : Bytes}
    (h : encodeStartRequest command args cwd = some bytes) :
    bytes.data = startRequestBytes command args cwd := by
  unfold encodeStartRequest at h
  obtain ⟨commandField, hcommand, h⟩ := Option.bind_eq_some_iff.mp h
  obtain ⟨argFields, hargs, h⟩ := Option.bind_eq_some_iff.mp h
  obtain ⟨cwdField, hcwd, h⟩ := Option.bind_eq_some_iff.mp h
  obtain ⟨process, hprocess, h⟩ := Option.bind_eq_some_iff.mp h
  have hcommand' := writeStringField_eq_some (by omega : 1 < 16) hcommand
  have hargs' := mapM_writeStringField_eq_some (by omega : 2 < 16) hargs
  have hcwd' := writeStringField_eq_some (by omega : 4 < 16) hcwd
  have hprocess' : process.data = (processFields command args cwd).flatMap Field.encode := by
    rw [toBytes_eq_some.mp hprocess, hcommand', hargs', hcwd', processFields, List.flatMap_cons,
      List.flatMap_append, List.flatMap_singleton, List.append_assoc]
  have hwritten := writeLengthDelimited_eq (by omega : 1 < 16) process
  rw [hprocess'] at hwritten
  have hstdin : writeKey 4 0 ++ writeVarint 0 = Field.encode ⟨4, .varint 0⟩ := by decide +kernel
  rw [toBytes_eq_some.mp h, List.append_assoc, hstdin]
  change writeLengthDelimited (Int32.ofNat 1) process ++ _ = _
  rw [hwritten, startRequestBytes, List.flatMap_cons, List.flatMap_singleton]

/-- A field is longer than the byte string in it. -/
theorem length_lt_encode (number : ℕ) (data : List UInt8) :
    data.length < (Field.encode ⟨number, .bytes data⟩).length := by
  have hkey := Leb128.length_encode_pos (number * 8 + Value.wire (.bytes data))
  have hencode : Field.encode ⟨number, .bytes data⟩ =
      Leb128.encode (number * 8 + Value.wire (.bytes data)) ++
        (Leb128.encode data.length ++ data) := rfl
  rw [hencode, List.length_append, List.length_append]
  omega

/-- A text that is short enough is written. -/
theorem exists_writeStringField (field : Int32) {value : String}
    (h : (utf8Encode value).length < 2 ^ 31) : ∃ out, writeStringField field value = some out :=
  ⟨_, by rw [writeStringField, toBytes_of_lt h, Option.map_some]⟩

/-- Texts below the length limit can be written. -/
theorem exists_mapM_writeStringField (field : Int32) {values : List String}
    (h : ∀ value ∈ values, (utf8Encode value).length < 2 ^ 31) :
    ∃ out, values.mapM (writeStringField field) = some out := by
  induction values with
  | nil => exact ⟨[], rfl⟩
  | cons value values ih =>
    obtain ⟨first, hfirst⟩ := exists_writeStringField field (h value List.mem_cons_self)
    obtain ⟨rest, hrest⟩ := ih fun other hother => h other (List.mem_cons_of_mem _ hother)
    refine ⟨first :: rest, ?_⟩
    rw [List.mapM_cons, hfirst, hrest]
    rfl

/-- A request that is shorter than the longest byte string is encoded. -/
theorem exists_encodeStartRequest {command cwd : String} {args : List String}
    (h : (startRequestBytes command args cwd).length < 2 ^ 31) :
    ∃ bytes, encodeStartRequest command args cwd = some bytes := by
  have hnested : ((processFields command args cwd).flatMap Field.encode).length < 2 ^ 31 := by
    have hle := length_lt_encode 1 ((processFields command args cwd).flatMap Field.encode)
    rw [startRequestBytes, List.flatMap_cons, List.length_append] at h
    omega
  -- Every text is shorter than the nested message that holds it.
  have htext (number : ℕ) (value : String)
      (hmem : (⟨number, .bytes (utf8Encode value)⟩ : Field) ∈ processFields command args cwd) :
      (utf8Encode value).length < 2 ^ 31 := by
    have hfield := length_lt_encode number (utf8Encode value)
    have hpart :=
      (List.sublist_flatten_of_mem (List.mem_map_of_mem (f := Field.encode) hmem)).length_le
    rw [← List.flatMap_def] at hpart
    omega
  obtain ⟨commandField, hcommand⟩ :=
    exists_writeStringField 1 (htext 1 command List.mem_cons_self)
  obtain ⟨argFields, hargs⟩ := exists_mapM_writeStringField 2 fun arg harg =>
    htext 2 arg (List.mem_cons_of_mem _ (List.mem_append_left _ (List.mem_map_of_mem harg)))
  obtain ⟨cwdField, hcwd⟩ := exists_writeStringField 4 (htext 4 cwd
    (List.mem_cons_of_mem _ (List.mem_append_right _ List.mem_cons_self)))
  have hprocess : commandField ++ argFields.flatten ++ cwdField =
      (processFields command args cwd).flatMap Field.encode := by
    rw [writeStringField_eq_some (by omega : 1 < 16) hcommand,
      mapM_writeStringField_eq_some (by omega : 2 < 16) hargs,
      writeStringField_eq_some (by omega : 4 < 16) hcwd, processFields, List.flatMap_cons,
      List.flatMap_append, List.flatMap_singleton, List.append_assoc]
  have hstdin : writeKey 4 0 ++ writeVarint 0 = Field.encode ⟨4, .varint 0⟩ := by decide +kernel
  have hwritten := writeLengthDelimited_eq (by omega : 1 < 16)
    ⟨(processFields command args cwd).flatMap Field.encode, hnested⟩
  refine ⟨⟨startRequestBytes command args cwd, h⟩, ?_⟩
  rw [encodeStartRequest, hcommand, hargs, hcwd]
  simp only [Option.bind_eq_bind, Option.bind_some]
  rw [hprocess, toBytes_of_lt hnested, Option.bind_some, List.append_assoc, hstdin]
  change toBytes (writeLengthDelimited (Int32.ofNat 1) _ ++ _) = _
  rw [hwritten, ← toBytes_of_lt h, startRequestBytes, List.flatMap_cons, List.flatMap_singleton]

/-- The byte strings under a number, among fields that all have another or all have it. -/
theorem bytesAt_map (number other : ℕ) (values : List String) :
    bytesAt number (values.map fun value => (⟨other, .bytes (utf8Encode value)⟩ : Field)) =
      if other = number then values.map utf8Encode else [] := by
  induction values with
  | nil => simp [bytesAt]
  | cons value values ih =>
    rw [List.map_cons, bytesAt, List.filterMap_cons]
    rw [bytesAt] at ih
    rw [ih]
    by_cases h : other = number <;> simp [h]

/-- The byte fields of a process, number by number. -/
theorem bytesAt_processFields (number : ℕ) (command cwd : String) (args : List String) :
    bytesAt number (processFields command args cwd) =
      (if 1 = number then [utf8Encode command] else []) ++
        ((if 2 = number then args.map utf8Encode else []) ++
          if 4 = number then [utf8Encode cwd] else []) := by
  have hargs := bytesAt_map number 2 args
  have hone (k : ℕ) (value : String) :
      bytesAt number [(⟨k, .bytes (utf8Encode value)⟩ : Field)] =
        if k = number then [utf8Encode value] else [] :=
    bytesAt_map number k [value]
  have happend (xs ys : List Field) :
      bytesAt number (xs ++ ys) = bytesAt number xs ++ bytesAt number ys := by
    simp [bytesAt, List.filterMap_append]
  have hfields : processFields command args cwd = [⟨1, .bytes (utf8Encode command)⟩] ++
      ((args.map fun arg => (⟨2, .bytes (utf8Encode arg)⟩ : Field)) ++
        [⟨4, .bytes (utf8Encode cwd)⟩]) := rfl
  rw [hfields, happend, happend, hone, hone, hargs]

/-- Encoded texts read back. -/
theorem mapM_readText (values : List String) :
    (values.map utf8Encode).mapM readText = some values := by
  induction values with
  | nil => rfl
  | cons value values ih =>
    rw [List.map_cons, List.mapM_cons, readText_utf8Encode, ih]
    rfl

/-- An encoded request decodes to the command, its arguments and its directory. -/
theorem decodeStartRequest_encode {command cwd : String} {args : List String} {bytes : Bytes}
    (h : encodeStartRequest command args cwd = some bytes) :
    decodeStartRequest bytes.data = some ⟨command, args, cwd, some 0⟩ := by
  have hprocess : parse ((processFields command args cwd).flatMap Field.encode) =
      some (processFields command args cwd) := by
    apply parse_encode
    intro field hfield
    simp only [processFields, List.mem_cons, List.mem_append, List.mem_map, List.not_mem_nil,
      or_false] at hfield
    obtain rfl | ⟨arg, -, rfl⟩ | rfl := hfield <;> trivial
  have hrequest : parse bytes.data =
      some [⟨1, .bytes ((processFields command args cwd).flatMap Field.encode)⟩,
        ⟨4, .varint 0⟩] := by
    rw [encodeStartRequest_eq_some h, startRequestBytes]
    apply parse_encode
    intro field hfield
    simp only [List.mem_cons, List.not_mem_nil, or_false] at hfield
    obtain rfl | rfl := hfield <;> trivial
  have hnested : (bytesAt 1 [(⟨1, .bytes ((processFields command args cwd).flatMap Field.encode)⟩ :
      Field), ⟨4, .varint 0⟩]).flatten = (processFields command args cwd).flatMap Field.encode := by
    simp [bytesAt]
  have hstdin (data : List UInt8) :
      integersAt 4 [(⟨1, .bytes data⟩ : Field), ⟨4, .varint 0⟩] = [0] := by
    simp [integersAt]
  have hcommand : textAt 1 (processFields command args cwd) = some command := by
    rw [textAt, bytesAt_processFields]
    simp [readText_utf8Encode]
  have hargs : (bytesAt 2 (processFields command args cwd)).mapM readText = some args := by
    rw [bytesAt_processFields]
    simpa using mapM_readText args
  have hcwd : textAt 4 (processFields command args cwd) = some cwd := by
    rw [textAt, bytesAt_processFields]
    simp [readText_utf8Encode]
  rw [decodeStartRequest, hrequest, Option.bind_eq_bind, Option.bind_some, hnested, hprocess,
    hstdin, Option.bind_eq_bind, Option.bind_some, hcommand, hargs, hcwd]
  rfl

/-! ## The envelope is taken apart -/

/-- The length in an envelope's header is the payload's. -/
theorem envelopeLength_header {n : ℕ} (h : n < 2 ^ 31) :
    envelopeLength (toByte (Int32.ofNat n >>> 24)) (toByte (Int32.ofNat n >>> 16))
      (toByte (Int32.ofNat n >>> 8)) (toByte (Int32.ofNat n)) = Int32.ofNat n := by
  have hbyte {k : ℕ} (hk : k < 31) : byteToInt (toByte (Int32.ofNat n >>> Int32.ofNat k)) =
      Int32.ofNat (n / 2 ^ k % 256) := by
    have hdiv : n / 2 ^ k ≤ n := Nat.div_le_self _ _
    rw [ofNat_shiftRight h hk, toByte_ofNat (by omega), byteToInt, UInt8.toNat_ofNat']
  have hlast : byteToInt (toByte (Int32.ofNat n)) = Int32.ofNat (n % 256) := by
    rw [toByte_ofNat h, byteToInt, UInt8.toNat_ofNat']
  have h8 : byteToInt (toByte (Int32.ofNat n >>> 8)) = Int32.ofNat (n / 256 % 256) :=
    hbyte (k := 8) (by omega)
  have h16 : byteToInt (toByte (Int32.ofNat n >>> 16)) = Int32.ofNat (n / 65536 % 256) :=
    hbyte (k := 16) (by omega)
  have h24 : byteToInt (toByte (Int32.ofNat n >>> 24)) = Int32.ofNat (n / 16777216 % 256) :=
    hbyte (k := 24) (by omega)
  have hlow : Int32.ofNat (n % 256) ||| (Int32.ofNat (n / 256 % 256) <<< 8) =
      Int32.ofNat (n % 256 + n / 256 % 256 * 2 ^ 8) := or_shiftLeft (s := 8) (by omega) (by omega)
  have hmiddle : Int32.ofNat (n % 256 + n / 256 % 256 * 2 ^ 8) |||
      (Int32.ofNat (n / 65536 % 256) <<< 16) =
      Int32.ofNat (n % 256 + n / 256 % 256 * 2 ^ 8 + n / 65536 % 256 * 2 ^ 16) :=
    or_shiftLeft (s := 16) (by omega) (by omega)
  have hhigh : Int32.ofNat (n % 256 + n / 256 % 256 * 2 ^ 8 + n / 65536 % 256 * 2 ^ 16) |||
      (Int32.ofNat (n / 16777216 % 256) <<< 24) =
      Int32.ofNat (n % 256 + n / 256 % 256 * 2 ^ 8 + n / 65536 % 256 * 2 ^ 16 +
        n / 16777216 % 256 * 2 ^ 24) := or_shiftLeft (s := 24) (by omega) (by omega)
  have hsum : n % 256 + n / 256 % 256 * 2 ^ 8 + n / 65536 % 256 * 2 ^ 16 +
      n / 16777216 % 256 * 2 ^ 24 = n := by omega
  have hturn (a b c d : Int32) : a ||| b ||| c ||| d = d ||| c ||| b ||| a := by ac_rfl
  rw [envelopeLength, h24, h16, h8, hlast, hturn, hlow, hmiddle, hhigh, hsum]

/-- The contents of an envelope. -/
def envelopeBytes (flag : Int32) (payload : Bytes) : List UInt8 :=
  [toByte flag, toByte (payload.length >>> 24), toByte (payload.length >>> 16),
    toByte (payload.length >>> 8), toByte payload.length] ++ payload.data

/-- An envelope is five bytes longer than its payload. -/
theorem length_envelopeBytes (flag : Int32) (payload : Bytes) :
    (envelopeBytes flag payload).length = payload.data.length + 5 := by
  rw [envelopeBytes, List.length_append, Nat.add_comm]
  rfl

/-- An envelope that the limit allows is taken off the front of a buffer. -/
theorem nextEnvelope_envelopeBytes {limit : Int32} {payload : Bytes}
    (hlimit : payload.length ≤ limit) (hfit : payload.data.length + 5 < 2 ^ 31) (flag : Int32)
    (rest : List UInt8) :
    nextEnvelope limit (envelopeBytes flag payload ++ rest) =
      match readEnvelope (toByte flag) payload with
      | .ok envelope => .frame envelope rest
      | .error fault => .fault fault := by
  have hlen : payload.length = Int32.ofNat payload.data.length := rfl
  have hzero : (0 : Int32) ≤ payload.length := by
    rw [Int32.le_iff_toInt_le, Bytes.toInt_length, Int32.toInt_zero]
    omega
  have htotal : (5 + payload.length).toInt = 5 + payload.data.length := by
    rw [toInt_add_of_lt (by decide) (by rw [Bytes.toInt_length]; omega)
      (by rw [Bytes.toInt_length]; change (5 : ℤ) + _ < _; omega), Bytes.toInt_length]
    rfl
  have hbody : envelopePayload (payload.data ++ rest) payload.length = payload := by
    obtain ⟨data, hdata⟩ := payload
    simp [envelopePayload, Bytes.toInt_length]
  have hsmall : ¬ (5 + payload.length < 5) := by
    rw [Int32.lt_iff_toInt_lt, htotal]
    change ¬ (5 + (payload.data.length : ℤ) < 5)
    omega
  have hheader : envelopeBytes flag payload ++ rest =
      toByte flag :: toByte (payload.length >>> 24) :: toByte (payload.length >>> 16) ::
        toByte (payload.length >>> 8) :: toByte payload.length :: (payload.data ++ rest) := rfl
  rw [hheader, nextEnvelope, hlen, envelopeLength_header payload.length_lt, ← hlen, readBody,
    if_pos ⟨hzero, hlimit⟩]
  dsimp only
  have hlong : ¬ ((payload.data ++ rest).length + 5 : ℤ) < 5 + payload.data.length := by
    rw [List.length_append]
    omega
  cases hread : readEnvelope (toByte flag) payload with
  | error fault =>
    simp only [htotal, hlong, hsmall, hbody, hread, if_false]
  | ok envelope =>
    simp only [htotal, hlong, hsmall, hbody, hread, if_false, Bytes.toInt_length, Int.toNat_natCast,
      List.drop_left]

/-- A fresh decoder that is fed an envelope says what its payload decodes to. -/
theorem feed_connectEnvelope {limit : FrameLimit} {payload chunk : Bytes}
    (hlimit : payload.length ≤ limit.1) (h : connectEnvelope 0 payload = some chunk) :
    (ConnectDecoder.new limit).feed chunk =
      (decodeStartResponse payload).map fun event => (.new limit, event.toList) := by
  have hchunk : chunk.data = envelopeBytes 0 payload := toBytes_eq_some.mp h
  have hfit := chunk.length_lt
  rw [hchunk, length_envelopeBytes] at hfit
  have hflag : toByte 0 = 0x00 := by decide
  have hnext := nextEnvelope_envelopeBytes hlimit hfit 0 []
  rw [List.append_nil, hflag, readEnvelope, if_pos rfl] at hnext
  rw [ConnectDecoder.feed, ConnectDecoder.new]
  simp only [Bool.false_eq_true, if_false, List.nil_append, hchunk]
  rw [ConnectDecoder.feedLoop]
  rw [hnext]
  cases decodeStartResponse payload with
  | error fault => rfl
  | ok event =>
    dsimp only [Except.map]
    rw [length_envelopeBytes, ConnectDecoder.feedLoop]
    rfl

/-- Every start request that is encoded is decoded to its command, arguments and working
directory, whatever their lengths, and it is encoded unless it is longer than any byte string.
And an envelope that the limit allows is taken apart by a fresh stream decoder to what its payload
decodes to, with nothing left over. -/
theorem start_request_faithful :
    (∀ (command : String) (args : List String) (cwd : String),
      ((startRequestBytes command args cwd).length < 2 ^ 31 →
        ∃ bytes, encodeStartRequest command args cwd = some bytes) ∧
      ∀ bytes, encodeStartRequest command args cwd = some bytes →
        decodeStartRequest bytes.data = some ⟨command, args, cwd, some 0⟩) ∧
    ∀ (limit : FrameLimit) (payload : Bytes), payload.length ≤ limit.1 →
      (payload.data.length + 5 < 2 ^ 31 → ∃ chunk, connectEnvelope 0 payload = some chunk) ∧
      ∀ chunk, connectEnvelope 0 payload = some chunk →
        (ConnectDecoder.new limit).feed chunk =
          (decodeStartResponse payload).map fun event => (.new limit, event.toList) := by
  constructor
  · intro command args cwd
    exact ⟨exists_encodeStartRequest, fun bytes h => decodeStartRequest_encode h⟩
  · intro limit payload hlimit
    refine ⟨fun hfit => ?_, fun chunk h => feed_connectEnvelope hlimit h⟩
    rw [← length_envelopeBytes 0 payload] at hfit
    exact ⟨_, toBytes_of_lt hfit⟩

/-- The response that process 7 has started. -/
def sampleStartResponse : Bytes := ⟨[10, 4, 10, 2, 8, 7], by decide⟩

/-- The request to start `a b` in `/` is encoded and decoded, and the start of a process comes
out of its envelope. -/
theorem start_request_faithful_sample :
    (∃ bytes, encodeStartRequest "a" ["b"] "/" = some bytes ∧
      decodeStartRequest bytes.data = some ⟨"a", ["b"], "/", some 0⟩) ∧
    decodeStartResponse sampleStartResponse = .ok (some (.processStarted 7)) ∧
    ∃ chunk, connectEnvelope 0 sampleStartResponse = some chunk ∧
      (ConnectDecoder.new ⟨16, by decide⟩).feed chunk =
        (decodeStartResponse sampleStartResponse).map fun event =>
          (.new ⟨16, by decide⟩, event.toList) := by
  refine ⟨?_, by decide, ?_⟩
  · obtain ⟨hencodes, hdecodes⟩ := start_request_faithful.1 "a" ["b"] "/"
    obtain ⟨bytes, hbytes⟩ := hencodes (by decide +kernel)
    exact ⟨bytes, hbytes, hdecodes bytes hbytes⟩
  · obtain ⟨hencodes, hfeeds⟩ :=
      start_request_faithful.2 ⟨16, by decide⟩ sampleStartResponse (by decide)
    obtain ⟨chunk, hchunk⟩ := hencodes (by decide)
    exact ⟨chunk, hchunk, hfeeds chunk hchunk⟩

end Moonfort.AenBackend
