import Mathlib
import Moonfort.AenBackend.StartRequest
import Moonfort.MoonBit.Utf8Cuts

/-!
# Encoded process events

The messages that a guest sends for its process events, in the order of fields that
protobuf writers use, and that `decode_start_response` reads them back.
-/

namespace Moonfort.AenBackend

open MoonBit

/-! ## Reading one field -/

/-- A field whose key the loops split as it was put together. -/
structure IsField (field wire : Int32) : Prop where
  key_nonneg : 0 ≤ ((field <<< 3) ||| wire).toInt
  field_eq : ((field <<< 3) ||| wire) >>> 3 = field
  wire_eq : ((field <<< 3) ||| wire) &&& 7 = wire

/-- A length-delimited field is read where it stands. -/
theorem readBytes_written {data value : Bytes} {before after : List UInt8}
    (hdata : data.data = before ++ (writeVarint value.length ++ value.data ++ after)) :
    readBytes data (Int32.ofNat before.length) =
      .ok (value,
        Int32.ofNat (before.length + (writeVarint value.length ++ value.data).length)) := by
  have hlength := data.length_lt
  rw [hdata, List.length_append, List.length_append, List.length_append] at hlength
  have hsplit : data.data = before ++ (writeVarint value.length ++ (value.data ++ after)) := by
    rw [hdata, List.append_assoc]
  have hread := readVarint_writeVarint (by rw [Bytes.toInt_length]; omega) hsplit
  have hstart : (Int32.ofNat (before.length + (writeVarint value.length).length)).toInt =
      before.length + (writeVarint value.length).length := by
    rw [Int32.toInt_ofNat_of_lt (by omega)]
    omega
  have hstop : Int32.ofNat (before.length + (writeVarint value.length).length) + value.length =
      Int32.ofNat (before.length + (writeVarint value.length ++ value.data).length) := by
    rw [Bytes.length, ← Int32.ofNat_add, List.length_append, Nat.add_assoc]
  have hstopInt : (Int32.ofNat (before.length +
      (writeVarint value.length ++ value.data).length)).toInt =
        before.length + (writeVarint value.length).length + value.data.length := by
    rw [Int32.toInt_ofNat_of_lt (by rw [List.length_append]; omega), List.length_append]
    omega
  have hend : (data.length).toInt = before.length + (writeVarint value.length).length +
      value.data.length + after.length := by
    rw [Bytes.toInt_length, hdata, List.length_append, List.length_append, List.length_append]
    omega
  have hwithin : (0 : Int32) ≤ value.length ∧ Int32.ofNat (before.length +
      (writeVarint value.length ++ value.data).length) ≤ data.length := by
    rw [Int32.le_iff_toInt_le, Int32.le_iff_toInt_le, Bytes.toInt_length, hstopInt, hend]
    exact ⟨by rw [Int32.toInt_zero]; omega, by omega⟩
  have hslice : data.slice? (Int32.ofNat (before.length + (writeVarint value.length).length))
      (Int32.ofNat (before.length + (writeVarint value.length ++ value.data).length)) =
        some value := by
    have hbounds : (0 : Int32) ≤ Int32.ofNat (before.length + (writeVarint value.length).length) ∧
        Int32.ofNat (before.length + (writeVarint value.length).length) ≤
          Int32.ofNat (before.length + (writeVarint value.length ++ value.data).length) := by
      rw [Int32.le_iff_toInt_le, Int32.le_iff_toInt_le, hstart, hstopInt, Int32.toInt_zero]
      omega
    rw [Bytes.slice?, if_pos ⟨hbounds.1, hbounds.2, hwithin.2⟩]
    obtain ⟨contents, hcontents⟩ := value
    congr 2
    rw [hstart, hstopInt, hdata]
    have hsplit :
        before ++ (writeVarint (Bytes.length ⟨contents, hcontents⟩) ++ contents ++ after) =
          (before ++ writeVarint (Bytes.length ⟨contents, hcontents⟩)) ++ (contents ++ after) := by
      simp only [List.append_assoc]
    rw [hsplit, List.drop_left' (by rw [List.length_append]; omega),
      List.take_left' (by dsimp only; omega)]
  rw [readBytes, hread]
  simp only [bind, Except.bind, hstop, hwithin, and_self, if_true, hslice]

namespace FieldLoop

variable {σ ρ : Type} {loop : FieldLoop σ ρ} {data value : Bytes} {before after : List UInt8}
  {rounds : ℕ} {state : σ} {field : Int32}

/-- A loop is inside its message before a field. -/
theorem lt_length {contents : List UInt8} (hdata : data.data = before ++ (contents ++ after))
    (hcontents : contents ≠ []) : Int32.ofNat before.length < data.length := by
  have hlength := data.length_lt
  have hpos := List.length_pos_iff.mpr hcontents
  rw [hdata, List.length_append, List.length_append] at hlength
  rw [Int32.lt_iff_toInt_lt, Bytes.toInt_length, Int32.toInt_ofNat_of_lt (by omega), hdata,
    List.length_append, List.length_append]
  omega

/-- A written number has a byte at least. -/
theorem writeVarint_ne_nil (n : Int32) : writeVarint n ≠ [] := by
  rw [writeVarint, writeVarintFrom]
  split <;> exact List.cons_ne_nil _ _

/-- A round of a loop at a length-delimited field that it reads for itself. -/
theorem scan_bytes (rounds : ℕ) (state : σ) {act : σ → Bytes → Except Fault (Control σ ρ)}
    (hfield : IsField field 2) (hact : loop.bytes field = some act)
    (hdata : data.data = before ++ (writeLengthDelimited field value ++ after)) :
    loop.scan data (rounds + 1) state (Int32.ofNat before.length) =
      match act state value with
      | .error fault => .error fault
      | .ok (.done result) => .ok result
      | .ok (.next state) => loop.scan data rounds state
          (Int32.ofNat (before.length + (writeLengthDelimited field value).length)) := by
  have hkeyAt : data.data = before ++ (writeVarint ((field <<< 3) ||| 2) ++
      (writeVarint value.length ++ value.data ++ after)) := by
    rw [hdata, writeLengthDelimited, writeKey]
    simp only [List.append_assoc]
  have hvalueAt : data.data = (before ++ writeVarint ((field <<< 3) ||| 2)) ++
      (writeVarint value.length ++ value.data ++ after) := by
    rw [hkeyAt]
    simp only [List.append_assoc]
  have hkey := readVarint_writeVarint hfield.key_nonneg hkeyAt
  have hvalue := readBytes_written hvalueAt
  have hne : writeLengthDelimited field value ≠ [] := by
    rw [writeLengthDelimited, writeKey, List.append_assoc]
    exact List.append_ne_nil_of_left_ne_nil (writeVarint_ne_nil _) _
  have hend : (before ++ writeVarint ((field <<< 3) ||| 2)).length +
      (writeVarint value.length ++ value.data).length =
        before.length + (writeLengthDelimited field value).length := by
    simp only [writeLengthDelimited, writeKey, List.length_append]
    omega
  rw [hend, List.length_append] at hvalue
  rw [FieldLoop.scan, if_pos (lt_length hdata hne), hkey]
  have htwo : (2 : Int32) ≠ 0 := by decide
  simp only [bind, Except.bind, hfield.field_eq, hfield.wire_eq, FieldLoop.readField, htwo,
    if_false, if_true, hact, hvalue]
  cases act state value with
  | error fault => rfl
  | ok control => cases control <;> rfl

/-- A round of a loop at a varint that it reads for itself. -/
theorem scan_varint (rounds : ℕ) (state : σ) {act : σ → Int32 → Control σ ρ} {number : Int32}
    (hfield : IsField field 0) (hact : loop.varint field = some act) (hnumber : 0 ≤ number.toInt)
    (hdata : data.data = before ++ (writeKey field 0 ++ writeVarint number ++ after)) :
    loop.scan data (rounds + 1) state (Int32.ofNat before.length) =
      match act state number with
      | .done result => .ok result
      | .next state => loop.scan data rounds state
          (Int32.ofNat (before.length + (writeKey field 0 ++ writeVarint number).length)) := by
  have hkeyAt : data.data = before ++ (writeVarint ((field <<< 3) ||| 0) ++
      (writeVarint number ++ after)) := by
    rw [hdata, writeKey, List.append_assoc]
  have hvalueAt : data.data = (before ++ writeKey field 0) ++ (writeVarint number ++ after) := by
    rw [hdata]
    simp only [List.append_assoc]
  have hkey := readVarint_writeVarint hfield.key_nonneg hkeyAt
  have hvalue := readVarint_writeVarint hnumber hvalueAt
  have hne : writeKey field 0 ++ writeVarint number ≠ [] :=
    List.append_ne_nil_of_left_ne_nil (writeVarint_ne_nil _) _
  have hend : (before ++ writeKey field 0).length + (writeVarint number).length =
      before.length + (writeKey field 0 ++ writeVarint number).length := by
    rw [List.length_append, List.length_append]
    omega
  rw [hend, List.length_append, writeKey] at hvalue
  rw [FieldLoop.scan, if_pos (lt_length hdata hne), hkey]
  simp only [bind, Except.bind, hfield.field_eq, hfield.wire_eq, FieldLoop.readField, if_true, hact,
    hvalue, Except.map]
  cases act state number <;> rfl

/-- The end of a message. -/
theorem scan_end (hdata : data.data = before) :
    loop.scan data (rounds + 1) state (Int32.ofNat before.length) = loop.finish state := by
  have hend : ¬Int32.ofNat before.length < data.length := by
    rw [Bytes.length, hdata]
    exact Int32.lt_irrefl
  rw [FieldLoop.scan, if_neg hend]

end FieldLoop

/-! ## Process events -/

/-- A message with one length-delimited field. -/
def delimited (field : Int32) (value : Bytes) : Option Bytes :=
  toBytes (writeLengthDelimited field value)

/-- The message of a started process. -/
def encodeStarted (pid : Int32) : Option Bytes := toBytes (writeKey 1 0 ++ writeVarint pid)

/-- The message of an exited process, with an exit code that is not negative. -/
def encodeExited (code : ℕ) (status : String) : Option Bytes := do
  let text ← toBytes (utf8Encode status)
  toBytes (writeKey 1 0 ++ writeVarint (Int32.ofNat (2 * code)) ++ writeLengthDelimited 3 text)

/-- The process event that a `StartResponse` holds, by the field that it stands in. -/
def encodeResponse (field : Int32) (event : Bytes) : Option Bytes :=
  (delimited field event).bind (delimited 1)

/-- A `StartResponse` of output on the stream of this field number: 1 for standard
output, 2 for standard error. -/
def encodeOutput (field : Int32) (data : Bytes) : Option Bytes :=
  (delimited field data).bind (encodeResponse 2)

/-- A field number and a wire type that survive the shifts form a field. -/
theorem isField_of {field wire : Int32} (h : decide (0 ≤ ((field <<< 3) ||| wire).toInt) &&
    decide (((field <<< 3) ||| wire) >>> 3 = field) &&
    decide (((field <<< 3) ||| wire) &&& 7 = wire)) : IsField field wire := by
  simp only [Bool.and_eq_true, decide_eq_true_eq] at h
  exact ⟨h.1.1, h.1.2, h.2⟩

/-- A loop that ends at its first field. -/
theorem run_delimited {σ ρ : Type} {loop : FieldLoop σ ρ} {state : σ} {field : Int32}
    {value payload : Bytes} {result : ρ} {act : σ → Bytes → Except Fault (Control σ ρ)}
    (hpayload : delimited field value = some payload) (hfield : IsField field 2)
    (hact : loop.bytes field = some act) (hdone : act state value = .ok (.done result)) :
    loop.run payload state = .ok result := by
  have hdata : payload.data = [] ++ (writeLengthDelimited field value ++ []) := by
    rw [toBytes_eq_some.mp hpayload, List.nil_append, List.append_nil]
  have hscan := FieldLoop.scan_bytes payload.data.length state hfield hact hdata
  rw [hdone] at hscan
  exact hscan

/-- A response is read as its process event is. -/
theorem decodeStartResponse_encode {field : Int32} {value payload : Bytes}
    {event : Option AenExecEvent} (hpayload : encodeResponse field value = some payload)
    (hfield : IsField field 2)
    {act : Unit → Bytes → Except Fault (Control Unit (Option AenExecEvent))}
    (hact : processEventLoop.bytes field = some act) (hdone : act () value = .ok (.done event)) :
    decodeStartResponse payload = .ok event := by
  obtain ⟨nested, hnested, hresponse⟩ := Option.bind_eq_some_iff.mp hpayload
  have hevent : decodeProcessEvent nested = .ok event := run_delimited hnested hfield hact hdone
  refine run_delimited hresponse (isField_of (by decide)) rfl ?_
  rw [hevent]
  rfl

/-- Output on standard output is read back. -/
theorem decodeStartResponse_stdout {data payload : Bytes}
    (h : encodeOutput 1 data = some payload) :
    decodeStartResponse payload = .ok (some (.stdout data)) := by
  obtain ⟨nested, hnested, hresponse⟩ := Option.bind_eq_some_iff.mp h
  have hevent : decodeDataEvent nested = .ok (some (.stdout data)) :=
    run_delimited hnested (isField_of (by decide)) rfl rfl
  exact decodeStartResponse_encode hresponse (isField_of (by decide)) rfl
    (congrArg (Except.map Control.done) hevent)

/-- Output on standard error is read back. -/
theorem decodeStartResponse_stderr {data payload : Bytes}
    (h : encodeOutput 2 data = some payload) :
    decodeStartResponse payload = .ok (some (.stderr data)) := by
  obtain ⟨nested, hnested, hresponse⟩ := Option.bind_eq_some_iff.mp h
  have hevent : decodeDataEvent nested = .ok (some (.stderr data)) :=
    run_delimited hnested (isField_of (by decide)) rfl rfl
  exact decodeStartResponse_encode hresponse (isField_of (by decide)) rfl
    (congrArg (Except.map Control.done) hevent)

/-- The start of a process is read back. -/
theorem decodeStartResponse_started {pid : Int32} {payload : Bytes} (hpid : 0 ≤ pid.toInt)
    (h : (encodeStarted pid).bind (encodeResponse 1) = some payload) :
    decodeStartResponse payload = .ok (some (.processStarted pid)) := by
  obtain ⟨nested, hnested, hresponse⟩ := Option.bind_eq_some_iff.mp h
  have hdata : nested.data = [] ++ (writeKey 1 0 ++ writeVarint pid ++ []) := by
    rw [toBytes_eq_some.mp hnested, List.nil_append, List.append_nil]
  have hevent : decodeStartEvent nested = .ok (some (.processStarted pid)) := by
    have hact : startEventLoop.varint 1 =
        some fun _ pid => .done (some (.processStarted pid)) := rfl
    have hscan := FieldLoop.scan_varint nested.data.length () (isField_of (by decide)) hact hpid
      hdata
    exact hscan
  exact decodeStartResponse_encode hresponse (isField_of (by decide)) rfl
    (congrArg (Except.map Control.done) hevent)

/-- The end event decodes its exit code from the zigzag form. -/
theorem endEventLoop_varint_one :
    endEventLoop.varint 1 = some fun (_, status) raw =>
      .next ((raw >>> 1) ^^^ -(raw &&& 1), status) := rfl

/-- The end event takes its status from UTF-8 bytes. -/
theorem endEventLoop_bytes_three :
    endEventLoop.bytes 3 = some fun (exitCode, _) value =>
      match utf8Decode value with
      | some status => .ok (.next (exitCode, status))
      | none => protocolFailure "envd EndEvent status is not UTF-8" := rfl

/-- The exit of a process is read back. -/
theorem decodeStartResponse_exited {code : ℕ} {status : String} {payload : Bytes}
    (hcode : code < 2 ^ 30)
    (h : (encodeExited code status).bind (encodeResponse 3) = some payload) :
    decodeStartResponse payload = .ok (some (.processExited (Int32.ofNat code) status)) := by
  obtain ⟨nested, hnested, hresponse⟩ := Option.bind_eq_some_iff.mp h
  obtain ⟨text, htext, hbytes⟩ := Option.bind_eq_some_iff.mp hnested
  have hdata := toBytes_eq_some.mp hbytes
  have hnumber : 0 ≤ (Int32.ofNat (2 * code)).toInt := by
    rw [Int32.toInt_ofNat_of_lt (by omega)]
    omega
  have hzigzag : (Int32.ofNat (2 * code) >>> 1) ^^^ -(Int32.ofNat (2 * code) &&& 1) =
      Int32.ofNat code := by
    have hshift : Int32.ofNat (2 * code) >>> 1 = Int32.ofNat (2 * code / 2 ^ 1) :=
      ofNat_shiftRight (k := 1) (by omega) (by omega)
    have hlow : Int32.ofNat (2 * code) &&& 1 = Int32.ofNat (2 * code % 2 ^ 1) :=
      ofNat_and (k := 1) (by omega) (by omega)
    rw [hshift, hlow, Nat.pow_one, Nat.mul_div_cancel_left code (by omega), Nat.mul_mod_right]
    exact Int32.xor_zero
  have hstatus : utf8Decode text = some status := by
    rw [utf8Decode, toBytes_eq_some.mp htext, mapM_utf8Items_utf8Encode, Option.map_some,
      String.ofList_toList]
  obtain ⟨rounds, hrounds⟩ : ∃ rounds, nested.data.length = rounds + 1 + 1 := by
    have hkey := List.length_pos_iff.mpr (FieldLoop.writeVarint_ne_nil (((1 : Int32) <<< 3) ||| 0))
    have hvarint := List.length_pos_iff.mpr (FieldLoop.writeVarint_ne_nil (Int32.ofNat (2 * code)))
    refine ⟨nested.data.length - 2, ?_⟩
    rw [hdata, List.length_append, List.length_append, writeKey]
    omega
  have hcodeAt : nested.data = [] ++ (writeKey 1 0 ++ writeVarint (Int32.ofNat (2 * code)) ++
      writeLengthDelimited 3 text) := hdata
  have hstatusAt : nested.data = (writeKey 1 0 ++ writeVarint (Int32.ofNat (2 * code))) ++
      (writeLengthDelimited 3 text ++ []) := by
    rw [List.append_nil]
    exact hdata
  have hcodeField := FieldLoop.scan_varint nested.data.length (0, "") (isField_of (by decide))
    endEventLoop_varint_one hnumber hcodeAt
  have hstatusField := FieldLoop.scan_bytes (rounds + 1) (Int32.ofNat code, "")
    (isField_of (by decide)) endEventLoop_bytes_three hstatusAt
  have hfirst : endEventLoop.scan nested (nested.data.length + 1) (0, "") 0 =
      endEventLoop.scan nested nested.data.length (Int32.ofNat code, "")
        (Int32.ofNat (writeKey 1 0 ++ writeVarint (Int32.ofNat (2 * code))).length) := by
    rw [List.length_nil, Nat.zero_add] at hcodeField
    rw [← hzigzag]
    exact hcodeField
  have hsecond : endEventLoop.scan nested (rounds + 1 + 1) (Int32.ofNat code, "")
      (Int32.ofNat (writeKey 1 0 ++ writeVarint (Int32.ofNat (2 * code))).length) =
        endEventLoop.scan nested (rounds + 1) (Int32.ofNat code, status)
          (Int32.ofNat nested.data.length) := by
    have hlength : nested.data.length =
        (writeKey 1 0 ++ writeVarint (Int32.ofNat (2 * code))).length +
          (writeLengthDelimited 3 text).length := by
      rw [hdata, List.length_append]
    simp only [hstatus] at hstatusField
    rw [hlength]
    exact hstatusField
  have hevent : decodeEndEvent nested = .ok (.processExited (Int32.ofNat code) status) := by
    rw [decodeEndEvent, FieldLoop.run, hfirst, hrounds, hsecond, FieldLoop.scan_end rfl]
    rfl
  exact decodeStartResponse_encode hresponse (isField_of (by decide)) rfl
    (congrArg (fun outcome => (Except.map some outcome).map Control.done) hevent)

end Moonfort.AenBackend
