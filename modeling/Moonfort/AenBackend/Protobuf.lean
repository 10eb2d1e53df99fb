import Moonfort.AenBackend.Types

/-!
# Reading protobuf fields

The readers of `connect_codec.mbt`. Offsets are 32-bit, so the end of a field
whose declared length reaches past `2 ^ 31` wraps to a negative number and
passes the length guard. `fieldEnd` computes the same offset exactly; it tells
apart the fields the readers handle from those at which they abort.
-/

namespace Moonfort.AenBackend

open MoonBit

/-- `data[index]`. -/
def readByte (data : Bytes) (index : Int32) : Except Fault UInt8 :=
  match data.get? index with
  | some byte => .ok byte
  | none => .error .outOfBounds

/-- The loop of `read_varint`. The shift grows by seven to at most seventy, so
eleven rounds suffice. -/
def readVarintFrom (data : Bytes) :
    (rounds : ℕ) → (value shift index : Int32) → Except Fault (Int32 × Int32)
  | 0, _, _, _ => .error .unfinished
  | rounds + 1, value, shift, index =>
    if index < data.length ∧ shift ≤ 63 then do
      let byte ← readByte data index
      let value := value ||| ((Int32.ofNat byte.toNat &&& 0x7f) <<< shift)
      let index := index + 1
      if byte &&& 0x80 = 0 then .ok (value, index)
      else readVarintFrom data rounds value (shift + 7) index
    else protocolFailure "truncated or oversized protobuf varint"

/-- `read_varint`: the value and the offset after it. -/
def readVarint (data : Bytes) (start : Int32) : Except Fault (Int32 × Int32) :=
  readVarintFrom data 11 0 0 start

/-- `read_bytes`: the contents of a length-delimited field and the offset after it. -/
def readBytes (data : Bytes) (start : Int32) : Except Fault (Bytes × Int32) := do
  let (len, payloadStart) ← readVarint data start
  let stop := payloadStart + len
  if 0 ≤ len ∧ stop ≤ data.length then
    match data.slice? payloadStart stop with
    | some payload => .ok (payload, stop)
    | none => .error .outOfBounds
  else protocolFailure "truncated protobuf length-delimited field"

/-- The fixed-width arms of `skip_field`. -/
def skipFixed (data : Bytes) (start width : Int32) (message : String) : Except Fault Int32 :=
  if start + width ≤ data.length then .ok (start + width) else protocolFailure message

/-- `skip_field`: the offset after a field of the given wire type. -/
def skipField (data : Bytes) (start wire : Int32) : Except Fault Int32 :=
  if wire = 0 then (readVarint data start).map (·.2)
  else if wire = 1 then skipFixed data start 8 "truncated fixed64 field"
  else if wire = 2 then (readBytes data start).map (·.2)
  else if wire = 5 then skipFixed data start 4 "truncated fixed32 field"
  else protocolFailure ("unsupported protobuf wire type " ++ toString wire)

/-- What a loop does after reading a field of its own. -/
inductive Control (σ ρ : Type) where
  /-- Continue with the next field. -/
  | next (state : σ)
  /-- Return from the loop. -/
  | done (result : ρ)

/-- The parts in which the decoding loops differ: the fields each reads for
itself, by wire type, and what it returns at the end of the message. -/
structure FieldLoop (σ ρ : Type) where
  /-- The varint fields (wire type 0) the loop reads. -/
  varint : (field : Int32) → Option (σ → Int32 → Control σ ρ)
  /-- The length-delimited fields (wire type 2) the loop reads. -/
  bytes : (field : Int32) → Option (σ → Bytes → Except Fault (Control σ ρ))
  /-- The end of the message. -/
  finish : σ → Except Fault ρ

namespace FieldLoop

variable {σ ρ : Type}

/-- Read the field whose key was just read: one of the loop's own, or one it skips. -/
def readField (loop : FieldLoop σ ρ) (data : Bytes) (state : σ) (field wire start : Int32) :
    Except Fault (Control σ ρ × Int32) :=
  match if wire = 0 then loop.varint field else none with
  | some act => (readVarint data start).map fun (value, next) => (act state value, next)
  | none =>
    match if wire = 2 then loop.bytes field else none with
    | some act => do
      let (payload, next) ← readBytes data start
      (act state payload).map (·, next)
    | none => (skipField data start wire).map (.next state, ·)

/-- `while index < bytes.length()`: read fields until one returns or the message ends. -/
def scan (loop : FieldLoop σ ρ) (data : Bytes) : (rounds : ℕ) → σ → Int32 → Except Fault ρ
  | 0, _, _ => .error .unfinished
  | rounds + 1, state, index =>
    if index < data.length then do
      let (key, afterKey) ← readVarint data index
      match ← loop.readField data state (key >>> 3) (key &&& 7) afterKey with
      | (.next state, index) => scan loop data rounds state index
      | (.done result, _) => .ok result
    else loop.finish state

/-- Run a loop over a whole message. Every round reads at least the byte of a
key, so one more round than there are bytes suffices. -/
def run (loop : FieldLoop σ ρ) (data : Bytes) (state : σ) : Except Fault ρ :=
  loop.scan data (data.data.length + 1) state 0

end FieldLoop

/-- The exact end of a field whose contents start at `start`, without wrapping.
There is none for an unsupported wire type, an unreadable length or a negative
one. -/
def fieldEnd (data : Bytes) (start wire : Int32) : Option ℤ :=
  if wire = 0 then (readVarint data start).toOption.map (·.2.toInt)
  else if wire = 1 then some (start.toInt + 8)
  else if wire = 2 then
    (readVarint data start).toOption.bind fun (len, payloadStart) =>
      if 0 ≤ len then some (payloadStart.toInt + len.toInt) else none
  else if wire = 5 then some (start.toInt + 4)
  else none

/-- A field starting at `start` ends past the range of an `Int`. -/
def FieldOverflows (data : Bytes) (start wire : Int32) : Prop :=
  ∃ stop, fieldEnd data start wire = some stop ∧ 2 ^ 31 ≤ stop

namespace FieldLoop

variable {σ ρ : Type}

/-- The field is a nested message the loop opens, and `nested` holds of it. -/
def Opens (loop : FieldLoop σ ρ) (nested : Int32 → Bytes → Prop) (data : Bytes)
    (field wire start : Int32) : Prop :=
  ∃ payload next, wire = 2 ∧ (loop.bytes field).isSome ∧
    readBytes data start = .ok (payload, next) ∧ nested field payload

/-- From `state` at offset `index`, the loop reaches a field that ends past the
range of an `Int`, or opens a nested message of which `nested` says the same. -/
inductive Overflows (loop : FieldLoop σ ρ) (nested : Int32 → Bytes → Prop) (data : Bytes) :
    σ → Int32 → Prop
  /-- The field at the offset is such a field. -/
  | here {state : σ} {index key afterKey : Int32} (hindex : index < data.length)
      (hkey : readVarint data index = .ok (key, afterKey))
      (hfield : FieldOverflows data afterKey (key &&& 7)) :
      Overflows loop nested data state index
  /-- The field at the offset is a nested message with such a field. -/
  | inside {state : σ} {index key afterKey : Int32} (hindex : index < data.length)
      (hkey : readVarint data index = .ok (key, afterKey))
      (hopens : loop.Opens nested data (key >>> 3) (key &&& 7) afterKey) :
      Overflows loop nested data state index
  /-- The loop goes on past the field at the offset and reaches one. -/
  | later {state state' : σ} {index key afterKey index' : Int32} (hindex : index < data.length)
      (hkey : readVarint data index = .ok (key, afterKey))
      (hfit : ¬ FieldOverflows data afterKey (key &&& 7))
      (hread : loop.readField data state (key >>> 3) (key &&& 7) afterKey =
        .ok (.next state', index'))
      (hlater : Overflows loop nested data state' index') :
      Overflows loop nested data state index

end FieldLoop

/-- The reader aborts when `overflows` holds and otherwise returns or raises. -/
def AbortsIff {α : Type} (overflows : Prop) (outcome : Except Fault α) : Prop :=
  (overflows ∧ outcome = .error .outOfBounds) ∨ (¬ overflows ∧ ReturnsOrRaises outcome)

/-- The accepted endings are exactly those without an overflow. -/
theorem AbortsIff.returnsOrRaises_iff {α : Type} {overflows : Prop} {outcome : Except Fault α}
    (h : AbortsIff overflows outcome) : ReturnsOrRaises outcome ↔ ¬ overflows := by
  rcases h with ⟨ho, rfl⟩ | ⟨hn, hr⟩
  · simp [ho]
  · simp [hn, hr]

/-- A reader that aborts or ends has not run on. -/
theorem AbortsIff.ne_unfinished {α : Type} {overflows : Prop} {outcome : Except Fault α}
    (h : AbortsIff overflows outcome) : outcome ≠ .error .unfinished := by
  rintro rfl
  rcases h with ⟨_, h⟩ | ⟨_, h⟩
  · cases h
  · exact not_returnsOrRaises_unfinished h

/-- Post-processing a returned value changes nothing about the ending. -/
theorem AbortsIff.map {α β : Type} {overflows : Prop} {outcome : Except Fault α} (f : α → β)
    (h : AbortsIff overflows outcome) : AbortsIff overflows (outcome.map f) := by
  rcases h with ⟨ho, rfl⟩ | ⟨hn, hr⟩
  · exact .inl ⟨ho, rfl⟩
  · exact .inr ⟨hn, returnsOrRaises_map.mpr hr⟩

/-! ## The readers one by one -/

/-- Reading inside the byte string succeeds. -/
theorem readByte_ok {data : Bytes} {index : Int32} (hindex : 0 ≤ index.toInt)
    (hlt : index < data.length) : ∃ byte, readByte data index = .ok byte := by
  obtain ⟨byte, hbyte⟩ := Bytes.get?_isSome hindex hlt
  exact ⟨byte, by simp [readByte, hbyte]⟩

/-- The rounds of `read_varint` either end inside the byte string or raise. -/
theorem readVarintFrom_cases {data : Bytes} {rounds : ℕ} {value shift index : Int32}
    (hindex : 0 ≤ index.toInt) (hshift : 0 ≤ shift.toInt) (hshift' : shift.toInt ≤ 70)
    (hrounds : 70 - shift.toInt < 7 * rounds) :
    (∃ message, readVarintFrom data rounds value shift index = protocolFailure message) ∨
      ∃ value' next, readVarintFrom data rounds value shift index = .ok (value', next) ∧
        index.toInt < next.toInt ∧ next.toInt ≤ data.data.length := by
  induction rounds generalizing value shift index with
  | zero => omega
  | succ rounds ih =>
    rw [readVarintFrom]
    split
    case isFalse => exact .inl ⟨_, rfl⟩
    case isTrue hguard =>
      obtain ⟨hlt, hle⟩ := hguard
      obtain ⟨byte, hbyte⟩ := readByte_ok hindex hlt
      rw [Int32.lt_iff_toInt_lt, Bytes.toInt_length] at hlt
      rw [Int32.le_iff_toInt_le] at hle
      have hle' : shift.toInt ≤ 63 := hle
      have hlength := data.length_lt
      have hnext : (index + 1).toInt = index.toInt + 1 :=
        toInt_add_of_lt hindex (by decide) (by change index.toInt + 1 < _; omega)
      have hmore : (shift + 7).toInt = shift.toInt + 7 :=
        toInt_add_of_lt hshift (by decide) (by change shift.toInt + 7 < _; omega)
      simp only [hbyte, bind, Except.bind]
      split
      · exact .inr ⟨_, _, rfl, by omega, by omega⟩
      · have hmore := @ih (value ||| ((Int32.ofNat byte.toNat &&& 0x7f) <<< shift))
          (shift + 7) (index + 1) (by omega) (by omega) (by omega) (by omega)
        rcases hmore with hfail | ⟨value', next, hok, hlt', hle''⟩
        · exact .inl hfail
        · exact .inr ⟨value', next, hok, by omega, hle''⟩

/-- `read_varint` inside the byte string raises or ends at a later offset inside it. -/
theorem readVarint_cases (data : Bytes) {start : Int32} (hstart : 0 ≤ start.toInt) :
    (∃ message, readVarint data start = protocolFailure message) ∨
      ∃ value next, readVarint data start = .ok (value, next) ∧
        start.toInt < next.toInt ∧ next.toInt ≤ data.data.length :=
  readVarintFrom_cases hstart (by decide) (by decide) (by decide)

/-- `read_varint` at a negative offset aborts. -/
theorem readVarint_of_neg {data : Bytes} {start : Int32} (hstart : start.toInt < 0) :
    readVarint data start = .error .outOfBounds := by
  have hlt : start < data.length := by
    rw [Int32.lt_iff_toInt_lt, Bytes.toInt_length]
    omega
  have hguard : start < data.length ∧ (0 : Int32) ≤ 63 := ⟨hlt, by decide⟩
  rw [readVarint, readVarintFrom, if_pos hguard, readByte, Bytes.get?_of_neg hstart]
  rfl

/-- A field whose exact end is known overflows when that end does. -/
theorem fieldOverflows_iff {data : Bytes} {start wire : Int32} {stop : ℤ}
    (hend : fieldEnd data start wire = some stop) :
    FieldOverflows data start wire ↔ 2 ^ 31 ≤ stop := by
  simp [FieldOverflows, hend]

/-- A field without an exact end does not overflow. -/
theorem not_fieldOverflows_of_none {data : Bytes} {start wire : Int32}
    (hend : fieldEnd data start wire = none) : ¬ FieldOverflows data start wire := by
  simp [FieldOverflows, hend]

/-- `read_bytes` aborts exactly when the exact end of its field overflows, and a
payload it returns ends at a later offset inside the byte string. -/
theorem readBytes_cases (data : Bytes) {start : Int32} (hstart : 0 ≤ start.toInt) :
    (FieldOverflows data start 2 ∧ readBytes data start = .error .outOfBounds) ∨
      ¬ FieldOverflows data start 2 ∧
        ((∃ message, readBytes data start = protocolFailure message) ∨
          ∃ payload next, readBytes data start = .ok (payload, next) ∧
            start.toInt < next.toInt ∧ next.toInt ≤ data.data.length) := by
  have hlength := data.length_lt
  have hend : fieldEnd data start 2 = (readVarint data start).toOption.bind
      fun (len, payloadStart) =>
        if 0 ≤ len then some (payloadStart.toInt + len.toInt) else none := rfl
  rcases readVarint_cases data hstart with ⟨message, hfail⟩ | ⟨len, payloadStart, hok, hlt, hle⟩
  · refine .inr ⟨not_fieldOverflows_of_none ?_, .inl ⟨message, ?_⟩⟩
    · rw [hend, hfail]
      rfl
    · rw [readBytes, hfail]
      rfl
  rw [hok] at hend
  have hread : readBytes data start =
      if 0 ≤ len ∧ payloadStart + len ≤ data.length then
        match data.slice? payloadStart (payloadStart + len) with
        | some payload => .ok (payload, payloadStart + len)
        | none => .error .outOfBounds
      else protocolFailure "truncated protobuf length-delimited field" := by
    simp only [readBytes, hok, bind, Except.bind]
  by_cases hlen : 0 ≤ len
  case neg =>
    refine .inr ⟨not_fieldOverflows_of_none ?_,
      .inl ⟨"truncated protobuf length-delimited field", ?_⟩⟩
    · rw [hend]
      exact if_neg hlen
    · rw [hread, if_neg (fun h => hlen h.1)]
  have hlen' : 0 ≤ len.toInt := Int32.le_iff_toInt_le.mp hlen
  have hover := fieldOverflows_iff (hend.trans (if_pos hlen))
  have hbounds : payloadStart + len ≤ data.length ↔
      (payloadStart + len).toInt ≤ data.data.length := by
    rw [Int32.le_iff_toInt_le, Bytes.toInt_length]
  by_cases hlarge : 2 ^ 31 ≤ payloadStart.toInt + len.toInt
  · have hneg : (payloadStart + len).toInt < 0 := toInt_add_of_le hlen' hlarge
    have hslice : data.slice? payloadStart (payloadStart + len) = none := by
      rw [← Option.not_isSome_iff_eq_none, Bytes.slice?_isSome_iff]
      omega
    refine .inl ⟨hover.mpr hlarge, ?_⟩
    rw [hread, if_pos ⟨hlen, hbounds.mpr (by omega)⟩, hslice]
  · have hexact : (payloadStart + len).toInt = payloadStart.toInt + len.toInt :=
      toInt_add_of_lt (by omega) hlen' (by omega)
    refine .inr ⟨fun h => hlarge (hover.mp h), ?_⟩
    by_cases hbound : payloadStart + len ≤ data.length
    case neg =>
      exact .inl ⟨_, by rw [hread, if_neg (fun h => hbound h.2)]⟩
    have hslice : (data.slice? payloadStart (payloadStart + len)).isSome := by
      rw [Bytes.slice?_isSome_iff]
      have := hbounds.mp hbound
      omega
    obtain ⟨payload, hpayload⟩ := Option.isSome_iff_exists.mp hslice
    refine .inr ⟨payload, payloadStart + len, ?_, by omega, hbounds.mp hbound⟩
    rw [hread, if_pos ⟨hlen, hbound⟩, hpayload]

/-- How skipping over a field that may overflow ends: an overflowing field aborts
or leaves a negative offset, any other raises or ends at a later offset inside
the byte string. -/
def SkipsWithin (data : Bytes) (start : Int32) (overflows : Prop)
    (outcome : Except Fault Int32) : Prop :=
  (overflows ∧ (outcome = .error .outOfBounds ∨
      ∃ next, outcome = .ok next ∧ next.toInt < 0)) ∨
    ¬ overflows ∧ ((∃ message, outcome = protocolFailure message) ∨
      ∃ next, outcome = .ok next ∧ start.toInt < next.toInt ∧ next.toInt ≤ data.data.length)

/-- Skipping a fixed-width field adds its width to the offset. -/
theorem skipFixed_skipsWithin {data : Bytes} {start width : Int32} {message : String}
    (hstart : 0 ≤ start.toInt) (hwidth : 0 < width.toInt) :
    SkipsWithin data start (2 ^ 31 ≤ start.toInt + width.toInt)
      (skipFixed data start width message) := by
  have hbounds : start + width ≤ data.length ↔ (start + width).toInt ≤ data.data.length := by
    rw [Int32.le_iff_toInt_le, Bytes.toInt_length]
  by_cases hlarge : 2 ^ 31 ≤ start.toInt + width.toInt
  · have hneg : (start + width).toInt < 0 := toInt_add_of_le (by omega) hlarge
    exact .inl ⟨hlarge, .inr ⟨start + width, if_pos (hbounds.mpr (by omega)), hneg⟩⟩
  · have hexact : (start + width).toInt = start.toInt + width.toInt :=
      toInt_add_of_lt hstart (by omega) (by omega)
    refine .inr ⟨hlarge, ?_⟩
    by_cases hbound : start + width ≤ data.length
    · exact .inr ⟨start + width, if_pos hbound, by omega, hbounds.mp hbound⟩
    · exact .inl ⟨message, if_neg hbound⟩

/-- `skip_field` over every wire type. -/
theorem skipField_skipsWithin {data : Bytes} {start wire : Int32} (hstart : 0 ≤ start.toInt) :
    SkipsWithin data start (FieldOverflows data start wire) (skipField data start wire) := by
  have hlength := data.length_lt
  by_cases h0 : wire = 0
  · subst h0
    have hend : fieldEnd data start 0 = (readVarint data start).toOption.map (·.2.toInt) := rfl
    have hskip : skipField data start 0 = (readVarint data start).map (·.2) := rfl
    rcases readVarint_cases data hstart with ⟨message, hfail⟩ | ⟨value, next, hok, hlt, hle⟩
    · refine .inr ⟨not_fieldOverflows_of_none ?_, .inl ⟨message, ?_⟩⟩
      · rw [hend, hfail]
        rfl
      · rw [hskip, hfail]
        rfl
    · rw [hok] at hend hskip
      refine .inr ⟨fun h => ?_, .inr ⟨next, hskip, hlt, hle⟩⟩
      have hlarge : 2 ^ 31 ≤ next.toInt := (fieldOverflows_iff hend).mp h
      omega
  by_cases h1 : wire = 1
  · subst h1
    have hend : fieldEnd data start 1 = some (start.toInt + (8 : Int32).toInt) := rfl
    rw [fieldOverflows_iff hend]
    exact skipFixed_skipsWithin hstart (by decide)
  by_cases h2 : wire = 2
  · subst h2
    have hskip : skipField data start 2 = (readBytes data start).map (·.2) := rfl
    rw [hskip]
    rcases readBytes_cases data hstart with
      ⟨hover, hfail⟩ | ⟨hfit, ⟨message, hfail⟩ | ⟨payload, next, hok, hlt, hle⟩⟩
    · exact .inl ⟨hover, .inl (by rw [hfail]; rfl)⟩
    · exact .inr ⟨hfit, .inl ⟨message, by rw [hfail]; rfl⟩⟩
    · exact .inr ⟨hfit, .inr ⟨next, by rw [hok]; rfl, hlt, hle⟩⟩
  by_cases h5 : wire = 5
  · subst h5
    have hend : fieldEnd data start 5 = some (start.toInt + (4 : Int32).toInt) := rfl
    rw [fieldOverflows_iff hend]
    exact skipFixed_skipsWithin hstart (by decide)
  · refine .inr ⟨not_fieldOverflows_of_none ?_,
      .inl ⟨"unsupported protobuf wire type " ++ toString wire, ?_⟩⟩
    · simp [fieldEnd, h0, h1, h2, h5]
    · simp only [skipField, h0, h1, h2, h5, if_false]

/-! ## The loops -/

namespace FieldLoop

variable {σ ρ : Type}

/-- A loop settles when each nested message it opens does, and when nothing goes
wrong at the end of the message. -/
structure Settles (loop : FieldLoop σ ρ) (nested : Int32 → Bytes → Prop) : Prop where
  /-- Every nested message aborts exactly when it overflows. -/
  bytes {field : Int32} {act : σ → Bytes → Except Fault (Control σ ρ)}
    (hown : loop.bytes field = some act) (state : σ) (payload : Bytes) :
    AbortsIff (nested field payload) (act state payload)
  /-- The end of the message returns or raises. -/
  finish (state : σ) : ReturnsOrRaises (loop.finish state)

/-- How reading one field ends: it raises, it returns from the loop, or it goes
on at a later offset inside the byte string. -/
def ReadsWithin (data : Bytes) (start : Int32)
    (outcome : Except Fault (Control σ ρ × Int32)) : Prop :=
  (∃ message, outcome = protocolFailure message) ∨
    (∃ result next, outcome = .ok (.done result, next)) ∨
    ∃ state next, outcome = .ok (.next state, next) ∧
      start.toInt < next.toInt ∧ next.toInt ≤ data.data.length

/-- Whatever a loop does with the field it just read, it goes on after it. -/
private theorem readsWithin_of_control {data : Bytes} {start next : Int32}
    (control : Control σ ρ) (hlt : start.toInt < next.toInt)
    (hle : next.toInt ≤ data.data.length) :
    ReadsWithin data start (.ok (control, next)) := by
  cases control with
  | next state => exact .inr (.inr ⟨state, next, rfl, hlt, hle⟩)
  | done result => exact .inr (.inl ⟨result, next, rfl⟩)

/-- Skipping a field that fits goes on after it. -/
private theorem readsWithin_of_skip {data : Bytes} {start : Int32} (state : σ) {overflows : Prop}
    {outcome : Except Fault Int32} (hskip : SkipsWithin data start overflows outcome)
    (hfit : ¬ overflows) :
    ReadsWithin data start
      (outcome.map (Control.next state, ·) : Except Fault (Control σ ρ × Int32)) := by
  rcases hskip with ⟨hover, _⟩ | ⟨_, ⟨message, rfl⟩ | ⟨next, rfl, hlt, hle⟩⟩
  · exact absurd hover hfit
  · exact .inl ⟨message, rfl⟩
  · exact .inr (.inr ⟨state, next, rfl, hlt, hle⟩)

/-- Skipping a field that overflows aborts or leaves a negative offset. -/
private theorem skip_of_overflow {data : Bytes} {start : Int32} (state : σ) {overflows : Prop}
    {outcome : Except Fault Int32} (hskip : SkipsWithin data start overflows outcome)
    (hover : overflows) :
    (outcome.map (Control.next state, ·) : Except Fault (Control σ ρ × Int32)) =
        .error .outOfBounds ∨
      ∃ next, (outcome.map (Control.next state, ·) : Except Fault (Control σ ρ × Int32)) =
        .ok (.next state, next) ∧ next.toInt < 0 := by
  rcases hskip with ⟨_, rfl | ⟨next, rfl, hneg⟩⟩ | ⟨hfit, _⟩
  · exact .inl rfl
  · exact .inr ⟨next, rfl, hneg⟩
  · exact absurd hover hfit

/-- Reading a field that overflows aborts, or goes on at a negative offset. -/
theorem readField_of_overflow (loop : FieldLoop σ ρ) {data : Bytes} (state : σ)
    (field : Int32) {wire start : Int32} (hstart : 0 ≤ start.toInt)
    (hover : FieldOverflows data start wire) :
    loop.readField data state field wire start = .error .outOfBounds ∨
      ∃ next, loop.readField data state field wire start = .ok (.next state, next) ∧
        next.toInt < 0 := by
  have hskip : SkipsWithin data start _ (skipField data start wire) :=
    skipField_skipsWithin hstart
  unfold readField
  split
  case h_1 act hown =>
    -- A varint ends inside the byte string, so it does not overflow.
    have hwire : wire = 0 := by by_contra h; simp [h] at hown
    subst hwire
    have hvarint : skipField data start 0 = (readVarint data start).map (·.2) := rfl
    rcases readVarint_cases data hstart with ⟨message, hfail⟩ | ⟨value, next, hok, hlt, hle⟩
    · rcases hskip with ⟨_, h | ⟨next, h, _⟩⟩ | ⟨hfit, _⟩
      · rw [hvarint, hfail] at h; cases h
      · rw [hvarint, hfail] at h; cases h
      · exact absurd hover hfit
    · rcases hskip with ⟨_, h | ⟨next', h, hneg⟩⟩ | ⟨hfit, _⟩
      · rw [hvarint, hok] at h; cases h
      · rw [hvarint, hok] at h
        cases h
        have hneg' : next.toInt < 0 := hneg
        omega
      · exact absurd hover hfit
  case h_2 =>
    split
    case h_1 act hown =>
      have hwire : wire = 2 := by by_contra h; simp [h] at hown
      subst hwire
      rcases readBytes_cases data hstart with ⟨_, hfail⟩ | ⟨hfit, _⟩
      · exact .inl (by rw [hfail]; rfl)
      · exact absurd hover hfit
    case h_2 => exact skip_of_overflow state hskip hover

/-- Reading a field that fits stays inside the byte string, unless the field is
a nested message with an overflowing field of its own. -/
theorem readField_of_fit {loop : FieldLoop σ ρ} {nested : Int32 → Bytes → Prop}
    (hloop : loop.Settles nested) {data : Bytes} (state : σ) (field : Int32)
    {wire start : Int32} (hstart : 0 ≤ start.toInt) (hfit : ¬ FieldOverflows data start wire) :
    (loop.Opens nested data field wire start ∧
        loop.readField data state field wire start = .error .outOfBounds) ∨
      ¬ loop.Opens nested data field wire start ∧
        ReadsWithin data start (loop.readField data state field wire start) := by
  unfold readField
  split
  case h_1 act hown =>
    have hwire : wire = 0 := by by_contra h; simp [h] at hown
    subst hwire
    refine .inr ⟨fun ⟨_, _, h, _⟩ => absurd h (by decide), ?_⟩
    rcases readVarint_cases data hstart with ⟨message, hfail⟩ | ⟨value, next, hok, hlt, hle⟩
    · exact .inl ⟨message, by rw [hfail]; rfl⟩
    · rw [hok]
      exact readsWithin_of_control (act state value) hlt hle
  case h_2 =>
    split
    case h_1 act hown =>
      have hwire : wire = 2 := by by_contra h; simp [h] at hown
      subst hwire
      have hown' : loop.bytes field = some act := hown
      rcases readBytes_cases data hstart with
        ⟨hover, _⟩ | ⟨_, ⟨message, hfail⟩ | ⟨payload, next, hok, hlt, hle⟩⟩
      · exact absurd hover hfit
      · refine .inr ⟨?_, .inl ⟨message, by rw [hfail]; rfl⟩⟩
        rintro ⟨payload, next, _, _, hok, _⟩
        rw [hfail] at hok
        cases hok
      · have hopens : loop.Opens nested data field 2 start ↔ nested field payload := by
          constructor
          · rintro ⟨payload', next', _, _, hok', hnested⟩
            rw [hok] at hok'
            cases hok'
            exact hnested
          · intro hnested
            exact ⟨payload, next, rfl, by rw [hown']; rfl, hok, hnested⟩
        rw [hopens, hok]
        rcases hloop.bytes hown' state payload with
          ⟨hnested, habort⟩ | ⟨hnested, ⟨control, hact⟩ | ⟨message, hact⟩⟩
        · exact .inl ⟨hnested, by simp [bind, Except.bind, habort, Except.map]⟩
        · refine .inr ⟨hnested, ?_⟩
          simp only [bind, Except.bind, hact, Except.map]
          exact readsWithin_of_control control hlt hle
        · refine .inr ⟨hnested, .inl ⟨message, ?_⟩⟩
          simp [bind, Except.bind, hact, Except.map, protocolFailure]
    case h_2 hnone =>
      refine .inr ⟨?_, readsWithin_of_skip state (skipField_skipsWithin hstart) hfit⟩
      rintro ⟨payload, next, rfl, hown, _⟩
      have hnone' : loop.bytes field = none := hnone
      rw [hnone'] at hown
      cases hown

/-- Past the end of the message no field is left to overflow. -/
theorem not_overflows_of_le {loop : FieldLoop σ ρ} {nested : Int32 → Bytes → Prop} {data : Bytes}
    {state : σ} {index : Int32} (hindex : ¬ index < data.length) :
    ¬ loop.Overflows nested data state index := by
  intro h
  cases h <;> exact hindex ‹_›

/-- A scan at a negative offset aborts at once. -/
theorem scan_of_neg (loop : FieldLoop σ ρ) {data : Bytes} {rounds : ℕ} (state : σ)
    {index : Int32} (hindex : index.toInt < 0) (hrounds : 0 < rounds) :
    loop.scan data rounds state index = .error .outOfBounds := by
  obtain ⟨rounds, rfl⟩ : ∃ n, rounds = n + 1 := ⟨rounds - 1, by omega⟩
  have hlt : index < data.length := by
    rw [Int32.lt_iff_toInt_lt, Bytes.toInt_length]
    omega
  rw [scan, if_pos hlt, readVarint_of_neg hindex]
  rfl

/-- A scan at an offset of the message aborts exactly when it reaches a field
that overflows. -/
theorem scan_abortsIff {loop : FieldLoop σ ρ} {nested : Int32 → Bytes → Prop}
    (hloop : loop.Settles nested) {data : Bytes} {rounds : ℕ} {state : σ} {index : Int32}
    (hindex : 0 ≤ index.toInt) (hle : index.toInt ≤ data.data.length)
    (hrounds : data.data.length - index.toInt < rounds) :
    AbortsIff (loop.Overflows nested data state index) (loop.scan data rounds state index) := by
  induction rounds generalizing state index with
  | zero => omega
  | succ rounds ih =>
    rw [scan]
    split
    case isFalse hend => exact .inr ⟨not_overflows_of_le hend, hloop.finish state⟩
    case isTrue hlt =>
    have hlt' := Int32.lt_iff_toInt_lt.mp hlt
    rw [Bytes.toInt_length] at hlt'
    rcases readVarint_cases data hindex with ⟨message, hkey⟩ | ⟨key, afterKey, hkey, hafter, hle'⟩
    · refine .inr ⟨fun h => ?_, .inr ⟨message, by rw [hkey]; rfl⟩⟩
      cases h <;> simp_all [protocolFailure]
    have hstart : 0 ≤ afterKey.toInt := by omega
    simp only [hkey, bind, Except.bind]
    by_cases hover : FieldOverflows data afterKey (key &&& 7)
    · refine .inl ⟨.here hlt hkey hover, ?_⟩
      rcases loop.readField_of_overflow state (key >>> 3) hstart hover with
        hread | ⟨next, hread, hneg⟩
      · rw [hread]
      · rw [hread]
        exact scan_of_neg loop state hneg (by omega)
    have hinv : loop.Overflows nested data state index ↔
        loop.Opens nested data (key >>> 3) (key &&& 7) afterKey ∨
          ∃ state' index', loop.readField data state (key >>> 3) (key &&& 7) afterKey =
            .ok (.next state', index') ∧ loop.Overflows nested data state' index' := by
      constructor
      · rintro (⟨_, hkey', hfield⟩ | ⟨_, hkey', hopens⟩ | ⟨_, hkey', _, hread, hlater⟩)
        all_goals
          rw [hkey] at hkey'
          cases hkey'
        · exact absurd hfield hover
        · exact .inl hopens
        · exact .inr ⟨_, _, hread, hlater⟩
      · rintro (hopens | ⟨state', index', hread, hlater⟩)
        · exact .inside hlt hkey hopens
        · exact .later hlt hkey hover hread hlater
    rw [hinv]
    rcases readField_of_fit hloop state (key >>> 3) hstart hover with
      ⟨hopens, hread⟩ | ⟨hopens, ⟨message, hread⟩ | ⟨result, next, hread⟩ |
        ⟨state', next, hread, hlt'', hle''⟩⟩
    · exact .inl ⟨.inl hopens, by rw [hread]⟩
    · refine .inr ⟨?_, .inr ⟨message, by rw [hread]; rfl⟩⟩
      simp [hopens, hread, protocolFailure]
    · refine .inr ⟨?_, .inl ⟨result, by rw [hread]⟩⟩
      simp [hopens, hread]
    · have hrest := @ih state' next (by omega) hle'' (by omega)
      simpa [hread, hopens, and_assoc] using hrest

/-- A whole run aborts exactly when the message has, on the way the loop takes
through it, a field that overflows. -/
theorem run_abortsIff {loop : FieldLoop σ ρ} {nested : Int32 → Bytes → Prop}
    (hloop : loop.Settles nested) (data : Bytes) (state : σ) :
    AbortsIff (loop.Overflows nested data state 0) (loop.run data state) :=
  scan_abortsIff hloop (by decide) (by simp) (by simp)

end FieldLoop

end Moonfort.AenBackend
