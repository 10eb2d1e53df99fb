import Moonfort.MoonBit.Json
import Mathlib.Data.List.Nodup

/-!
# Digests and authentication tags

Hexadecimal text for bytes, the UTF-8 bytes of a string, and the two hash
functions of the program as parameters: nothing here depends on how SHA-256 or
HMAC compute their answers.
-/

namespace Moonfort.MoonBit

/-- `@utf8.encode`. -/
def utf8Encode (s : String) : List UInt8 := s.toList.flatMap String.utf8EncodeChar

/-- The encoding of two texts is that of both. -/
theorem utf8Encode_append (s t : String) : utf8Encode (s ++ t) = utf8Encode s ++ utf8Encode t := by
  rw [utf8Encode, String.toList_append, List.flatMap_append, utf8Encode, utf8Encode]

/-- The program's count of UTF-8 bytes is the length of the encoding. -/
theorem length_utf8Encode (s : String) : (utf8Encode s).length = utf8Length s := by
  rw [utf8Encode, List.length_flatMap, utf8Length]
  simp only [String.length_utf8EncodeChar]

/-- The UTF-8 bytes of a string determine it. -/
theorem utf8Encode_inj {s t : String} (h : utf8Encode s = utf8Encode t) : s = t := by
  have hbytes : s.toList.utf8Encode = t.toList.utf8Encode := by
    rw [List.utf8Encode, List.utf8Encode]
    exact congrArg List.toByteArray h
  have hs : s.toList.utf8Encode = s.toByteArray := by
    rw [← String.toByteArray_ofList, String.ofList_toList]
  have ht : t.toList.utf8Encode = t.toByteArray := by
    rw [← String.toByteArray_ofList, String.ofList_toList]
  rw [hs, ht] at hbytes
  exact String.toByteArray_inj.mp hbytes

/-- The two hexadecimal digits of a byte. -/
def hexPair (byte : UInt8) : List Char :=
  [Nat.digitChar (byte.toNat / 16), Nat.digitChar (byte.toNat % 16)]

/-- `@crypto.bytes_to_hex_string`. -/
def bytesToHexString (bytes : List UInt8) : String := String.ofList (bytes.flatMap hexPair)

/-- The digits of a byte determine it. -/
theorem hexPair_inj {a b : UInt8} (h : hexPair a = hexPair b) : a = b := by
  have ha := a.toNat_lt
  have hb := b.toNat_lt
  simp only [hexPair, List.cons.injEq, and_true] at h
  have hhigh := digitChar_inj _ (by omega) _ (by omega) h.1
  have hlow := digitChar_inj _ (by omega) _ (by omega) h.2
  apply UInt8.toNat_inj.mp
  omega

/-- The hexadecimal text of bytes determines them. -/
theorem bytesToHexString_inj {a b : List UInt8} (h : bytesToHexString a = bytesToHexString b) :
    a = b := by
  have hchars : a.flatMap hexPair = b.flatMap hexPair := String.ofList_injective h
  clear h
  induction a generalizing b with
  | nil =>
    cases b with
    | nil => rfl
    | cons y b => simp [hexPair] at hchars
  | cons x a ih =>
    cases b with
    | nil => simp [hexPair] at hchars
    | cons y b =>
      rw [List.flatMap_cons, List.flatMap_cons] at hchars
      have hsplit := List.append_inj hchars rfl
      rw [hexPair_inj hsplit.1, ih hsplit.2]

/-- The hash functions that the program calls. -/
structure Crypto where
  /-- `@crypto.sha256`. -/
  sha256 : List UInt8 → List UInt8
  /-- `@crypto.hmac` over SHA-256, of a key and a message. -/
  hmac : List UInt8 → List UInt8 → List UInt8

namespace Crypto

/-- The SHA-256 of bytes in hexadecimal. -/
def digest (crypto : Crypto) (bytes : List UInt8) : String := bytesToHexString (crypto.sha256 bytes)

/-- The SHA-256 of a text in hexadecimal. -/
def digestText (crypto : Crypto) (text : String) : String := crypto.digest (utf8Encode text)

/-- The authentication tag of a text in hexadecimal. -/
def tag (crypto : Crypto) (key text : String) : String :=
  bytesToHexString (crypto.hmac (utf8Encode key) (utf8Encode text))

/-- The hash functions answer 32 bytes. -/
structure Sized (crypto : Crypto) : Prop where
  sha256 : ∀ bytes, (crypto.sha256 bytes).length = 32
  hmac : ∀ key message, (crypto.hmac key message).length = 32

/-- The hash functions without collisions. -/
structure Ideal (crypto : Crypto) : Prop where
  sha256 : Function.Injective crypto.sha256
  hmac : ∀ key, Function.Injective (crypto.hmac key)

/-- Without collisions a digest determines its bytes. -/
theorem Ideal.digest_inj {crypto : Crypto} (h : crypto.Ideal) {a b : List UInt8}
    (heq : crypto.digest a = crypto.digest b) : a = b :=
  h.sha256 (bytesToHexString_inj heq)

/-- Without collisions a digest determines its text. -/
theorem Ideal.digestText_inj {crypto : Crypto} (h : crypto.Ideal) {a b : String}
    (heq : crypto.digestText a = crypto.digestText b) : a = b :=
  utf8Encode_inj (h.digest_inj heq)

/-- Without collisions a tag determines its text. -/
theorem Ideal.tag_inj {crypto : Crypto} (h : crypto.Ideal) {key a b : String}
    (heq : crypto.tag key a = crypto.tag key b) : a = b :=
  utf8Encode_inj (h.hmac _ (bytesToHexString_inj heq))

/-- A function that answers from a table, and elsewhere with its argument behind
33 bytes. -/
def tabled (table : List (List UInt8 × List UInt8)) (bytes : List UInt8) : List UInt8 :=
  (table.lookup bytes).getD (List.replicate 33 0 ++ bytes)

/-- The first entry of the table is found. -/
theorem tabled_head (bytes answer : List UInt8) (table : List (List UInt8 × List UInt8)) :
    tabled ((bytes, answer) :: table) bytes = answer := by
  rw [tabled, List.lookup_cons_self, Option.getD_some]

/-- Another entry is found behind the first one. -/
theorem tabled_cons_of_ne {bytes other : List UInt8} (h : bytes ≠ other) (answer : List UInt8)
    (table : List (List UInt8 × List UInt8)) :
    tabled ((other, answer) :: table) bytes = tabled table bytes := by
  rw [tabled, tabled, List.lookup_cons, beq_eq_false_iff_ne.mpr h]

/-- With distinct answers of 32 bytes such a function has no collisions. -/
theorem tabled_injective {table : List (List UInt8 × List UInt8)}
    (hlength : ∀ entry ∈ table, entry.2.length = 32) (hnodup : (table.map Prod.snd).Nodup) :
    Function.Injective (tabled table) := by
  have hmem : ∀ {bytes answer}, table.lookup bytes = some answer → (bytes, answer) ∈ table := by
    intro bytes answer h
    obtain ⟨before, after, heq, -⟩ := List.lookup_eq_some_iff.mp h
    rw [heq]
    exact List.mem_append_right _ List.mem_cons_self
  intro a b hab
  unfold tabled at hab
  cases ha : table.lookup a with
  | none =>
    cases hb : table.lookup b with
    | none =>
      rw [ha, hb, Option.getD_none, Option.getD_none] at hab
      exact List.append_cancel_left hab
    | some y =>
      rw [ha, hb, Option.getD_none, Option.getD_some] at hab
      have hy := hlength _ (hmem hb)
      rw [← hab, List.length_append, List.length_replicate] at hy
      omega
  | some x =>
    cases hb : table.lookup b with
    | none =>
      rw [ha, hb, Option.getD_none, Option.getD_some] at hab
      have hx := hlength _ (hmem ha)
      rw [hab, List.length_append, List.length_replicate] at hx
      omega
    | some y =>
      rw [ha, hb, Option.getD_some, Option.getD_some] at hab
      have hentry := List.inj_on_of_nodup_map hnodup (hmem ha) (hmem hb) hab
      exact congrArg Prod.fst hentry

end Crypto

end Moonfort.MoonBit
