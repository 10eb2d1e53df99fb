import Moonfort.Crc
import Moonfort.MoonBit.Crypto
import Moonfort.Zip

/-!
# The ZIP writer of retention bundles

`bundle_crc32` and `bundle_zip`: the check is the one of the polynomial of CRC-32,
and the archive is read back member by member.
-/

namespace Moonfort.Executor

open Fields MoonBit Polynomial

/-! ## CRC-32 -/

/-- The step for one bit in `bundle_crc32`. -/
def bundleCrcBit (crc : UInt32) : UInt32 :=
  if crc &&& 1 = 1 then (crc >>> 1) ^^^ 0xedb88320 else crc >>> 1

/-- The step for one byte in `bundle_crc32`. -/
def bundleCrcByte (crc : UInt32) (byte : UInt8) : UInt32 :=
  bundleCrcBit^[8] (crc ^^^ byte.toUInt32)

/-- `bundle_crc32`. -/
def bundleCrc32 (bytes : List UInt8) : UInt32 :=
  bytes.foldl bundleCrcByte 0xffffffff ^^^ 0xffffffff

/-- The generator of CRC-32. -/
noncomputable def crc32Generator : (ZMod 2)[X] :=
  X ^ 32 + X ^ 26 + X ^ 23 + X ^ 22 + X ^ 16 + X ^ 12 + X ^ 11 + X ^ 10 + X ^ 8 + X ^ 7 + X ^ 5 +
    X ^ 4 + X ^ 2 + X + 1

/-- The polynomial with all coefficients below `X ^ 32`. -/
noncomputable def crc32Ones : (ZMod 2)[X] := ∑ i ∈ Finset.range 32, X ^ i

/-- The CRC-32 of a content: the remainder behind 32 ones, complemented. -/
noncomputable def crc32Polynomial (content : List UInt8) : (ZMod 2)[X] :=
  (X ^ (8 * content.length) * crc32Ones +
      Crc.messagePolynomial (content.map UInt8.toBitVec) * X ^ 32) %ₘ crc32Generator + crc32Ones

/-- The reflected word of the loop holds the generator. -/
theorem generator_bundleCrc : Crc.generator 0xedb88320#32 = crc32Generator := by
  rw [Crc.generator, Crc.register, crc32Generator]
  simp only [Finset.sum_range_succ, Finset.sum_range_zero]
  simp [Crc.coefficient]
  ring

/-- The register of all ones is the polynomial the checksum starts with. -/
theorem register_allOnes : Crc.register (BitVec.allOnes 32) = crc32Ones := by
  have hterm : ∀ i ∈ Finset.range 32, C (Crc.coefficient ((BitVec.allOnes 32).getLsbD i)) *
      X ^ (32 - 1 - i) = (X ^ (32 - 1 - i) : (ZMod 2)[X]) := by
    intro i hi
    rw [BitVec.getLsbD_allOnes, decide_eq_true (Finset.mem_range.mp hi), Crc.coefficient,
      if_pos rfl, C_1, one_mul]
  rw [Crc.register, Finset.sum_congr rfl hterm, crc32Ones, Finset.sum_range_reflect]

/-- One bit of the source's checksum is a step of the division. -/
theorem toBitVec_bundleCrcBit (crc : UInt32) :
    (bundleCrcBit crc).toBitVec = Crc.stepBit 0xedb88320#32 crc.toBitVec := by
  have hlow : crc &&& 1 = 1 ↔ crc.toBitVec.getLsbD 0 = true := by
    have hbit : crc.toBitVec &&& 1#32 = (BitVec.ofBool (crc.toBitVec.getLsbD 0)).setWidth 32 :=
      BitVec.and_one_eq_setWidth_ofBool_getLsbD
    rw [← UInt32.toBitVec_inj, UInt32.toBitVec_and, UInt32.toBitVec_one, hbit]
    cases crc.toBitVec.getLsbD 0 <;> decide
  have hshift : (crc >>> 1).toBitVec = crc.toBitVec >>> 1 := rfl
  unfold bundleCrcBit Crc.stepBit
  by_cases hset : crc.toBitVec.getLsbD 0 = true
  · rw [if_pos (hlow.mpr hset), if_pos hset, UInt32.toBitVec_xor, hshift]
    rfl
  · rw [if_neg (mt hlow.mp hset), if_neg hset, hshift]

/-- One byte of the source's checksum is eight steps of the division. -/
theorem toBitVec_bundleCrcByte (crc : UInt32) (byte : UInt8) :
    (bundleCrcByte crc byte).toBitVec =
      Crc.stepByte 0xedb88320#32 crc.toBitVec byte.toBitVec := by
  have hiterate : ∀ (n : ℕ) (c : UInt32), (bundleCrcBit^[n] c).toBitVec =
      (Crc.stepBit 0xedb88320#32)^[n] c.toBitVec := by
    intro n
    induction n with
    | zero => exact fun _ => rfl
    | succ n ih =>
      intro c
      rw [Function.iterate_succ_apply, Function.iterate_succ_apply, ih, toBitVec_bundleCrcBit]
  rw [bundleCrcByte, hiterate, Crc.stepByte, UInt32.toBitVec_xor]
  rfl

/-- `bundle_crc32` is the CRC-32 of the content. -/
theorem register_bundleCrc32 (content : List UInt8) :
    Crc.register (bundleCrc32 content).toBitVec = crc32Polynomial content := by
  have hfold : ∀ c : UInt32, (content.foldl bundleCrcByte c).toBitVec =
      (content.map UInt8.toBitVec).foldl (Crc.stepByte 0xedb88320#32) c.toBitVec := by
    induction content with
    | nil => exact fun _ => rfl
    | cons byte content ih =>
      intro c
      rw [List.foldl_cons, List.map_cons, List.foldl_cons, ih, toBitVec_bundleCrcByte]
  have hones : (0xffffffff : UInt32).toBitVec = BitVec.allOnes 32 := by decide
  rw [bundleCrc32, UInt32.toBitVec_xor, hfold, hones, Crc.register_not_foldl (by decide), Crc.check,
    generator_bundleCrc, register_allOnes, List.length_map, crc32Polynomial]

/-! ## The archive -/

/-- The loop of `bundle_zip`, with the output and the central directory so far. -/
def bundleZipLoop : List (String × List UInt8) → List UInt8 → List UInt8 →
    List UInt8 × List UInt8
  | [], output, central => (output, central)
  | (path, bytes) :: rest, output, central =>
    let name := utf8Encode path
    let crc := (bundleCrc32 bytes).toNat
    let offset := output.length
    bundleZipLoop rest
      (output ++ writeFields [(4, 0x04034b50), (2, 20), (2, 0x0800), (2, 0), (2, 0), (2, 33),
        (4, crc), (4, bytes.length), (4, bytes.length), (2, name.length), (2, 0)] ++ name ++ bytes)
      (central ++ writeFields [(4, 0x02014b50), (2, 0x0314), (2, 20), (2, 0x0800), (2, 0), (2, 0),
        (2, 33), (4, crc), (4, bytes.length), (4, bytes.length), (2, name.length), (2, 0), (2, 0),
        (2, 0), (2, 0), (4, 0), (4, offset)] ++ name)

/-- `bundle_zip`. -/
def bundleZip (entries : List (String × List UInt8)) : List UInt8 :=
  let (output, central) := bundleZipLoop entries [] []
  output ++ central ++ writeFields [(4, 0x06054b50), (2, 0), (2, 0), (2, entries.length),
    (2, entries.length), (4, central.length), (4, output.length), (2, 0)]

/-- The header values that `bundle_zip` writes for every entry. -/
def bundleStamp : Zip.Stamp := ⟨0x0314, 20, 0x0800, 0, 33⟩

/-- An entry as it is stored. -/
def bundleStored (entry : String × List UInt8) : Zip.Stored :=
  ⟨utf8Encode entry.1, entry.2, (bundleCrc32 entry.2).toNat⟩

/-- The loop writes the local parts and collects the central directory. -/
theorem bundleZipLoop_eq (entries : List (String × List UInt8)) (output central : List UInt8) :
    bundleZipLoop entries output central =
      (output ++ Zip.localParts bundleStamp (entries.map bundleStored),
        central ++ Zip.centralParts bundleStamp output.length (entries.map bundleStored)) := by
  induction entries generalizing output central with
  | nil =>
    rw [List.map_nil, Zip.centralParts, List.append_nil]
    exact congrArg (·, central) (List.append_nil output).symm
  | cons entry entries ih =>
    rw [List.map_cons, Zip.localParts_cons, Zip.centralParts, ← List.append_assoc,
      ← List.append_assoc, ← List.length_append]
    have hlocal : output ++ Zip.localPart bundleStamp (bundleStored entry) =
        output ++ writeFields (Zip.localFields bundleStamp (bundleStored entry)) ++
          utf8Encode entry.1 ++ entry.2 := by
      rw [Zip.localPart, ← List.append_assoc, ← List.append_assoc]
      rfl
    have hcentral : central ++ Zip.centralPart bundleStamp output.length (bundleStored entry) =
        central ++ writeFields (Zip.centralFields bundleStamp output.length (bundleStored entry)) ++
          utf8Encode entry.1 := by
      rw [Zip.centralPart, ← List.append_assoc]
      rfl
    rw [hlocal, hcentral, ← ih]
    rfl

/-- What `bundle_zip` writes is the archive of its entries. -/
theorem bundleZip_eq (entries : List (String × List UInt8)) :
    bundleZip entries = Zip.archive bundleStamp (entries.map bundleStored) := by
  rw [bundleZip, bundleZipLoop_eq]
  dsimp only
  rw [List.nil_append, List.nil_append, List.length_nil, Zip.archive, List.length_map,
    Zip.endFields]

/-- The bundle's time stamp fits into its fields. -/
theorem bundleStamp_fits : bundleStamp.Fits := by
  constructor <;> decide

end Moonfort.Executor
