import LedgerBench.Text.Bytes
import Mathlib.Logic.ExistsUnique
/-!
Texts as bytes, and checksums of bytes.

The checksum takes one byte after the other into 64 bits. Each step can be undone where the byte is
known, and tells two bytes apart where the bits before it are known, so a single byte that was
changed shows in the end, whatever follows it. What is proved:
  1. `ofText_injective`: texts are told apart by their bytes.
  2. `fnvStep_left_inj`, `fnvStep_right_inj`: a step is injective in the bits before it and in its
     byte.
  3. `fnv1a_ne_of_differsOnce`: so byte strings that differ in exactly one byte have different
     checksums.
-/

namespace LedgerBench.Bytes

/-! ## The bytes of a text -/

theorem toList_loop_eq (bytes : ByteArray) (i : Nat) (seen : List UInt8) :
    ByteArray.toList.loop bytes i seen = seen.reverse ++ bytes.data.toList.drop i := by
  induction i, seen using ByteArray.toList.loop.induct bytes with
  | case1 i seen hlt ih =>
    have hi : i < bytes.data.toList.length := hlt
    have hbyte : bytes.get! i = bytes.data.toList[i] := getElem!_pos bytes.data i hlt
    rw [ByteArray.toList.loop, if_pos hlt, ih, List.drop_eq_getElem_cons hi, hbyte,
      List.reverse_cons, List.append_assoc]
    rfl
  | case2 i seen hge =>
    have hdrop : bytes.data.toList.drop i = [] := List.drop_eq_nil_of_le (Nat.le_of_not_lt hge)
    rw [ByteArray.toList.loop, if_neg hge, hdrop, List.append_nil]

theorem toList_injective {a b : ByteArray} (h : a.toList = b.toList) : a = b := by
  have hdata : ∀ bytes : ByteArray, bytes.toList = bytes.data.toList :=
    fun bytes => toList_loop_eq bytes 0 []
  rw [hdata, hdata] at h
  exact ByteArray.ext (Array.toList_inj.mp h)

/-- Texts are told apart by their bytes. -/
theorem ofText_injective {s t : String} (h : ofText s = ofText t) : s = t :=
  String.toByteArray_inj.mp (toList_injective h)

/-! ## The checksum -/

/-- The inverse of the prime that a step multiplies by, modulo `2^64`. -/
def fnvInverse : UInt64 := 0xce965057aff6957b

/-- A step multiplies by an odd number, which can be undone. -/
theorem fnvStep_mul_inverse (hash : UInt64) (byte : UInt8) :
    fnvStep hash byte * fnvInverse = hash ^^^ byte.toUInt64 := by
  have hinverse : (0x100000001b3 : UInt64) * fnvInverse = 1 := by decide
  rw [fnvStep, UInt64.mul_assoc, hinverse, UInt64.mul_one]

theorem fnvStep_left_inj {hash other : UInt64} {byte : UInt8} :
    fnvStep hash byte = fnvStep other byte ↔ hash = other := by
  constructor
  · intro h
    have hmixed : hash ^^^ byte.toUInt64 = other ^^^ byte.toUInt64 := by
      rw [← fnvStep_mul_inverse, h, fnvStep_mul_inverse]
    exact (UInt64.xor_left_inj _).mp hmixed
  · rintro rfl
    rfl

theorem fnvStep_right_inj {hash : UInt64} {byte other : UInt8} :
    fnvStep hash byte = fnvStep hash other ↔ byte = other := by
  constructor
  · intro h
    have hmixed : hash ^^^ byte.toUInt64 = hash ^^^ other.toUInt64 := by
      rw [← fnvStep_mul_inverse, h, fnvStep_mul_inverse]
    exact UInt8.toUInt64_inj.mp ((UInt64.xor_right_inj _).mp hmixed)
  · rintro rfl
    rfl

/-- Different bits stay different, whatever bytes follow. -/
theorem foldl_fnvStep_inj (bytes : Bytes) {hash other : UInt64} :
    bytes.foldl fnvStep hash = bytes.foldl fnvStep other ↔ hash = other := by
  induction bytes generalizing hash other with
  | nil => rfl
  | cons byte rest ih => rw [List.foldl_cons, List.foldl_cons, ih, fnvStep_left_inj]

/-- Byte strings of one length that are the same but for exactly one byte. -/
structure DiffersOnce (bytes other : Bytes) : Prop where
  length : other.length = bytes.length
  once : ∃! i : Nat, bytes[i]? ≠ other[i]?

/-- What stands around the byte that differs. -/
theorem DiffersOnce.exists_parts {bytes other : Bytes} (h : DiffersOnce bytes other) :
    ∃ before x y after, x ≠ y ∧ bytes = before ++ x :: after ∧ other = before ++ y :: after := by
  obtain ⟨hlength, i, hi, hunique⟩ := h
  have hlt : i < bytes.length := by
    refine Nat.lt_of_not_le fun hge => hi ?_
    rw [List.getElem?_eq_none hge, List.getElem?_eq_none (hlength ▸ hge)]
  have hlt' : i < other.length := hlength ▸ hlt
  have hset : other = bytes.set i other[i] := by
    refine List.ext_getElem? fun j => ?_
    by_cases hj : j = i
    · rw [hj, List.getElem?_set_self hlt, List.getElem?_eq_getElem hlt']
    · rw [List.getElem?_set_ne fun hij => hj hij.symm]
      exact (Decidable.not_not.mp (mt (hunique j) hj)).symm
  have hne : bytes[i] ≠ other[i] := by
    intro hsame
    apply hi
    rw [List.getElem?_eq_getElem hlt, List.getElem?_eq_getElem hlt', hsame]
  refine ⟨bytes.take i, bytes[i], other[i], bytes.drop (i + 1), hne, ?_, ?_⟩
  · rw [List.getElem_cons_drop, List.take_append_drop]
  · rw [List.set_eq_take_append_cons_drop, if_pos hlt] at hset
    exact hset

theorem differsOnce_of_parts (before after : Bytes) {x y : UInt8} (hne : x ≠ y) :
    DiffersOnce (before ++ x :: after) (before ++ y :: after) where
  length := by simp
  once := by
    refine ⟨before.length, by simpa using hne, fun i hi => ?_⟩
    -- In front of the byte and behind it the two are the same.
    rcases Nat.lt_trichotomy i before.length with hlt | rfl | hgt
    · simp [List.getElem?_append_left hlt] at hi
    · rfl
    · obtain ⟨k, rfl⟩ := Nat.exists_eq_add_of_lt hgt
      have hbehind : ∀ z : UInt8, (before ++ z :: after)[before.length + k + 1]? = after[k]? := by
        intro z
        rw [List.getElem?_append_right (by omega), show before.length + k + 1 - before.length =
          k + 1 by omega, List.getElem?_cons_succ]
      exact absurd ((hbehind x).trans (hbehind y).symm) hi

/-- The checksum behind a byte is that of what precedes it, stepped by the byte, and then by what
follows. -/
theorem fnv1a_append_cons (before : Bytes) (byte : UInt8) (after : Bytes) :
    fnv1a (before ++ byte :: after) = after.foldl fnvStep (fnvStep (fnv1a before) byte) := by
  rw [fnv1a, List.foldl_append]
  rfl

/-- A byte string has another checksum once exactly one of its bytes is another one, whatever stands
in front of it. -/
theorem fnv1a_ne_of_differsOnce {bytes other : Bytes} (h : DiffersOnce bytes other) (name : Bytes) :
    fnv1a (name ++ other) ≠ fnv1a (name ++ bytes) := by
  obtain ⟨before, x, y, after, hne, rfl, rfl⟩ := h.exists_parts
  rw [← List.append_assoc, ← List.append_assoc, fnv1a_append_cons, fnv1a_append_cons]
  intro hsame
  exact hne (fnvStep_right_inj.mp ((foldl_fnvStep_inj after).mp hsame)).symm

end LedgerBench.Bytes
