import LedgerBench.Ledger.Simulated
import LedgerBench.Proofs.Text.Bytes
import LedgerBench.Proofs.Text.Numeral
/-!
What the signatures of a simulated ledger protect.

A signature is the endorser's name, a colon, and the checksum of name and payload in sixteen
hexadecimal digits. As the digits are always sixteen, the name can be cut off again, and as the
digits can be read back, so can the checksum. What is proved:
  1. `sign_inj`: signatures are the same exactly where the names and the checksums are.
  2. `verify_endorse`: what an endorser signed verifies.
  3. `refused_of_tampering`: it does not any more once one byte of the payload is another one, or
     the name is.
-/

namespace LedgerBench.SimulatedLedger

/-- The checksum in a signature. -/
def checksum (endorser : String) (payload : Bytes) : UInt64 :=
  Bytes.fnv1a (Bytes.ofText endorser ++ payload)

theorem sign_eq (endorser : String) (payload : Bytes) :
    sign endorser payload =
      Bytes.ofText (endorser ++ ":" ++ Text.hexPadded 16 (checksum endorser payload).toNat) := rfl

/-- Signatures are told apart by their names and checksums. -/
theorem sign_inj {endorser other : String} {payload payload' : Bytes} :
    sign endorser payload = sign other payload' ↔ endorser = other ∧
      checksum endorser payload = checksum other payload' := by
  constructor
  · intro h
    have htext := congrArg String.toList (Bytes.ofText_injective h)
    rw [String.toList_append, String.toList_append, String.toList_append,
      String.toList_append] at htext
    have hwidth : ∀ bits : UInt64, (Text.hexPadded 16 bits.toNat).toList.length = 16 :=
      fun bits => Text.length_hexPadded (by omega) (Nat.lt_of_lt_of_eq bits.toNat_lt (by decide))
    obtain ⟨hnames, hdigits⟩ := List.append_inj' htext (by rw [hwidth, hwidth])
    refine ⟨String.toList_inj.mp (List.append_cancel_right hnames),
      UInt64.toNat_inj.mp (Option.some.inj ?_)⟩
    rw [← Text.readHex?_hexPadded 16, ← Text.readHex?_hexPadded 16]
    exact congrArg Text.readHex? hdigits
  · rintro ⟨rfl, hchecksum⟩
    rw [sign_eq, sign_eq, hchecksum]

theorem verify_iff {e : Endorsement} : verify e = true ↔ e.signature = sign e.endorser e.payload :=
  decide_eq_true_iff

theorem verify_endorse (payload : Bytes) (endorser : String) :
    verify (endorse payload endorser) = true :=
  verify_iff.mpr rfl

/-- An endorsement that an endorser signed verifies. It does not any more with a payload of the same
length that differs in exactly one byte, nor with another endorser's name. -/
theorem refused_of_tampering (e : Endorsement) (hsigned : e.signature = sign e.endorser e.payload) :
    verify e = true ∧
    (∀ payload, Bytes.DiffersOnce e.payload payload → verify { e with payload } = false) ∧
    ∀ endorser, endorser ≠ e.endorser → verify { e with endorser } = false := by
  refine ⟨verify_iff.mpr hsigned, fun payload hdiffers => ?_, fun endorser hother => ?_⟩
  · refine Bool.eq_false_iff.mpr fun hverified => ?_
    have hsame : sign e.endorser e.payload = sign e.endorser payload :=
      hsigned.symm.trans (verify_iff.mp hverified)
    exact Bytes.fnv1a_ne_of_differsOnce hdiffers (Bytes.ofText e.endorser)
      (sign_inj.mp hsame).2.symm
  · refine Bool.eq_false_iff.mpr fun hverified => ?_
    have hsame : sign e.endorser e.payload = sign endorser e.payload :=
      hsigned.symm.trans (verify_iff.mp hverified)
    exact hother (sign_inj.mp hsame).1.symm

/-- What an endorser signed, with its second byte replaced by the greatest one, and in the name of
another endorser. -/
theorem refused_of_tampering_middle :
    let e := endorse [0x67, 0x65, 0x74] "peer0"
    e.signature = sign "peer0" [0x67, 0x65, 0x74] ∧ verify e = true ∧
    Bytes.DiffersOnce e.payload [0x67, 0xff, 0x74] ∧
    verify { e with payload := [0x67, 0xff, 0x74] } = false ∧
    "peer1" ≠ e.endorser ∧ verify { e with endorser := "peer1" } = false := by
  intro e
  have hdiffers : Bytes.DiffersOnce e.payload [0x67, 0xff, 0x74] :=
    Bytes.differsOnce_of_parts [0x67] [0x74] (by decide)
  obtain ⟨hverified, hpayload, hendorser⟩ := refused_of_tampering e rfl
  exact ⟨rfl, hverified, hdiffers, hpayload _ hdiffers, by decide, hendorser "peer1" (by decide)⟩

end LedgerBench.SimulatedLedger
