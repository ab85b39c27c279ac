import LedgerBench.Call.Wire
import LedgerBench.Proofs.Json.Record
import LedgerBench.Proofs.Ulid
/-!
The wire types read back.

What is proved:
  1. For each type, that its reader undoes its writer on JSON values (`CallSpec.ofJson?_toJson` and
     its like), and that what the writer makes can be written (`CallSpec.wellFormed_toJson` and its
     like).
  2. `readsBack_of_written`: so every value of these types is read back from its JSON text. Numbers
     have to fit their width, which is that of the counts and codes there are; texts may hold any
     characters.
-/

namespace LedgerBench

open Json

/-! ## Calls -/

namespace CallSpec

theorem wellFormed_toJson (c : CallSpec) : c.toJson.WellFormed :=
  wellFormed_record (by simp [wellFormed_text, wellFormed_texts])

theorem ofJson?_toJson (c : CallSpec) : ofJson? c.toJson = some c := by
  have hfields : fields? ["Func", "Args"] false c.toJson =
      some [some (Json.text c.function), some (.array (c.args.map Json.text))] :=
    fields?_record _ _ (by simp) (by simp)
  rw [ofJson?, hfields]
  simp only [required?, withDefault?, asText?, Json.text, asList?_texts]
  rfl

end CallSpec

namespace Target

theorem wellFormed_toJson (t : Target) : t.toJson.WellFormed :=
  wellFormed_record (by simp [wellFormed_text])

theorem ofJson?_toJson (t : Target) : ofJson? t.toJson = some t := by
  have hfields : fields? ["name", "url"] false t.toJson =
      some [some (Json.text t.name), some (Json.text t.url)] :=
    fields?_record _ _ (by simp) (by simp)
  rw [ofJson?, hfields]
  rfl

end Target

theorem CallMode.ofJson?_toJson (m : CallMode) : ofJson? m.toJson = some m := by
  cases m <;> rfl

/-! ## Errors -/

theorem ErrorKind.ofJson?_toJson (k : ErrorKind) : ofJson? k.toJson = some k := by
  cases k <;> rfl

namespace CallError

theorem wellFormed_toJson (e : CallError) : e.toJson.WellFormed := by
  refine wellFormed_record ?_
  cases e.transactionId <;> simp [wellFormed_text, ErrorKind.toJson]

theorem ofJson?_toJson (e : CallError) : ofJson? e.toJson = some e := by
  obtain ⟨kind, message, transactionId⟩ := e
  cases transactionId with
  | none =>
    have hfields :
        fields? ["kind", "message", "transaction_id"] false (toJson ⟨kind, message, none⟩) =
        some [some kind.toJson, some (Json.text message), none] :=
      fields?_record _ _ (by simp) (by simp)
    rw [ofJson?, hfields]
    simp only [required?, withDefault?, ErrorKind.ofJson?_toJson]
    rfl
  | some tx =>
    have hfields :
        fields? ["kind", "message", "transaction_id"] false (toJson ⟨kind, message, some tx⟩) =
        some [some kind.toJson, some (Json.text message), some (Json.text tx)] :=
      fields?_record _ _ (by simp) (by simp)
    rw [ofJson?, hfields]
    simp only [required?, withDefault?, ErrorKind.ofJson?_toJson]
    rfl

end CallError

/-! ## Validation codes -/

namespace ValidationCode

/-- The code's number has 32 bits. -/
def Fits (v : ValidationCode) : Prop := -(numberBound : Int) ≤ v.number ∧ v.number < numberBound

theorem wellFormed_toJson (v : ValidationCode) : v.toJson.WellFormed := by
  cases v with
  | other n => exact wellFormed_record (by simp [wellFormed_ofInt])
  | _ => exact wellFormed_text _

theorem ofJson?_toJson {v : ValidationCode} (h : v.Fits) : ofJson? v.toJson = some v := by
  cases v with
  | other n =>
    have hn : asInt? numberBound (ofInt n) = some n := asInt?_ofInt h.1 h.2
    show (asInt? numberBound (ofInt n)).map other = some (other n)
    rw [hn, Option.map_some]
  | _ => rfl

end ValidationCode

/-! ## Counts and identifiers -/

namespace Progress

/-- Every count has 64 bits. -/
structure Fits (p : Progress) : Prop where
  expected : p.expected < countBound
  started : p.started < countBound
  succeeded : p.succeeded < countBound
  failed : p.failed < countBound

theorem wellFormed_toJson (p : Progress) : p.toJson.WellFormed :=
  wellFormed_record (by simp [wellFormed_ofNat])

theorem ofJson?_toJson {p : Progress} (h : p.Fits) : ofJson? p.toJson = some p := by
  have hfields : fields? ["expected", "started", "succeeded", "failed"] false p.toJson =
      some [some (ofNat p.expected), some (ofNat p.started), some (ofNat p.succeeded),
        some (ofNat p.failed)] :=
    fields?_record _ _ (by simp) (by simp)
  rw [ofJson?, hfields]
  simp only [required?, asNat?_ofNat h.expected, asNat?_ofNat h.started, asNat?_ofNat h.succeeded,
    asNat?_ofNat h.failed]
  rfl

end Progress

namespace Identifier

variable {kind : NamedKind}

theorem wellFormed_toJson (id : Identifier kind) : id.toJson.WellFormed :=
  wellFormed_record (by simp [wellFormed_text])

theorem ofJson?_toJson (id : Identifier kind) : ofJson? id.toJson = some id := by
  have hfields : fields? ["ulid"] false id.toJson = some [some (Json.text id.ulid.text)] :=
    fields?_record _ _ (by simp) (by simp)
  rw [ofJson?, hfields]
  simp only [required?, asText?, Json.text, Option.bind_some, Ulid.ofText?_text, Option.map_some]

end Identifier

/-! ## All of them -/

/-- Every value of a wire type is read back from the text it is written as. -/
theorem readsBack_of_written :
    (∀ c, ReadsBack CallSpec.toJson CallSpec.ofJson? c) ∧
    (∀ t, ReadsBack Target.toJson Target.ofJson? t) ∧
    (∀ m, ReadsBack CallMode.toJson CallMode.ofJson? m) ∧
    (∀ k, ReadsBack ErrorKind.toJson ErrorKind.ofJson? k) ∧
    (∀ e, ReadsBack CallError.toJson CallError.ofJson? e) ∧
    (∀ v : ValidationCode, v.Fits → ReadsBack ValidationCode.toJson ValidationCode.ofJson? v) ∧
    (∀ p : Progress, p.Fits → ReadsBack Progress.toJson Progress.ofJson? p) ∧
    (∀ id : RunId, ReadsBack Identifier.toJson Identifier.ofJson? id) ∧
    (∀ id : TaskId, ReadsBack Identifier.toJson Identifier.ofJson? id) := by
  refine ⟨fun c => ?_, fun t => ?_, fun m => ?_, fun k => ?_, fun e => ?_, fun v hv => ?_,
    fun p hp => ?_, fun id => ?_, fun id => ?_⟩
  · exact readsBack_of_wellFormed c.wellFormed_toJson c.ofJson?_toJson
  · exact readsBack_of_wellFormed t.wellFormed_toJson t.ofJson?_toJson
  · exact readsBack_of_wellFormed (wellFormed_text m.text) m.ofJson?_toJson
  · exact readsBack_of_wellFormed (wellFormed_text k.text) k.ofJson?_toJson
  · exact readsBack_of_wellFormed e.wellFormed_toJson e.ofJson?_toJson
  · exact readsBack_of_wellFormed v.wellFormed_toJson (ValidationCode.ofJson?_toJson hv)
  · exact readsBack_of_wellFormed p.wellFormed_toJson (Progress.ofJson?_toJson hp)
  · exact readsBack_of_wellFormed id.wellFormed_toJson id.ofJson?_toJson
  · exact readsBack_of_wellFormed id.wellFormed_toJson id.ofJson?_toJson

/-- The least number of a code and the greatest count, and a text with a quote, a backslash, control
characters and one beyond the basic plane. -/
theorem readsBack_of_written_extreme :
    (ValidationCode.other (-2147483648)).Fits ∧
    ReadsBack ValidationCode.toJson ValidationCode.ofJson? (.other (-2147483648)) ∧
    (⟨18446744073709551615, 0, 1, 18446744073709551615⟩ : Progress).Fits ∧
    ReadsBack Progress.toJson Progress.ofJson? ⟨18446744073709551615, 0, 1, 18446744073709551615⟩ ∧
    ReadsBack CallError.toJson CallError.ofJson?
      { kind := .persistent, message := "\"\\\n\x00\x1f😀", transactionId := some "" } := by
  have hcode : (ValidationCode.other (-2147483648)).Fits := by unfold ValidationCode.Fits; decide
  have hcounts : (⟨18446744073709551615, 0, 1, 18446744073709551615⟩ : Progress).Fits :=
    ⟨by decide, by decide, by decide, by decide⟩
  obtain ⟨-, -, -, -, herror, hv, hp, -, -⟩ := readsBack_of_written
  exact ⟨hcode, hv _ hcode, hcounts, hp _ hcounts, herror _⟩

end LedgerBench
