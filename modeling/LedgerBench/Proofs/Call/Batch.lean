import LedgerBench.Call.Batch
import LedgerBench.Proofs.Call.Wire
import LedgerBench.Proofs.Json.Grammar
/-!
The batches that are accepted.

A batch is judged as a whole, and first by its form: each of its entries has to describe a call.
What is proved:
  1. `ofJson?_eq_some_iff`: a value is read as a call exactly where it describes it. The members of
     an object may stand in any order and between any others.
  2. `checkBatch_ok_iff`, `checkBatch_unnamed`: calls are accepted if there is one and all are
     named, and the first that is not is blamed.
  3. `readBatch_of_described`: so what becomes of a text is known for every text, and the text of a
     list of calls is read as these calls.
-/

namespace LedgerBench

open Json

namespace CallSpec

/-! ## Values that describe a call -/

/-- A value describes a call: an object that names the function once, and the arguments once or, if
there are none, not at all; or an array of the function and the arguments, which may be left out. -/
inductive Describes : Json → CallSpec → Prop where
  | members {members : List (Option String × Json)} {c : CallSpec}
    (form : HasFields ["Func", "Args"] false members)
      (function : (some "Func", text c.function) ∈ members)
      (args : (some "Args", .array (c.args.map text)) ∈ members ∨ c.args = [] ∧ ∀ m ∈ members,
        m.1 ≠ some "Args") :
      Describes (.object members) c
  | function (function : String) : Describes (.array [text function]) { function }
  | both (c : CallSpec) : Describes (.array [text c.function, .array (c.args.map text)]) c

/-- The arguments that a field stands for. -/
def ArgsField (args : List String) (field : Option Json) : Prop :=
  field = some (.array (args.map text)) ∨ args = [] ∧ field = none

theorem withDefault?_args_iff {field : Option Json} {args : List String} :
    withDefault? [] (asList? asText?) field = some args ↔ ArgsField args field := by
  cases field with
  | none => simp [withDefault?, ArgsField, eq_comm]
  | some v => simp [withDefault?, ArgsField, asList?_asText?_eq_some_iff]

/-- A call is read from the two fields of a record. -/
theorem ofJson?_eq_some_iff_fields {v : Json} {c : CallSpec} :
    ofJson? v = some c ↔ ∃ field, fields? ["Func", "Args"] false v =
      some [some (text c.function), field] ∧ ArgsField c.args field := by
  obtain ⟨function, args⟩ := c
  unfold ofJson?
  split
  · rename_i first second hfields
    have hfirst : required? asText? first = some function ↔ first = some (text function) := by
      cases first <;> simp [required?, asText?_eq_some_iff]
    simp only [hfields, Option.bind_eq_bind, Option.bind_eq_some_iff, withDefault?_args_iff,
      Option.some.injEq, CallSpec.mk.injEq, List.cons.injEq, and_true]
    constructor
    · rintro ⟨_, hread, _, hargs, rfl, rfl⟩
      exact ⟨second, ⟨hfirst.mp hread, rfl⟩, hargs⟩
    · rintro ⟨_, ⟨hread, rfl⟩, hargs⟩
      exact ⟨function, hfirst.mpr hread, args, hargs, rfl, rfl⟩
  · rename_i hno
    simp only [reduceCtorEq, false_iff]
    rintro ⟨field, hfields, -⟩
    exact hno _ _ hfields

theorem describes_of_fields {v : Json} {c : CallSpec} {field : Option Json}
    (hfields : fields? ["Func", "Args"] false v = some [some (text c.function), field])
    (hargs : ArgsField c.args field) : Describes v c := by
  obtain ⟨function, args⟩ := c
  cases v with
  | object members =>
    obtain ⟨hform, hvalues⟩ := fields?_object.mp hfields
    have honce : ∀ name ∈ ["Func", "Args"], occurrences name members ≤ 1 := hform.once
    obtain ⟨hfunction, hfield⟩ : some (text function) = member? "Func" members ∧
        field = member? "Args" members := by simpa using hvalues
    refine .members hform ((member?_eq_some_iff (honce "Func" (by simp))).mp hfunction.symm)
      (hargs.imp (fun hsome => ?_) fun hnone => ?_)
    · exact (member?_eq_some_iff (honce "Args" (by simp))).mp (hfield.symm.trans hsome)
    · exact ⟨hnone.1, member?_eq_none_iff.mp (hfield.symm.trans hnone.2)⟩
  | array elements =>
    obtain ⟨hlength, hvalues⟩ := fields?_array.mp hfields
    rcases elements with _ | ⟨first, _ | ⟨second, _ | ⟨third, rest⟩⟩⟩
    · simp at hvalues
    · obtain ⟨rfl, rfl⟩ : text function = first ∧ field = none := by simpa using hvalues
      obtain rfl : args = [] := by simpa [ArgsField] using hargs
      exact .function function
    · obtain ⟨rfl, rfl⟩ : text function = first ∧ field = some second := by simpa using hvalues
      obtain rfl : second = .array (args.map text) := by simpa [ArgsField] using hargs
      exact .both ⟨function, args⟩
    · simp at hlength
  | _ => cases hfields

theorem Describes.exists_fields {v : Json} {c : CallSpec} (h : Describes v c) :
    ∃ field, fields? ["Func", "Args"] false v = some [some (text c.function), field] ∧
      ArgsField c.args field := by
  cases h with
  | @members members _ hform hfunction hargs =>
    have honce : ∀ name ∈ ["Func", "Args"], occurrences name members ≤ 1 := hform.once
    refine ⟨member? "Args" members, fields?_object.mpr ⟨hform, ?_⟩,
      hargs.imp (fun hmem => ?_) fun hnone => ?_⟩
    · rw [← (member?_eq_some_iff (honce "Func" (by simp))).mpr hfunction]
      rfl
    · exact (member?_eq_some_iff (honce "Args" (by simp))).mpr hmem
    · exact ⟨hnone.1, member?_eq_none_iff.mpr hnone.2⟩
  | function function => exact ⟨none, rfl, .inr ⟨rfl, rfl⟩⟩
  | both => exact ⟨_, rfl, .inl rfl⟩

/-- A value is read as a call exactly where it describes it. -/
theorem ofJson?_eq_some_iff {v : Json} {c : CallSpec} : ofJson? v = some c ↔ Describes v c := by
  rw [ofJson?_eq_some_iff_fields]
  constructor
  · rintro ⟨field, hfields, hargs⟩
    exact describes_of_fields hfields hargs
  · exact Describes.exists_fields

/-! ## Batches -/

/-- The function's name has a character that is not white space. -/
def Named (c : CallSpec) : Prop := ∃ ch ∈ c.function.toList, Text.isBlank ch = false

theorem isUnnamed_eq_false_iff {c : CallSpec} : c.isUnnamed = false ↔ c.Named := by
  simp [isUnnamed, Text.allBlank, Named]

instance (c : CallSpec) : Decidable c.Named := decidable_of_iff _ isUnnamed_eq_false_iff

theorem isUnnamed_eq_true_iff {c : CallSpec} : c.isUnnamed = true ↔ ¬ c.Named := by
  rw [← isUnnamed_eq_false_iff, Bool.not_eq_false]

variable {calls : List CallSpec}

theorem findIdx?_isUnnamed_eq_none_iff :
    calls.findIdx? isUnnamed = none ↔ ∀ c ∈ calls, c.Named := by
  simp only [List.findIdx?_eq_none_iff, isUnnamed_eq_false_iff]

/-- Calls are accepted as they are, if there is one and all are named. -/
theorem checkBatch_ok_iff {accepted : List CallSpec} :
    checkBatch calls = .ok accepted ↔ calls = accepted ∧ calls ≠ [] ∧ ∀ c ∈ calls, c.Named := by
  rw [← findIdx?_isUnnamed_eq_none_iff]
  unfold checkBatch
  by_cases hnil : calls = []
  · simp [hnil]
  · rw [if_neg hnil]
    cases hfound : calls.findIdx? isUnnamed with
    | none => simp [hnil]
    | some index => simp

/-- The first call that is not named is blamed. -/
theorem checkBatch_unnamed {before after : List CallSpec} {c : CallSpec}
    (hbefore : ∀ b ∈ before, b.Named) (hc : ¬ c.Named) :
    checkBatch (before ++ c :: after) = .error (.emptyFunction before.length) := by
  have hfound : (before ++ c :: after).findIdx? isUnnamed = some before.length := by
    rw [List.findIdx?_append, findIdx?_isUnnamed_eq_none_iff.mpr hbefore, List.findIdx?_cons,
      isUnnamed_eq_true_iff.mpr hc]
    simp
  simp [checkBatch, hfound]

/-- Calls of which one is not named have a first one that is not. -/
theorem exists_first_unnamed (h : ¬ ∀ c ∈ calls, c.Named) :
    ∃ before c after, calls = before ++ c :: after ∧ (∀ b ∈ before, b.Named) ∧ ¬ c.Named := by
  induction calls with
  | nil => simp at h
  | cons c rest ih =>
    by_cases hc : c.Named
    · obtain ⟨before, d, after, rfl, hbefore, hd⟩ :=
        ih fun hrest => h (List.forall_mem_cons.mpr ⟨hc, hrest⟩)
      exact ⟨c :: before, d, after, rfl, List.forall_mem_cons.mpr ⟨hc, hbefore⟩, hd⟩
    · exact ⟨[], c, rest, rfl, nofun, hc⟩

/-! ## Texts that describe a batch -/

/-- The tokens of a text are those of an array whose elements describe the calls, in order. -/
def Described (text : String) (calls : List CallSpec) : Prop :=
  ∃ elements, Token.scan text.toList = some (Json.array elements).tokens ∧
      List.Forall₂ Describes elements calls

theorem described_iff {text : String} :
    Described text calls ↔ (read? text.toList).bind (asList? ofJson?) = some calls := by
  simp only [Described, Option.bind_eq_some_iff, asList?_eq_some_iff, ofJson?_eq_some_iff,
    read?_eq_some_iff]
  constructor
  · rintro ⟨elements, hscan, hall⟩
    exact ⟨_, hscan, elements, rfl, hall⟩
  · rintro ⟨_, hscan, elements, rfl, hall⟩
    exact ⟨elements, hscan, hall⟩

theorem wellFormed_batchJson (calls : List CallSpec) : (batchJson calls).WellFormed :=
  wellFormed_list fun c _ => c.wellFormed_toJson

/-- A text that a list of calls is written as describes these calls, however it is spaced. -/
theorem described_of_spells {text : String} (h : Spells text.toList (batchJson calls).tokens) :
    Described text calls := by
  refine ⟨calls.map toJson, Token.scan_of_spells h, List.forall₂_map_left_iff.mpr ?_⟩
  exact List.forall₂_same.mpr fun c _ => ofJson?_eq_some_iff.mp c.ofJson?_toJson

/-- What a text describes is accepted if it is a call or more, all of them named. No calls, and the
first call that is not named, are refused in so many words, and a text that describes no list of
calls is refused as such. Every list of calls is described by its compact text and by all its other
spacings. -/
theorem readBatch_of_described :
    (∀ calls, Described (batchJson calls).compact calls ∧ ∀ text,
        Spells text.toList (batchJson calls).tokens → Described text calls) ∧
    (∀ text calls, Described text calls →
      (readBatch text = .ok calls ↔ calls ≠ [] ∧ ∀ c ∈ calls, c.Named) ∧
      (calls = [] → ∃ e, readBatch text = .error e ∧
          e.message = "malformed batch description: batch contains no calls") ∧
      (calls ≠ [] → (¬ ∀ c ∈ calls, c.Named) →
        ∃ before c after e, calls = before ++ c :: after ∧ (∀ b ∈ before, b.Named) ∧ ¬ c.Named ∧
          readBatch text = .error e ∧
          e.message = "malformed batch description: entry " ++ Text.natText before.length ++
            " has an empty function name")) ∧
    (∀ text, (¬ ∃ calls, Described text calls) → readBatch text = .error .invalidJson) ∧
    ∀ text calls, readBatch text = .ok calls → Described text calls ∧ calls ≠ [] ∧
      ∀ c ∈ calls, c.Named := by
  have hjudged : ∀ text calls, Described text calls → readBatch text = checkBatch calls := by
    intro text calls h
    unfold readBatch
    rw [described_iff.mp h]
  have hrefused : ∀ text, (¬ ∃ calls, Described text calls) →
      readBatch text = .error .invalidJson := by
    intro text h
    unfold readBatch
    cases hread : (read? text.toList).bind (asList? ofJson?) with
    | none => rfl
    | some calls => exact absurd ⟨calls, described_iff.mpr hread⟩ h
  refine ⟨fun calls => ⟨?_, fun text => described_of_spells⟩, fun text calls h => ⟨?_, ?_, ?_⟩,
    hrefused, fun text calls h => ?_⟩
  · exact described_of_spells (spells_compact (wellFormed_batchJson calls))
  · rw [hjudged text calls h, checkBatch_ok_iff]
    exact ⟨fun h => h.2, fun h => ⟨rfl, h⟩⟩
  · rintro rfl
    exact ⟨.noCalls, hjudged text [] h, rfl⟩
  · intro _ hunnamed
    obtain ⟨before, c, after, rfl, hbefore, hc⟩ := exists_first_unnamed hunnamed
    exact ⟨before, c, after, _, rfl, hbefore, hc,
      (hjudged text _ h).trans (checkBatch_unnamed hbefore hc), rfl⟩
  · by_cases hdescribed : ∃ calls, Described text calls
    · obtain ⟨found, hfound⟩ := hdescribed
      obtain ⟨rfl, hok⟩ := checkBatch_ok_iff.mp ((hjudged text found hfound).symm.trans h)
      exact ⟨hfound, hok⟩
    · cases (hrefused text hdescribed).symm.trans h

/-- Two calls, one with its members in another order, an escape and a member that is skipped, the
other one without arguments. -/
def shuffled : String :=
  " [\x7b\"Args\" : [\"\\u0041\", \"\"],\n\"Note\":\x7b\"Func\":1e9\x7d, \"Func\":\"get\"\x7d ,[\"put\"]]"

/-- The second of these calls has a name of two blanks that are not ASCII. -/
def blankSecond : String := "[\x7b\"Func\":\"put\"\x7d,\x7b\"Func\":\"\\u00a0\\u3000\"\x7d,[\"\"]]"

theorem readBatch_of_described_shuffled :
    readBatch shuffled = .ok [⟨"get", ["A", ""]⟩, ⟨"put", []⟩] ∧
    ∃ e, readBatch blankSecond = .error e ∧
      e.message = "malformed batch description: entry 1 has an empty function name" := by
  obtain ⟨-, hjudged, -, -⟩ := readBatch_of_described
  have hshuffled : Described shuffled [⟨"get", ["A", ""]⟩, ⟨"put", []⟩] := by
    refine ⟨[.object [(some "Args", .array [text "A", text ""]),
      (some "Note", .object [(some "Func", .number ⟨false, ['1'], [], some (false, ['9'])⟩)]),
        (some "Func", text "get")], .array [text "put"]], rfl, ?_⟩
    refine .cons (.members ⟨by simp, by decide⟩ (by simp) (.inl (by simp)))
      (.cons (.function "put") .nil)
  have hblank : Described blankSecond [⟨"put", []⟩, ⟨"\u00a0\u3000", []⟩, ⟨"", []⟩] := by
    refine ⟨[.object [(some "Func", text "put")], .object [(some "Func", text "\u00a0\u3000")],
      .array [text ""]], rfl, ?_⟩
    refine .cons (.members ⟨by simp, by decide⟩ (by simp) (.inr ⟨rfl, by simp⟩))
      (.cons ?_ (.cons (.function "") .nil))
    exact .members ⟨by simp, by decide⟩ (by simp) (.inr ⟨rfl, by simp⟩)
  refine ⟨((hjudged _ _ hshuffled).1).mpr ⟨by simp, by decide⟩, ?_⟩
  obtain ⟨before, c, after, e, hcalls, hbefore, hc, herror, hmessage⟩ :=
    (hjudged _ _ hblank).2.2 (by simp) (by decide)
  rcases before with _ | ⟨first, _ | ⟨second, rest⟩⟩
  · obtain ⟨rfl, -⟩ := List.cons.inj hcalls
    exact absurd (by decide) hc
  · have hindex : Text.natText [first].length = "1" := show Text.natText 1 = "1" by decide
    rw [hindex] at hmessage
    exact ⟨e, herror, hmessage⟩
  · obtain ⟨-, hrest⟩ := List.cons.inj hcalls
    obtain ⟨rfl, -⟩ := List.cons.inj hrest
    have hnamed : Named ⟨"\u00a0\u3000", []⟩ := hbefore _ (by simp)
    exact absurd hnamed (by decide)

end CallSpec

end LedgerBench
