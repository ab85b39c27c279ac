import LedgerBench.Json.Decode
import LedgerBench.Proofs.Json.RoundTrip
import Mathlib.Data.List.Forall2
/-!
Records and their fields.

A record is written with all its fields or without those that have nothing to say, and read field by
field. What is proved:
  1. `fields?_record`: the fields of a record are found under their names, in the order in which
     they are asked for; those left out are missing.
  2. `fields?_object`: an object has the fields of a record exactly where its names can be read and
     no known one stands twice. What a field then holds is the one member of its name, wherever it
     stands (`member?_eq_some_iff`).
  3. `wellFormed_record`, `wellFormed_texts`: records and lists of texts can be written if what they
     hold can.
  4. `readsBack_of_wellFormed`: a writer and a reader that undo each other on values do so on texts,
     however these are spaced.
-/

namespace LedgerBench

namespace Json

/-! ## Fields -/

theorem occurrences_record {ms : List (String × Json)} (hdistinct : (ms.map Prod.fst).Nodup)
    (name : String) :
    occurrences name (ms.map fun (n, v) => (some n, v)) ≤ 1 := by
  have hcount :
      occurrences name (ms.map fun (n, v) => (some n, v)) = (ms.map Prod.fst).count name := by
    unfold occurrences
    rw [List.countP_map, List.count, List.countP_map]
    refine List.countP_congr fun m _ => ?_
    simp
  rw [hcount]
  exact List.nodup_iff_count.mp hdistinct name

theorem member?_record (ms : List (String × Json)) (name : String) :
    member? name (ms.map fun (n, v) => (some n, v)) = ms.lookup name := by
  induction ms with
  | nil => rfl
  | cons m ms ih =>
    unfold member? at ih ⊢
    rw [List.map_cons, List.find?_cons, List.lookup_cons]
    by_cases h : name = m.1
    · simp [h]
    · have hbeq : (name == m.1) = false := beq_eq_false_iff_ne.mpr h
      have hne : ((some m.1 : Option String) == some name) = false := by
        simpa using fun h' => h h'.symm
      rw [hbeq]
      simp only [hne]
      exact ih

/-- The fields of a record, in the order in which they are asked for. -/
theorem fields?_record {ms : List (String × Json)} (names : List String) (strict : Bool)
    (hknown : ∀ m ∈ ms, m.1 ∈ names) (hdistinct : (ms.map Prod.fst).Nodup) :
    fields? names strict (record ms) = some (names.map fun name => ms.lookup name) := by
  have hfields : fields? names strict (record ms) =
      if ((ms.map fun (n, v) => (some n, v)).all fun m => admits names strict m.1)
          && names.all fun name =>
            decide (occurrences name (ms.map fun (n, v) => (some n, v)) ≤ 1) then
        some (names.map fun name => member? name (ms.map fun (n, v) => (some n, v)))
      else none := rfl
  have hadmitted : ((ms.map fun (n, v) => ((some n : Option String), v)).all fun m =>
      admits names strict m.1) = true := by
    rw [List.all_map, List.all_eq_true]
    intro m hm
    simp [admits, hknown m hm]
  have honce : (names.all fun name =>
      decide (occurrences name (ms.map fun (n, v) => (some n, v)) ≤ 1)) = true := by
    rw [List.all_eq_true]
    intro name _
    exact decide_eq_true (occurrences_record hdistinct name)
  rw [hfields, hadmitted, honce]
  simp only [Bool.and_self, if_true, member?_record]

/-! ## What is read -/

section

variable {members : List (Option String × Json)} {name : String} {v : Json}

theorem member?_eq_none_iff : member? name members = none ↔ ∀ m ∈ members, m.1 ≠ some name := by
  simp [member?]

/-- A member that stands once is found wherever it stands. -/
theorem member?_eq_some_iff (honce : occurrences name members ≤ 1) :
    member? name members = some v ↔ (some name, v) ∈ members := by
  induction members with
  | nil => simp [member?]
  | cons m rest ih =>
    obtain ⟨key, w⟩ := m
    by_cases hkey : key = some name
    · subst hkey
      have hfirst : member? name ((some name, w) :: rest) = some w := by simp [member?]
      have hnone : ∀ m ∈ rest, m.1 ≠ some name := by
        have hrest : occurrences name rest = 0 := by simpa [occurrences] using honce
        simpa [occurrences, List.countP_eq_zero] using hrest
      rw [hfirst, List.mem_cons, Prod.mk.injEq, Option.some.injEq]
      constructor
      · rintro rfl
        exact .inl ⟨rfl, rfl⟩
      · rintro (⟨-, rfl⟩ | hmem)
        · rfl
        · exact absurd rfl (hnone _ hmem)
    · have hskip : member? name ((key, w) :: rest) = member? name rest := by simp [member?, hkey]
      have hrest : occurrences name rest ≤ 1 := by simpa [occurrences, hkey] using honce
      rw [hskip, ih hrest, List.mem_cons, Prod.mk.injEq]
      constructor
      · exact .inr
      · rintro (⟨hsame, -⟩ | hmem)
        · exact absurd hsame.symm hkey
        · exact hmem

/-- An object has the form of a record: its names can be read, in a strict record they are known
ones, and no known one stands twice. -/
structure HasFields (names : List String) (strict : Bool)
    (members : List (Option String × Json)) : Prop where
  named : ∀ m ∈ members, ∃ name, m.1 = some name ∧ (strict = true → name ∈ names)
  once : ∀ name ∈ names, occurrences name members ≤ 1

theorem fields?_object {names : List String} {strict : Bool} {values : List (Option Json)} :
    fields? names strict (.object members) = some values ↔
      HasFields names strict members ∧ values = names.map fun name => member? name members := by
  have hnamed : (members.all fun m => admits names strict m.1) = true ↔
      ∀ m ∈ members, ∃ name, m.1 = some name ∧ (strict = true → name ∈ names) := by
    rw [List.all_eq_true]
    refine forall₂_congr fun m _ => ?_
    cases m.1 with
    | none => simp [admits]
    | some name => cases strict <;> simp [admits]
  have honce : (names.all fun name => decide (occurrences name members ≤ 1)) = true ↔
      ∀ name ∈ names, occurrences name members ≤ 1 := by
    simp
  have hform : ((members.all fun m => admits names strict m.1) && names.all fun name =>
      decide (occurrences name members ≤ 1)) = true ↔
      HasFields names strict members := by
    rw [Bool.and_eq_true, hnamed, honce]
    exact ⟨fun h => ⟨h.1, h.2⟩, fun h => ⟨h.1, h.2⟩⟩
  have hfields : fields? names strict (.object members) =
      if (members.all fun m => admits names strict m.1) && names.all fun name =>
        decide (occurrences name members ≤ 1) then
        some (names.map fun name => member? name members)
      else none := rfl
  rw [hfields, ← hform, Option.ite_none_right_eq_some, Option.some.injEq, eq_comm (a := values)]

theorem fields?_array {names : List String} {strict : Bool} {elements : List Json}
    {values : List (Option Json)} :
    fields? names strict (.array elements) = some values ↔
      elements.length ≤ names.length ∧
        values = elements.map some ++ List.replicate (names.length - elements.length) none := by
  have hfields : fields? names strict (.array elements) =
      if elements.length ≤ names.length then some
        (elements.map some ++ List.replicate (names.length - elements.length) none) else none := rfl
  rw [hfields, Option.ite_none_right_eq_some, Option.some.injEq, eq_comm (a := values)]

theorem asText?_eq_some_iff {s : String} : asText? v = some s ↔ v = text s := by
  cases v <;> simp [asText?, text]

/-- A list is read from an array, item by item. -/
theorem asList?_eq_some_iff {α : Type} {item : Json → Option α} {values : List α} :
    asList? item v = some values ↔ ∃ elements, v = .array elements ∧
      List.Forall₂ (fun e a => item e = some a) elements values := by
  have hmapM : ∀ elements : List Json, elements.mapM item = some values ↔
      List.Forall₂ (fun e a => item e = some a) elements values := by
    intro elements
    induction elements generalizing values with
    | nil => simp [eq_comm]
    | cons e rest ih =>
      simp only [List.mapM_cons, Option.bind_eq_bind, Option.bind_eq_some_iff, ih,
        List.forall₂_cons_left_iff, Option.pure_def, Option.some.injEq]
      constructor
      · rintro ⟨a, ha, others, hothers, rfl⟩
        exact ⟨a, others, ha, hothers, rfl⟩
      · rintro ⟨a, others, ha, hothers, rfl⟩
        exact ⟨a, ha, others, hothers, rfl⟩
  cases v <;> simp [asList?, hmapM]

/-- A list is read from the values that its items are read from. -/
theorem asList?_list {α : Type} {toJson : α → Json} {item : Json → Option α} {values : List α}
    (h : ∀ a ∈ values, item (toJson a) = some a) :
    asList? item (.array (values.map toJson)) = some values :=
  asList?_eq_some_iff.mpr ⟨_, rfl, List.forall₂_map_left_iff.mpr (List.forall₂_same.mpr h)⟩

theorem asList?_texts (texts : List String) :
    asList? asText? (.array (texts.map text)) = some texts :=
  asList?_list fun _ _ => rfl

theorem asList?_asText?_eq_some_iff {texts : List String} :
    asList? asText? v = some texts ↔ v = .array (texts.map text) := by
  have hsame : ∀ elements : List Json, List.Forall₂ (fun e s => e = text s) elements texts ↔
      elements = texts.map text := by
    intro elements
    rw [← List.forall₂_eq_eq_eq, List.forall₂_map_right_iff]
  simp only [asList?_eq_some_iff, asText?_eq_some_iff, hsame, exists_eq_right]

/-- A choice that carries something is read from an object with one member. -/
theorem choice?_eq_some_some_iff {w : Json} :
    choice? v = some (name, some w) ↔ v = .object [(some name, w)] := by
  unfold choice?
  split
  · simp
  · simp
  · rename_i hno
    simp only [reduceCtorEq, false_iff]
    rintro rfl
    exact hno name w rfl

end

/-! ## Values that can be written -/

theorem wellFormed_text (s : String) : (text s).WellFormed := .string (some s)

theorem wellFormed_list {α : Type} {toJson : α → Json} {values : List α}
    (h : ∀ a ∈ values, (toJson a).WellFormed) :
    (Json.array (values.map toJson)).WellFormed := by
  refine .array fun v hv => ?_
  obtain ⟨a, ha, rfl⟩ := List.mem_map.mp hv
  exact h a ha

theorem wellFormed_texts (texts : List String) : (Json.array (texts.map text)).WellFormed :=
  wellFormed_list fun s _ => wellFormed_text s

theorem wellFormed_ofNat (n : Nat) : (ofNat n).WellFormed :=
  .number (Number.wellFormed_of_decimal false n)

theorem wellFormed_ofInt (i : Int) : (ofInt i).WellFormed :=
  .number (Number.wellFormed_of_decimal _ i.natAbs)

theorem wellFormed_record {ms : List (String × Json)} (h : ∀ m ∈ ms, m.2.WellFormed) :
    (record ms).WellFormed := by
  refine .object fun m hm => ?_
  obtain ⟨m', hm', rfl⟩ := List.mem_map.mp hm
  exact h m' hm'

/-! ## Writing and reading -/

variable {α : Type}

/-- A value is read back from the text it is written as, and from every other spacing of that
text. -/
structure ReadsBack (toJson : α → Json) (ofJson? : Json → Option α) (a : α) : Prop where
  compact : (read? (toJson a).compact.toList).bind ofJson? = some a
  spaced : ∀ text, Spells text (toJson a).tokens → (read? text).bind ofJson? = some a

theorem readsBack_of_wellFormed {toJson : α → Json} {ofJson? : Json → Option α} {a : α}
    (hwell : (toJson a).WellFormed) (h : ofJson? (toJson a) = some a) :
    ReadsBack toJson ofJson? a where
  compact := by rw [read?_compact hwell, Option.bind_some, h]
  spaced text hs := by rw [read?_of_spells hs, Option.bind_some, h]

end Json

end LedgerBench
