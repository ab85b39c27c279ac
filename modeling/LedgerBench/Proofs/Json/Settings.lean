import LedgerBench.Proofs.Json.Record
import Mathlib.Data.List.Nodup
/-!
Settings and the objects that hold them.

A configuration with defaults is written as an object of settings: some of its fields, each under
its own key, in any order. What is proved:
  1. `SettingKind.Sets.withDefault?_lookup`: a field comes to what the one setting for it says, and
     where there is none to what it was.
  2. `SettingKind.overlay_perm`, `SettingKind.exists_written`: settings with different keys can be
     applied in any order, and written.
  3. `Misnamed.fields?_eq_none`: an object with a key that is not known, or with one that stands
     twice, does not have the fields of such a configuration.
-/

namespace LedgerBench

namespace Json

/-- A kind of settings: the key of a setting, what it makes of a configuration, and the values that
it is written as. -/
structure SettingKind (S C : Type) where
  key : S → String
  apply : S → C → C
  value : S → Json → Prop

namespace SettingKind

variable {S C : Type} {k : SettingKind S C} {settings settings' : List S}
  {members : List (String × Json)}

/-- Settings with different keys are written as members of an object, each under its key. -/
inductive Written (k : SettingKind S C) : List S → List (String × Json) → Prop where
  | nil : Written k [] []
  | cons {s : S} {v : Json} {settings : List S} {members : List (String × Json)}
    (value : k.value s v)
      (new : ∀ t ∈ settings, k.key t ≠ k.key s) (tail : Written k settings members) :
        Written k (s :: settings) ((k.key s, v) :: members)

/-- A configuration with some settings applied to it. -/
def overlay (k : SettingKind S C) (base : C) (settings : List S) : C :=
  settings.foldl (fun c s => k.apply s c) base

theorem overlay_cons (s : S) (base : C) :
    k.overlay base (s :: settings) = k.overlay (k.apply s base) settings :=
  rfl

/-- A field of a configuration, and how the item is read that a setting for it is written as. -/
structure Field (C : Type) where
  {α : Type}
  get : C → α
  item : Json → Option α

/-- The settings under a key set one field, to what the item that they are written as is read as. -/
structure Sets (k : SettingKind S C) (name : String) (field : Field C) : Prop where
  set : ∀ s v c, k.key s = name → k.value s v → field.item v = some (field.get (k.apply s c))
  keep : ∀ s c, k.key s ≠ name → field.get (k.apply s c) = field.get c

section

variable {field : Field C} {name : String}

/-- Settings for other fields leave a field alone. -/
theorem Sets.get_overlay_of_forall_ne (hsets : k.Sets name field)
    (hne : ∀ s ∈ settings, k.key s ≠ name) (base : C) :
    field.get (k.overlay base settings) = field.get base := by
  induction settings generalizing base with
  | nil => rfl
  | cons s rest ih =>
    obtain ⟨hs, hrest⟩ := List.forall_mem_cons.mp hne
    rw [overlay_cons, ih hrest, hsets.keep s base hs]

/-- A field comes to what the setting for it says, and where there is none to what it was. -/
theorem Sets.withDefault?_lookup (hsets : k.Sets name field)
    (h : k.Written settings members) (base : C) :
    withDefault? (field.get base) field.item (members.lookup name) =
      some (field.get (k.overlay base settings)) := by
  induction h generalizing base with
  | nil => rfl
  | @cons s v rest members hvalue hnew _ ih =>
    rw [overlay_cons]
    by_cases hkey : k.key s = name
    · -- No other setting is for this field.
      rw [List.lookup_cons, hkey, beq_self_eq_true, hsets.get_overlay_of_forall_ne fun t ht =>
        hkey ▸ hnew t ht]
      exact hsets.set s v base hkey hvalue
    · have hother : (name == k.key s) = false := beq_eq_false_iff_ne.mpr (Ne.symm hkey)
      rw [List.lookup_cons, hother, ← hsets.keep s base hkey]
      exact ih (k.apply s base)

end

/-- Settings with different keys can be applied in any order. -/
theorem overlay_perm
    (hcomm : ∀ s t c, k.key s ≠ k.key t → k.apply s (k.apply t c) = k.apply t (k.apply s c))
    (h : settings.Perm settings') (hdistinct : (settings.map k.key).Nodup) (base : C) :
    k.overlay base settings = k.overlay base settings' := by
  refine h.foldl_eq' (fun s hs t ht c => ?_) base
  by_cases hkey : k.key t = k.key s
  · rw [List.inj_on_of_nodup_map hdistinct ht hs hkey]
  · exact hcomm t s c hkey

namespace Written

theorem nodup_keys (h : k.Written settings members) : (settings.map k.key).Nodup := by
  induction h with
  | nil => exact .nil
  | cons _ hnew _ ih =>
    refine List.nodup_cons.mpr ⟨fun hmem => ?_, ih⟩
    obtain ⟨t, ht, hsame⟩ := List.mem_map.mp hmem
    exact hnew t ht hsame

theorem map_fst (h : k.Written settings members) : members.map Prod.fst = settings.map k.key := by
  induction h with
  | nil => rfl
  | cons _ _ _ ih => rw [List.map_cons, List.map_cons, ih]

theorem nodup_names (h : k.Written settings members) : (members.map Prod.fst).Nodup := by
  rw [h.map_fst]
  exact h.nodup_keys

/-- The keys of the members are known where those of all settings are. -/
theorem mem_keys {keys : List String} (hknown : ∀ s, k.key s ∈ keys)
    (h : k.Written settings members) : ∀ m ∈ members, m.1 ∈ keys := by
  intro m hm
  obtain ⟨s, -, hs⟩ := List.mem_map.mp (h.map_fst ▸ List.mem_map_of_mem hm)
  exact hs ▸ hknown s

theorem exists_value (h : k.Written settings members) : ∀ s ∈ settings, ∃ v, k.value s v := by
  induction h with
  | nil => nofun
  | @cons s v _ _ hvalue _ _ ih => exact List.forall_mem_cons.mpr ⟨⟨v, hvalue⟩, ih⟩

end Written

/-- Settings with different keys that have values can be written. -/
theorem exists_written (hdistinct : (settings.map k.key).Nodup)
    (hvalues : ∀ s ∈ settings, ∃ v, v.WellFormed ∧ k.value s v) :
    ∃ members, k.Written settings members ∧ (record members).WellFormed := by
  suffices h : ∃ members, k.Written settings members ∧ ∀ m ∈ members, m.2.WellFormed by
    obtain ⟨members, hwritten, hwell⟩ := h
    exact ⟨members, hwritten, wellFormed_record hwell⟩
  induction settings with
  | nil => exact ⟨[], .nil, nofun⟩
  | cons s rest ih =>
    obtain ⟨hnew, hrest⟩ := List.nodup_cons.mp hdistinct
    obtain ⟨⟨v, hv, hvalue⟩, hothers⟩ := List.forall_mem_cons.mp hvalues
    obtain ⟨members, hwritten, hwell⟩ := ih hrest hothers
    refine ⟨(k.key s, v) :: members, .cons hvalue (fun t ht hsame => hnew ?_) hwritten,
      List.forall_mem_cons.mpr ⟨hv, hwell⟩⟩
    exact hsame ▸ List.mem_map_of_mem ht

end SettingKind

/-! ## Objects that are refused -/

/-- A member of an object has no known key, or some key stands twice. -/
def Misnamed (keys : List String) (members : List (Option String × Json)) : Prop :=
  (∃ m ∈ members, ∀ key ∈ keys, m.1 ≠ some key) ∨ ∃ key, 1 < occurrences key members

theorem Misnamed.not_hasFields {keys : List String} {members : List (Option String × Json)}
    (h : Misnamed keys members) :
    ¬ HasFields keys true members := by
  intro hfields
  have hknown : ∀ m ∈ members, ∃ key ∈ keys, m.1 = some key := by
    intro m hm
    obtain ⟨key, hkey, hmem⟩ := hfields.named m hm
    exact ⟨key, hmem rfl, hkey⟩
  rcases h with ⟨m, hm, hunknown⟩ | ⟨key, htwice⟩
  · obtain ⟨key, hkey, hm'⟩ := hknown m hm
    exact hunknown key hkey hm'
  · -- A key that stands somewhere is a known one, and these stand once.
    obtain ⟨m, hm, hmkey⟩ := List.countP_pos_iff.mp (Nat.zero_lt_of_lt htwice)
    obtain ⟨key', hkey', hm'⟩ := hknown m hm
    obtain rfl : key' = key := by simpa [hm'] using hmkey
    exact absurd (hfields.once key' hkey') (Nat.not_le_of_lt htwice)

theorem Misnamed.fields?_eq_none {keys : List String} {members : List (Option String × Json)}
    (h : Misnamed keys members) :
    fields? keys true (.object members) = none := by
  cases hfields : fields? keys true (.object members) with
  | none => rfl
  | some values => exact absurd (fields?_object.mp hfields).1 h.not_hasFields

end Json

end LedgerBench
