/-
Values and variables that are part of others.

A value is part of another one if it is an object and the other one is one
with more in it, at any depth, and equal to it otherwise. Assigning the same
value to the same name on both sides keeps that (`PartOf.put`), and where the
larger side can be assigned to, the smaller one can. This is what holds the
two dictionaries of a resource together: its own variables are part of all.
-/
import Courseware.Variables

namespace Courseware

namespace Dict

variable {α : Type}

theorem mem_of_get?_eq_some {d : Dict α} {k : String} {v : α} (h : get? d k = some v) :
    (k, v) ∈ d := by
  induction d with
  | nil => cases h
  | cons entry entries ih =>
    obtain ⟨key, value⟩ := entry
    by_cases hk : key = k
    · simp only [get?, hk, if_true, Option.some.injEq] at h
      simp [hk, h]
    · simp only [get?, hk, if_false] at h
      exact List.mem_cons_of_mem _ (ih h)

theorem get?_insert (d : Dict α) (k k' : String) (v : α) :
    get? (insert d k v) k' = if k' = k then some v else get? d k' := by
  by_cases h : k' = k
  · subst h; simp [get?_insert_self]
  · simp [get?_insert_other d v h, h]

end Dict

theorem Json.sizeOf_lt_of_get? {entries : Dict Json} {k : String} {v : Json}
    (h : Dict.get? entries k = some v) : sizeOf v < sizeOf (Json.obj entries) := by
  have hmem := List.sizeOf_lt_of_mem (Dict.mem_of_get?_eq_some h)
  simp only [Prod.mk.sizeOf_spec, Json.obj.sizeOf_spec] at hmem ⊢
  omega

/-- **Whether a value is part of another one.** Of two objects, every key of the first is one of
the second, and its value is part of the value there; any other two values are equal. -/
def Json.PartOf : Json → Json → Prop
  | .obj entries, .obj others =>
    ∀ k v, (_h : Dict.get? entries k = some v) → ∃ w, Dict.get? others k = some w ∧ v.PartOf w
  | a, b => a = b
termination_by a => sizeOf a
decreasing_by exact Json.sizeOf_lt_of_get? _h

/-- Whether every variable has a value elsewhere that its own is part of. -/
def Variables.PartOf (vars others : Variables) : Prop :=
  ∀ k v, Dict.get? vars k = some v → ∃ w, Dict.get? others k = some w ∧ v.PartOf w

namespace Json

theorem partOf_obj {entries others : Dict Json} :
    (Json.obj entries).PartOf (.obj others) ↔ Variables.PartOf entries others := by
  rw [PartOf]
  rfl

/-- Only an object is part of an object. -/
theorem PartOf.exists_obj {v : Json} {others : Dict Json} (h : v.PartOf (.obj others)) :
    ∃ entries, v = .obj entries ∧ Variables.PartOf entries others := by
  cases v with
  | obj entries => exact ⟨entries, rfl, partOf_obj.mp h⟩
  | _ => simp [PartOf] at h

@[simp] theorem partOf_refl (v : Json) : v.PartOf v := by
  match v with
  | .obj entries =>
    rw [PartOf]
    exact fun k v h => ⟨v, h, partOf_refl v⟩
  | .null | .bool _ | .int _ | .float _ _ | .str _ | .arr _ => rw [PartOf]; simp
termination_by sizeOf v
decreasing_by exact sizeOf_lt_of_get? h

end Json

namespace Variables

@[simp] theorem partOf_refl (vars : Variables) : vars.PartOf vars :=
  fun _ v h => ⟨v, h, v.partOf_refl⟩

@[simp] theorem nil_partOf (vars : Variables) : PartOf [] vars := fun _ _ h => by cases h

theorem PartOf.insert {vars others : Variables} (h : vars.PartOf others) (k : String)
    {v w : Json} (hv : v.PartOf w) : PartOf (Dict.insert vars k v) (Dict.insert others k w) := by
  intro k' v' h'
  rw [Dict.get?_insert] at h' ⊢
  by_cases hk : k' = k
  · simp only [hk, if_true, Option.some.injEq] at h' ⊢
    subst h'
    exact ⟨w, rfl, hv⟩
  · simp only [hk, if_false] at h' ⊢
    exact h k' v' h'

/-- The entries that an assignment below a key goes into: those of an object, or none yet. -/
def entriesBelow? (vars : Variables) (key : String) : Option (Dict Json) :=
  match Dict.get? vars key with
  | none => some []
  | some (.obj entries) => some entries
  | some _ => none

/-- An assignment below a key replaces the object there. -/
theorem put_eq_ok_iff {value : Json} {key next : String} {rest : List String}
    {vars vars' : Variables} : put value (key :: next :: rest) vars = .ok vars' ↔
      ∃ entries entries', entriesBelow? vars key = some entries ∧
        put value (next :: rest) entries = .ok entries' ∧
        vars' = Dict.insert vars key (.obj entries') := by
  rw [put, entriesBelow?]
  cases hget : Dict.get? vars key with
  | none => cases hput : put value (next :: rest) [] <;> simp [Except.map, hput, eq_comm]
  | some v =>
    cases v with
    | obj entries => cases hput : put value (next :: rest) entries <;> simp [hput, eq_comm]
    | _ => simp

/-- Part of some variables has part of the entries below each key. -/
theorem PartOf.entriesBelow? {vars others : Variables} (h : vars.PartOf others) {key : String}
    {entries : Dict Json} (hbelow : others.entriesBelow? key = some entries) :
    ∃ part, vars.entriesBelow? key = some part ∧ PartOf part entries := by
  unfold Variables.entriesBelow? at hbelow ⊢
  cases hv : Dict.get? vars key with
  | none => exact ⟨[], rfl, nil_partOf entries⟩
  | some v =>
    obtain ⟨w, hw, hvw⟩ := h key v hv
    rw [hw] at hbelow
    -- only an object can be gone into, and what is part of one is an object
    cases w with
    | obj others =>
      cases hbelow
      obtain ⟨part, rfl, hpart⟩ := hvw.exists_obj
      exact ⟨part, rfl, hpart⟩
    | _ => cases hbelow

/-- **What can be assigned to all variables can be assigned to part of them**, and a part
remains. -/
theorem PartOf.put {value : Json} {way : List String} {vars others others' : Variables}
    (h : vars.PartOf others) (hput : put value way others = .ok others') :
    ∃ vars', Variables.put value way vars = .ok vars' ∧ PartOf vars' others' := by
  match way with
  | [] =>
    cases hput
    exact ⟨vars, rfl, h⟩
  | [key] =>
    cases hput
    exact ⟨_, rfl, h.insert key (Json.partOf_refl value)⟩
  | key :: next :: rest =>
    obtain ⟨entries, entries', hbelow, hinner, rfl⟩ := put_eq_ok_iff.mp hput
    obtain ⟨part, hpart, hle⟩ := h.entriesBelow? hbelow
    obtain ⟨part', hput', hle'⟩ := PartOf.put hle hinner
    have hvars := put_eq_ok_iff.mpr ⟨part, part', hpart, hput', rfl⟩
    exact ⟨_, hvars, h.insert key (Json.partOf_obj.mpr hle')⟩

theorem assign_eq_ok_iff {vars vars' : Variables} {name : String} {value : Json} :
    vars.assign name value = .ok vars' ↔ put value (segments name) vars = .ok vars' := by
  unfold assign
  cases put value (segments name) vars <;> simp

theorem PartOf.assign {vars others others' : Variables} (h : vars.PartOf others) {name : String}
    {value : Json} (hassign : others.assign name value = .ok others') :
    ∃ vars', vars.assign name value = .ok vars' ∧ PartOf vars' others' := by
  obtain ⟨vars', hput, hpart⟩ := h.put (assign_eq_ok_iff.mp hassign)
  exact ⟨vars', assign_eq_ok_iff.mpr hput, hpart⟩

/-- Variables that differ only in what is not part of them have the same part. -/
theorem PartOf.of_get?_eq {vars others others' : Variables} (h : vars.PartOf others)
    (heq : ∀ k, Dict.hasKey vars k = true → Dict.get? others' k = Dict.get? others k) :
    vars.PartOf others' := by
  intro k v hv
  rw [heq k (by simp [Dict.hasKey, hv])]
  exact h k v hv

end Variables

end Courseware
