/-
Which key an assignment touches.

A dotted name starts with a key of the variables, and an assignment to it
gives that key a value and leaves every other one (`assign_eq_ok`). A key is
never dotted itself, and to one that stands alone everything can be assigned.
-/
import Courseware.Proofs.Variables.PartOf

namespace Courseware

/-! ## Segments -/

namespace Text

/-- No part holds the separator. -/
theorem not_mem_of_mem_split {separator : Char} {cs part : List Char}
    (h : part ∈ split separator cs) : separator ∉ part := by
  induction cs generalizing part with
  | nil =>
    rw [split, List.mem_singleton] at h
    simp [h]
  | cons c cs ih =>
    rw [split] at h
    split at h
    · rcases List.mem_cons.mp h with rfl | h
      · exact List.not_mem_nil
      · exact ih h
    · next hc =>
      split at h
      · rw [List.mem_singleton] at h
        rw [h, List.mem_singleton]
        exact fun heq => hc heq.symm
      · next first rest hsplit =>
        rcases List.mem_cons.mp h with rfl | h
        · have hfirst : separator ∉ first := ih (hsplit ▸ List.mem_cons_self)
          simp only [List.mem_cons, hfirst, or_false]
          exact fun heq => hc heq.symm
        · exact ih (hsplit ▸ List.mem_cons_of_mem _ h)

/-- A text without the separator is its only part. -/
theorem split_eq_singleton {separator : Char} {cs : List Char} (h : separator ∉ cs) :
    split separator cs = [cs] := by
  induction cs with
  | nil => rfl
  | cons c cs ih =>
    rw [List.mem_cons, not_or] at h
    obtain ⟨hc, hcs⟩ := h
    rw [split, if_neg (Ne.symm hc), ih hcs]

end Text

namespace Variables

theorem segments_ne_nil (name : String) : segments name ≠ [] := by
  simp [segments, Text.parts]

/-- The name of a single key has no dot. -/
theorem not_mem_of_mem_segments {name segment : String} (h : segment ∈ segments name) :
    '.' ∉ segment.toList := by
  obtain ⟨part, hpart, rfl⟩ := List.mem_map.mp h
  rw [String.toList_ofList]
  exact Text.not_mem_of_mem_split hpart

theorem segments_undotted {name : String} (h : '.' ∉ name.toList) : segments name = [name] := by
  simp [segments, Text.parts, Text.split_eq_singleton h]

/-! ## Assignments -/

theorem put_eq_ok {value : Json} {key : String} {rest : List String} {vars vars' : Variables}
    (h : put value (key :: rest) vars = .ok vars') : ∃ v, vars' = Dict.insert vars key v := by
  cases rest with
  | nil =>
    cases h
    exact ⟨value, rfl⟩
  | cons next rest =>
    obtain ⟨entries, entries', -, -, hvars⟩ := put_eq_ok_iff.mp h
    exact ⟨.obj entries', hvars⟩

/-- **An assignment gives the first key of its name a value**, and leaves every other key. -/
theorem assign_eq_ok {vars vars' : Variables} {name : String} {value : Json}
    (h : vars.assign name value = .ok vars') :
    ∃ key v, (segments name).head? = some key ∧ vars' = Dict.insert vars key v := by
  cases hseg : segments name with
  | nil => exact absurd hseg (segments_ne_nil name)
  | cons key rest =>
    have hput := assign_eq_ok_iff.mp h
    rw [hseg] at hput
    obtain ⟨v, hv⟩ := put_eq_ok hput
    exact ⟨key, v, rfl, hv⟩

theorem get?_assign_other {vars vars' : Variables} {name k : String} {value : Json}
    (h : vars.assign name value = .ok vars') (hk : (segments name).head? ≠ some k) :
    Dict.get? vars' k = Dict.get? vars k := by
  obtain ⟨key, v, hkey, rfl⟩ := assign_eq_ok h
  refine Dict.get?_insert_other vars v fun heq => hk ?_
  rw [hkey, heq]

theorem assign_undotted (vars : Variables) {k : String} (h : '.' ∉ k.toList) (value : Json) :
    vars.assign k value = .ok (Dict.insert vars k value) := by
  rw [assign_eq_ok_iff, segments_undotted h]
  rfl

end Variables

namespace Dict

variable {α : Type}

/-! ## Distinct keys -/

theorem keys_nodup_insert {d : Dict α} (h : d.keys.Nodup) (k : String) (v : α) :
    (insert d k v).keys.Nodup := by
  rw [keys_insert]
  split
  · exact h
  · next hk =>
    refine List.nodup_append.mpr ⟨h, by simp, fun a ha b hb heq => hk ?_⟩
    rw [List.mem_singleton] at hb
    rw [← hb, ← heq]
    exact ha

/-- A new key goes to the end. -/
theorem insert_of_not_mem {d : Dict α} {k : String} (h : k ∉ d.keys) (v : α) :
    insert d k v = d ++ [(k, v)] := by
  induction d with
  | nil => rfl
  | cons entry d ih =>
    obtain ⟨key, w⟩ := entry
    rw [keys, List.map_cons, List.mem_cons, not_or] at h
    rw [insert, if_neg (Ne.symm h.1), ih h.2]
    rfl

theorem get?_eq_none_of_not_mem {d : Dict α} {k : String} (h : k ∉ d.keys) : get? d k = none := by
  cases hget : get? d k with
  | none => rfl
  | some v => exact absurd (List.mem_map_of_mem (mem_of_get?_eq_some hget)) h

end Dict

end Courseware
