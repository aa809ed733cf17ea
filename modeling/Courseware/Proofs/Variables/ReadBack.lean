/-
What was assigned is what is looked up.

Looking up prefers a key that is the whole name, goes through arrays as well as
objects, and makes nothing; assigning does none of the first two and does the third.
Yet they agree on variables that were made by assigning and inheriting
(`Variables.Made`): no key of those is a dotted name, so a look-up goes down the
segments of the name in one way (`Variables.lookup_eq_descend`), and where an
assignment has gone down there are objects only. What is beside its way is not
touched (`Variables.descend_put_other`).
-/
import Courseware.Proofs.Variables.InPlace

namespace Courseware

namespace Variables

/-! ## Going down -/

theorem descend_cons (segment : String) (rest : List String) (entries : Dict Json) :
    descend (segment :: rest) (.obj entries) =
      (Dict.get? entries segment).bind (descend rest) := rfl

/-- **An assignment leads to its value.** -/
theorem descend_put_self {value : Json} : ∀ {way : List String} {entries entries' : Dict Json},
    way ≠ [] → put value way entries = .ok entries' → descend way (.obj entries') = some value
  | [], _, _, hway, _ => absurd rfl hway
  | [key], entries, _, _, hput => by
    cases hput
    simp [descend, Dict.get?_insert_self]
  | key :: next :: rest, entries, _, _, hput => by
    obtain ⟨inner, inner', -, hinner, rfl⟩ := put_eq_ok_iff.mp hput
    rw [descend_cons, Dict.get?_insert_self]
    exact descend_put_self (List.cons_ne_nil next rest) hinner

/-- What is below a key that an assignment goes through is below the object there, which is empty if
it was not there. -/
theorem descend_entriesBelow {vars : Variables} {key : String} {inner : Dict Json}
    (h : vars.entriesBelow? key = some inner) {way : List String} (hway : way ≠ []) :
    descend (key :: way) (.obj vars) = descend way (.obj inner) := by
  rw [descend_cons]
  unfold entriesBelow? at h
  split at h
  · next hget =>
    cases h
    obtain ⟨segment, rest, rfl⟩ := List.exists_cons_of_ne_nil hway
    rw [hget]
    rfl
  · next hget =>
    cases h
    rw [hget]
    rfl
  · cases h

/-- **An assignment leaves what is beside its way**: a way that is not below it, nor above it. -/
theorem descend_put_other {value : Json} : ∀ {way other : List String}
    {entries entries' : Dict Json}, ¬ way <+: other → ¬ other <+: way →
      put value way entries = .ok entries' →
        descend other (.obj entries') = descend other (.obj entries)
  | [], other, _, _, hbelow, _, _ => absurd (List.nil_prefix) hbelow
  | _ :: _, [], _, _, _, habove, _ => absurd (List.nil_prefix) habove
  | key :: way, key' :: other, entries, entries', hbelow, habove, hput => by
    by_cases hkey : key' = key
    · subst hkey
      rw [List.cons_prefix_cons, and_iff_right rfl] at hbelow habove
      have hother : other ≠ [] := fun h => habove (h ▸ List.nil_prefix)
      -- the assignment does not end at the key that both go through
      cases way with
      | nil => exact absurd List.nil_prefix hbelow
      | cons next rest =>
        obtain ⟨inner, inner', hentries, hinner, rfl⟩ := put_eq_ok_iff.mp hput
        rw [descend_cons, Dict.get?_insert_self, descend_entriesBelow hentries hother]
        exact descend_put_other hbelow habove hinner
    · obtain ⟨v, rfl⟩ := put_eq_ok hput
      rw [descend_cons, descend_cons, Dict.get?_insert_other entries v hkey]

/-! ## Names -/

/-- Whether no key is a dotted name. -/
def Undotted (vars : Variables) : Prop := ∀ key ∈ vars.keys, '.' ∉ key.toList

theorem Undotted.insert {vars : Variables} (h : vars.Undotted) {key : String}
    (hkey : '.' ∉ key.toList) (value : Json) : Undotted (Dict.insert vars key value) := by
  intro k hk
  rw [Dict.keys_insert] at hk
  split at hk
  · exact h k hk
  · rcases List.mem_append.mp hk with hk | hk
    · exact h k hk
    · rwa [List.mem_singleton.mp hk]

/-- **A look-up goes down the segments of the name**, where no key is a dotted name. -/
theorem lookup_eq_descend {vars : Variables} (h : vars.Undotted) (name : String) :
    vars.lookup name = descend (segments name) (.obj vars) := by
  unfold lookup
  by_cases hname : '.' ∈ name.toList
  · have hnone : Dict.get? vars name = none :=
      Dict.get?_eq_none_of_not_mem fun hmem => h name hmem hname
    rw [hnone]
    dsimp only
    cases hsegs : segments name with
    | nil => exact absurd hsegs (segments_ne_nil name)
    | cons first rest => rfl
  · rw [segments_undotted hname, descend_cons]
    cases hget : Dict.get? vars name with
    | none => simp [hget]
    | some v => rfl

/-! ## Variables that were made -/

/-- **Variables that were made from none** by assignments, those that are blocked included, and by
taking over entries of others. -/
inductive Made : Variables → Prop
  | empty : Made []
  | assigned {vars : Variables} (h : Made vars) (name : String) (value : Json) :
      Made (vars.assignInPlace name value).2
  | takenOver {vars others : Variables} (h : Made vars) (hothers : Made others) {key : String}
      {value : Json} (hentry : (key, value) ∈ others) : Made (Dict.insert vars key value)

theorem Made.assign {vars vars' : Variables} (h : Made vars) {name : String} {value : Json}
    (hassign : vars.assign name value = .ok vars') : Made vars' := by
  have hmade := h.assigned name value
  rwa [assignInPlace_eq, hassign] at hmade

theorem Undotted.assign {vars vars' : Variables} (h : vars.Undotted) {name : String} {value : Json}
    (hassign : vars.assign name value = .ok vars') : vars'.Undotted := by
  obtain ⟨key, v, hkey, rfl⟩ := assign_eq_ok hassign
  exact h.insert (not_mem_of_mem_segments (List.mem_of_head? hkey)) v

theorem Undotted.assignInPlace {vars : Variables} (h : vars.Undotted) (name : String)
    (value : Json) : (vars.assignInPlace name value).2.Undotted := by
  rw [assignInPlace_eq]
  cases hassign : vars.assign name value with
  | ok vars' => exact h.assign hassign
  | error blocked => exact h

theorem Made.undotted {vars : Variables} (h : Made vars) : vars.Undotted := by
  induction h with
  | empty => exact List.forall_mem_nil _
  | assigned _ name value ih => exact ih.assignInPlace name value
  | takenOver _ _ hentry ih ihothers =>
    exact ih.insert (ihothers _ (List.mem_map_of_mem hentry)) _

/-- **Variables read back what was assigned, and nothing else moves.** In variables that were made
from none no key is a dotted name. After an assignment the name has the value, and a name has the
value it had, or still none, if its segments do not begin with those of the assigned name nor those
with its own. -/
theorem Made.read_back {vars : Variables} (h : Made vars) :
    (∀ key ∈ vars.keys, '.' ∉ key.toList) ∧
    ∀ (name : String) (value : Json) (vars' : Variables), vars.assign name value = .ok vars' →
      vars'.lookup name = some value ∧
      ∀ other, ¬ segments name <+: segments other → ¬ segments other <+: segments name →
        vars'.lookup other = vars.lookup other := by
  refine ⟨h.undotted, fun name value vars' hassign => ?_⟩
  have hput := assign_eq_ok_iff.mp hassign
  have hundotted := h.undotted.assign hassign
  constructor
  · rw [lookup_eq_descend hundotted]
    exact descend_put_self (segments_ne_nil name) hput
  · intro other hbelow habove
    rw [lookup_eq_descend hundotted, lookup_eq_descend h.undotted]
    exact descend_put_other hbelow habove hput

/-- A number that was assigned, and beside it an object that was taken over. -/
def withInputs : Variables := [("x", .int 1), ("form", .obj [("items", .arr [.int 7])])]

theorem made_withInputs : Made withInputs := by
  have hform : Made [("form", .obj [("items", .arr [.int 7])])] := .assigned .empty "form" _
  have hx : Made [("x", .int 1)] := .assigned .empty "x" _
  exact hx.takenOver hform List.mem_cons_self

/-- Below an empty segment an object is made. The item of the array beside it is looked up as
before, though nothing can be assigned to it. -/
theorem Made.read_back_withInputs :
    Made withInputs ∧
    withInputs.assign "form.items.0" .null = .error ⟨"form.items.0", ["form", "items"]⟩ ∧
    ∃ vars', withInputs.assign "form..k" (.bool true) = .ok vars' ∧
      vars'.lookup "form..k" = some (.bool true) ∧
      vars'.lookup "form.items.+0" = some (.int 7) := by
  obtain ⟨-, hassigned⟩ := made_withInputs.read_back
  refine ⟨made_withInputs, rfl, _, rfl, ?_⟩
  obtain ⟨hvalue, hother⟩ := hassigned "form..k" (.bool true) _ rfl
  refine ⟨hvalue, ?_⟩
  rw [hother "form.items.+0" (by decide) (by decide)]
  rfl

end Variables

end Courseware
