/-
Values that differ in the identifiers of their components.

An identifier is drawn from a number that is counted up, so two evaluations of
the same statements that start counting at different numbers give values that
are the same except for the identifiers (`Json.Alike`). Where the two start at the
same number, alike values are equal (`Json.Alike.eq`). Alike values are values that
are similar, where an identifier may stand for the one at the same distance
(`Json.alike_eq`), so what treats similar variables alike does so with these.
-/
import Courseware.Identifier
import Courseware.Proofs.Variables.Similar

namespace Courseware

namespace Json

mutual

/-- **Whether two values are the same except for the identifiers in them**, which are those of
numbers at the same distance from two first ones. -/
inductive Alike (first first' : Nat) : Json → Json → Prop
  | null : Alike first first' .null .null
  | bool (b : Bool) : Alike first first' (.bool b) (.bool b)
  | int (i : Int) : Alike first first' (.int i) (.int i)
  | float (negative : Bool) (m : Magnitude) :
      Alike first first' (.float negative m) (.float negative m)
  | str (s : String) : Alike first first' (.str s) (.str s)
  | identifier (distance : Nat) :
      Alike first first' (.str (Identifier.ofNat (first + distance)))
        (.str (Identifier.ofNat (first' + distance)))
  | arr {items items' : List Json} (h : ItemsAlike first first' items items') :
      Alike first first' (.arr items) (.arr items')
  | obj {entries entries' : List (String × Json)} (h : EntriesAlike first first' entries entries') :
      Alike first first' (.obj entries) (.obj entries')

inductive ItemsAlike (first first' : Nat) : List Json → List Json → Prop
  | nil : ItemsAlike first first' [] []
  | cons {v v' : Json} {items items' : List Json} (hv : Alike first first' v v')
      (h : ItemsAlike first first' items items') :
      ItemsAlike first first' (v :: items) (v' :: items')

inductive EntriesAlike (first first' : Nat) : List (String × Json) → List (String × Json) → Prop
  | nil : EntriesAlike first first' [] []
  | cons {key : String} {v v' : Json} {entries entries' : List (String × Json)}
      (hv : Alike first first' v v') (h : EntriesAlike first first' entries entries') :
      EntriesAlike first first' ((key, v) :: entries) ((key, v') :: entries')

end

variable {first first' : Nat}

mutual

theorem alike_refl : ∀ v : Json, Alike first first' v v
  | .null => .null
  | .bool b => .bool b
  | .int i => .int i
  | .float negative m => .float negative m
  | .str s => .str s
  | .arr items => .arr (itemsAlike_refl items)
  | .obj entries => .obj (entriesAlike_refl entries)

theorem itemsAlike_refl : ∀ items : List Json, ItemsAlike first first' items items
  | [] => .nil
  | v :: items => .cons (alike_refl v) (itemsAlike_refl items)

theorem entriesAlike_refl : ∀ entries : List (String × Json),
    EntriesAlike first first' entries entries
  | [] => .nil
  | (_, v) :: entries => .cons (alike_refl v) (entriesAlike_refl entries)

end

mutual

/-- Alike values whose identifiers are counted from one number are equal. -/
theorem Alike.eq : ∀ {v v' : Json}, Alike first first v v' → v = v'
  | _, _, .null | _, _, .bool _ | _, _, .int _ | _, _, .float _ _ | _, _, .str _
  | _, _, .identifier _ => rfl
  | _, _, .arr h => congrArg Json.arr h.eq
  | _, _, .obj h => congrArg Json.obj h.eq

theorem ItemsAlike.eq : ∀ {items items' : List Json}, ItemsAlike first first items items' →
    items = items'
  | _, _, .nil => rfl
  | _, _, .cons hv h => by rw [hv.eq, h.eq]

theorem EntriesAlike.eq : ∀ {entries entries' : List (String × Json)},
    EntriesAlike first first entries entries' → entries = entries'
  | _, _, .nil => rfl
  | _, _, .cons hv h => by rw [hv.eq, h.eq]

end

/-- Whether two texts are the same, or identifiers of numbers at the same distance from two first
ones. -/
def SameText (first first' : Nat) (text text' : String) : Prop :=
  text = text' ∨ ∃ distance,
    text = Identifier.ofNat (first + distance) ∧ text' = Identifier.ofNat (first' + distance)

theorem SameText.alike {text text' : String} (h : SameText first first' text text') :
    Alike first first' (.str text) (.str text') := by
  rcases h with rfl | ⟨distance, rfl, rfl⟩
  · exact .str text
  · exact .identifier distance

mutual

theorem Alike.similar : ∀ {v v' : Json}, Alike first first' v v' →
    Similar (SameText first first') v v'
  | _, _, .null => .null
  | _, _, .bool b => .bool b
  | _, _, .int i => .int i
  | _, _, .float negative m => .float negative m
  | _, _, .str _ => .str (.inl rfl)
  | _, _, .identifier distance => .str (.inr ⟨distance, rfl, rfl⟩)
  | _, _, .arr h => .arr h.similar
  | _, _, .obj h => .obj h.similar

theorem ItemsAlike.similar : ∀ {items items' : List Json}, ItemsAlike first first' items items' →
    ItemsSimilar (SameText first first') items items'
  | _, _, .nil => .nil
  | _, _, .cons hv h => .cons hv.similar h.similar

theorem EntriesAlike.similar : ∀ {entries entries' : List (String × Json)},
    EntriesAlike first first' entries entries' →
      EntriesSimilar (SameText first first') entries entries'
  | _, _, .nil => .nil
  | _, _, .cons hv h => .cons hv.similar h.similar

end

mutual

theorem Similar.alike : ∀ {v v' : Json}, Similar (SameText first first') v v' →
    Alike first first' v v'
  | _, _, .null => .null
  | _, _, .bool b => .bool b
  | _, _, .int i => .int i
  | _, _, .float negative m => .float negative m
  | _, _, .str h => h.alike
  | _, _, .arr h => .arr h.alike
  | _, _, .obj h => .obj h.alike

theorem ItemsSimilar.alike : ∀ {items items' : List Json},
    ItemsSimilar (SameText first first') items items' → ItemsAlike first first' items items'
  | _, _, .nil => .nil
  | _, _, .cons hv h => .cons hv.alike h.alike

theorem EntriesSimilar.alike : ∀ {entries entries' : List (String × Json)},
    EntriesSimilar (SameText first first') entries entries' →
      EntriesAlike first first' entries entries'
  | _, _, .nil => .nil
  | _, _, .cons hv h => .cons hv.alike h.alike

end

/-- **Alike values are similar ones** with other identifiers. -/
theorem alike_eq : Alike first first' = Similar (SameText first first') :=
  funext fun _ => funext fun _ => propext ⟨Alike.similar, Similar.alike⟩

end Json

open Json

variable {first first' : Nat}

namespace Variables

/-- **A name has alike values in alike variables**, or none in both. -/
theorem lookup_alike {vars vars' : Variables} (h : EntriesAlike first first' vars vars')
    (name : String) : Option.Rel (Alike first first') (vars.lookup name) (vars'.lookup name) := by
  rw [alike_eq]
  exact lookup_similar h.similar name

end Variables

end Courseware
