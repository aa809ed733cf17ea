/-
Values that differ in their texts.

Two evaluations of the same statements may put different texts into their
values: the identifiers of components, the address of a file. Their values are
the same up to which text stands for which (`Json.Similar`). Nothing that is
done with variables looks into a text: looking up, assigning and inheriting
treat similar variables alike.
-/
import Courseware.Resource.Basic

namespace Courseware

namespace Json

mutual

/-- **Whether two values are the same up to the texts in them**, each of which stands for the one at
its place in the other value. -/
inductive Similar (texts : String → String → Prop) : Json → Json → Prop
  | null : Similar texts .null .null
  | bool (b : Bool) : Similar texts (.bool b) (.bool b)
  | int (i : Int) : Similar texts (.int i) (.int i)
  | float (negative : Bool) (m : Magnitude) : Similar texts (.float negative m) (.float negative m)
  | str {text text' : String} (h : texts text text') : Similar texts (.str text) (.str text')
  | arr {items items' : List Json} (h : ItemsSimilar texts items items') :
      Similar texts (.arr items) (.arr items')
  | obj {entries entries' : List (String × Json)} (h : EntriesSimilar texts entries entries') :
      Similar texts (.obj entries) (.obj entries')

inductive ItemsSimilar (texts : String → String → Prop) : List Json → List Json → Prop
  | nil : ItemsSimilar texts [] []
  | cons {v v' : Json} {items items' : List Json} (hv : Similar texts v v')
      (h : ItemsSimilar texts items items') : ItemsSimilar texts (v :: items) (v' :: items')

inductive EntriesSimilar (texts : String → String → Prop) :
    List (String × Json) → List (String × Json) → Prop
  | nil : EntriesSimilar texts [] []
  | cons {key : String} {v v' : Json} {entries entries' : List (String × Json)}
      (hv : Similar texts v v') (h : EntriesSimilar texts entries entries') :
      EntriesSimilar texts ((key, v) :: entries) ((key, v') :: entries')

end

variable {texts : String → String → Prop}

mutual

/-- A value is similar to itself if each text may stand for itself. -/
theorem similar_refl (h : ∀ text, texts text text) : ∀ v : Json, Similar texts v v
  | .null => .null
  | .bool b => .bool b
  | .int i => .int i
  | .float negative m => .float negative m
  | .str text => .str (h text)
  | .arr items => .arr (itemsSimilar_refl h items)
  | .obj entries => .obj (entriesSimilar_refl h entries)

theorem itemsSimilar_refl (h : ∀ text, texts text text) :
    ∀ items : List Json, ItemsSimilar texts items items
  | [] => .nil
  | v :: items => .cons (similar_refl h v) (itemsSimilar_refl h items)

theorem entriesSimilar_refl (h : ∀ text, texts text text) :
    ∀ entries : List (String × Json), EntriesSimilar texts entries entries
  | [] => .nil
  | (_, v) :: entries => .cons (similar_refl h v) (entriesSimilar_refl h entries)

end

end Json

namespace Json

variable {texts texts' : String → String → Prop}

mutual

/-- Values that are similar stay so if more texts may stand for one another. -/
theorem Similar.imp (himp : ∀ text text', texts text text' → texts' text text') :
    ∀ {v v' : Json}, Similar texts v v' → Similar texts' v v'
  | _, _, .null => .null
  | _, _, .bool b => .bool b
  | _, _, .int i => .int i
  | _, _, .float negative m => .float negative m
  | _, _, .str h => .str (himp _ _ h)
  | _, _, .arr h => .arr (h.imp himp)
  | _, _, .obj h => .obj (h.imp himp)

theorem ItemsSimilar.imp (himp : ∀ text text', texts text text' → texts' text text') :
    ∀ {items items' : List Json}, ItemsSimilar texts items items' → ItemsSimilar texts' items items'
  | _, _, .nil => .nil
  | _, _, .cons hv h => .cons (hv.imp himp) (h.imp himp)

theorem EntriesSimilar.imp (himp : ∀ text text', texts text text' → texts' text text') :
    ∀ {entries entries' : List (String × Json)}, EntriesSimilar texts entries entries' →
      EntriesSimilar texts' entries entries'
  | _, _, .nil => .nil
  | _, _, .cons hv h => .cons (hv.imp himp) (h.imp himp)

end

end Json

open Json

variable {texts : String → String → Prop}

/-! ## Looking up -/

/-- What comes after related values, or after none, is related if it is after any two. -/
theorem rel_bind {α β : Type} {r : α → α → Prop} {q : β → β → Prop} {a b : Option α}
    {f g : α → Option β} (h : Option.Rel r a b) (hfg : ∀ x y, r x y → Option.Rel q (f x) (g y)) :
    Option.Rel q (a.bind f) (b.bind g) := by
  cases h with
  | some h => exact hfg _ _ h
  | none => exact .none

/-- A key has similar values, or none in both. -/
theorem get?_similar {entries entries' : Dict Json} (h : EntriesSimilar texts entries entries')
    (k : String) :
    Option.Rel (Similar texts) (Dict.get? entries k) (Dict.get? entries' k) := by
  induction entries generalizing entries' with
  | nil =>
    cases h
    exact .none
  | cons entry entries ih =>
    cases h with
    | cons hv h =>
      simp only [Dict.get?]
      split
      · exact .some hv
      · exact ih h

theorem hasKey_similar {entries entries' : Dict Json} (h : EntriesSimilar texts entries entries')
    (k : String) : Dict.hasKey entries' k = Dict.hasKey entries k := by
  have hget := get?_similar h k
  unfold Dict.hasKey
  generalize Dict.get? entries k = found, Dict.get? entries' k = found' at hget ⊢
  cases hget <;> rfl

theorem getElem?_similar {items items' : List Json} (h : ItemsSimilar texts items items')
    (i : Nat) : Option.Rel (Similar texts) items[i]? items'[i]? := by
  induction items generalizing items' i with
  | nil =>
    cases h
    exact .none
  | cons item items ih =>
    cases h with
    | cons hv h =>
      cases i with
      | zero => exact .some hv
      | succ i => exact ih h i

namespace Variables

theorem descend_similar (way : List String) : ∀ (v v' : Json), Similar texts v v' →
    Option.Rel (Similar texts) (descend way v) (descend way v') := by
  induction way with
  | nil => exact fun _ _ h => .some h
  | cons segment way ih =>
    intro v v' h
    cases h with
    | arr h =>
      simp only [descend]
      cases index? segment with
      | none => exact .none
      | some i =>
        simp only [Option.bind_some]
        exact rel_bind (getElem?_similar h i) ih
    | obj h => exact rel_bind (get?_similar h segment) ih
    | _ => exact .none

/-- **A name has similar values in similar variables**, or none in both. -/
theorem lookup_similar {vars vars' : Variables} (h : EntriesSimilar texts vars vars')
    (name : String) : Option.Rel (Similar texts) (vars.lookup name) (vars'.lookup name) := by
  have hwhole := get?_similar h name
  unfold lookup
  generalize Dict.get? vars name = found, Dict.get? vars' name = found' at hwhole ⊢
  cases hwhole with
  | some hv => exact .some hv
  | none =>
    cases segments name with
    | nil => exact .none
    | cons start way => exact rel_bind (get?_similar h start) (descend_similar way)

/-! ## Assigning -/

theorem insert_similar {vars vars' : Variables} (h : EntriesSimilar texts vars vars')
    (k : String) {v v' : Json} (hv : Similar texts v v') :
    EntriesSimilar texts (Dict.insert vars k v) (Dict.insert vars' k v') := by
  induction vars generalizing vars' with
  | nil =>
    cases h
    exact .cons hv .nil
  | cons entry vars ih =>
    cases h with
    | cons hw h =>
      simp only [Dict.insert]
      split
      · exact .cons hv h
      · exact .cons hw (ih h)

/-- What is made of variables, one after another, is similar if each of them makes it so. -/
theorem foldl_similar {step step' : Variables → String × Json → Variables}
    (hstep : ∀ (key : String) {v v' : Json} {vars vars' : Variables}, Similar texts v v' →
      EntriesSimilar texts vars vars' →
        EntriesSimilar texts (step vars (key, v)) (step' vars' (key, v')))
    {parent parent' vars vars' : Variables} (hparent : EntriesSimilar texts parent parent')
    (h : EntriesSimilar texts vars vars') :
    EntriesSimilar texts (parent.foldl step vars) (parent'.foldl step' vars') := by
  induction parent generalizing parent' vars vars' with
  | nil =>
    cases hparent
    exact h
  | cons entry parent ih =>
    cases hparent with
    | cons hv hparent =>
      rw [List.foldl_cons, List.foldl_cons]
      exact ih hparent (hstep _ hv h)

/-- Whether two assignments come out similar: with similar variables, or blocked in the same way. -/
inductive OutcomesSimilar {ε : Type} (texts : String → String → Prop) :
    Except ε Variables → Except ε Variables → Prop
  | ok {vars vars' : Variables} (h : EntriesSimilar texts vars vars') :
      OutcomesSimilar texts (.ok vars) (.ok vars')
  | error (e : ε) : OutcomesSimilar texts (.error e) (.error e)

theorem put_similar {v v' : Json} (hv : Similar texts v v') :
    ∀ (way : List String) {vars vars' : Variables}, EntriesSimilar texts vars vars' →
      OutcomesSimilar texts (put v way vars) (put v' way vars')
  | [], _, _, h => .ok h
  | [key], _, _, h => .ok (insert_similar h key hv)
  | key :: next :: rest, vars, vars', h => by
    have hkey := get?_similar h key
    rw [put, put]
    generalize Dict.get? vars key = found, Dict.get? vars' key = found' at hkey ⊢
    cases hkey with
    | none =>
      have hnew : OutcomesSimilar texts (put v (next :: rest) []) (put v' (next :: rest) []) :=
        put_similar hv (next :: rest) .nil
      generalize put v (next :: rest) [] = made, put v' (next :: rest) [] = made' at hnew ⊢
      cases hnew with
      | ok hinner => exact .ok (insert_similar h key (.obj hinner))
      | error way => exact .error way
    | some hw =>
      cases hw with
      | obj hinner =>
        have hput := put_similar hv (next :: rest) hinner
        dsimp only
        generalize put v (next :: rest) _ = made, put v' (next :: rest) _ = made' at hput ⊢
        cases hput with
        | ok hinner => exact .ok (insert_similar h key (.obj hinner))
        | error way => exact .error (key :: way)
      | _ => exact .error [key]

theorem assign_similar {vars vars' : Variables} (h : EntriesSimilar texts vars vars')
    (name : String) {v v' : Json} (hv : Similar texts v v') :
    OutcomesSimilar texts (vars.assign name v) (vars'.assign name v') := by
  have hput := put_similar hv (segments name) h
  unfold assign
  generalize put v (segments name) vars = made, put v' (segments name) vars' = made' at hput ⊢
  cases hput with
  | ok h => exact .ok h
  | error way => exact .error _

end Variables

/-! ## Resources -/

namespace Resource

variable {r r' : Resource}

/-- **Similar values can be assigned to the same names** of resources with similar variables, and
are blocked in the same way. -/
theorem assign_similar (hvars : EntriesSimilar texts r.vars r'.vars)
    (hown : EntriesSimilar texts r.own r'.own) (name : String) {v v' : Json}
    (hv : Similar texts v v') :
    EntriesSimilar texts (r.assign name v).1.vars (r'.assign name v').1.vars ∧
      EntriesSimilar texts (r.assign name v).1.own (r'.assign name v').1.own ∧
      (r'.assign name v').2 = (r.assign name v).2 := by
  have hassigned := Variables.assign_similar hvars name hv
  have hassigned' := Variables.assign_similar hown name hv
  unfold assign
  generalize r.vars.assign name v = vars, r'.vars.assign name v' = vars' at hassigned ⊢
  cases hassigned with
  | error blocked => exact ⟨hvars, hown, rfl⟩
  | ok hvars =>
    generalize r.own.assign name v = own, r'.own.assign name v' = own' at hassigned' ⊢
    cases hassigned' with
    | error blocked => exact ⟨hvars, hown, rfl⟩
    | ok hown => exact ⟨hvars, hown, rfl⟩

/-- Similar variables can be inherited by resources with similar variables. -/
theorem inherit_similar (hvars : EntriesSimilar texts r.vars r'.vars)
    (hown : EntriesSimilar texts r.own r'.own) {parent parent' : Variables}
    (hparent : EntriesSimilar texts parent parent') :
    EntriesSimilar texts (r.inherit parent).vars (r'.inherit parent').vars := by
  refine Variables.foldl_similar (fun key _ _ _ _ hv hvars => ?_) hparent hvars
  dsimp only
  rw [hasKey_similar hown key]
  split
  · exact hvars
  · exact Variables.insert_similar hvars key hv

end Resource

end Courseware
