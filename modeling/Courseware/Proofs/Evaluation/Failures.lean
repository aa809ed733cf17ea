/-
What resolving a value gives and what it reports.

The items and the entries of a value are resolved one after another, each in the
state that those before it leave behind (`outcomes`). An item that has no value
becomes `null` and an entry without one is dropped, so an array always comes to an
array and an object to an object.

Errors are returned at some places and recorded at others. What is returned and
what is recorded are together the failures of the atoms, from left to right, each
at the line of its atom: a value that opens no document reports each of them once
(`resolve_reports`). Whether an atom fails can be told from the state in front of
the whole value (`failure?`), since no atom changes what the others depend on.
-/
import Courseware.Library.Memory
import Courseware.Proofs.Evaluation.Points

namespace Courseware

namespace Value

mutual

/-- The atoms of a value from left to right, each with its line. -/
def leaves : Value → List (Nat × Atom)
  | .atom line a => [(line, a)]
  | .array _ items => itemLeaves items
  | .object _ entries => entryLeaves entries

def itemLeaves : List Value → List (Nat × Atom)
  | [] => []
  | item :: items => item.leaves ++ itemLeaves items

def entryLeaves : List (String × Value) → List (Nat × Atom)
  | [] => []
  | (_, v) :: entries => v.leaves ++ entryLeaves entries

end

end Value

namespace Evaluation

variable {ctx : Context} {deeper : Option Visit} {s t u : Evaluation}

/-! ## What a value comes to -/

/-- What some values come to, each in the state that those before it leave behind. -/
def outcomes (ctx : Context) (deeper : Option Visit) :
    List Value → Evaluation → List (Except Diagnostic Json)
  | [], _ => []
  | v :: vs, s =>
    (resolve ctx deeper v s).1 :: outcomes ctx deeper vs (settled (resolve ctx deeper v s))

@[simp] theorem length_outcomes (vs : List Value) (s : Evaluation) :
    (outcomes ctx deeper vs s).length = vs.length := by
  induction vs generalizing s with
  | nil => rfl
  | cons v vs ih => rw [outcomes, List.length_cons, List.length_cons, ih]

/-- An outcome is that of one value, in the state that the values before it leave behind. -/
theorem outcomes_append (before after : List Value) (s : Evaluation) :
    outcomes ctx deeper (before ++ after) s = outcomes ctx deeper before s ++
      outcomes ctx deeper after (resolveItems ctx deeper before s).2 := by
  induction before generalizing s with
  | nil => rfl
  | cons v before ih =>
    rw [List.cons_append, outcomes, outcomes, ih, resolveItems_cons, List.cons_append]

/-- The items that have a value, and `null` for the others. -/
def itemValues (outcomes : List (Except Diagnostic Json)) : List Json :=
  outcomes.map fun outcome => outcome.toOption.getD .null

/-- The entries that have a value. -/
def entryValues (keys : List String) (outcomes : List (Except Diagnostic Json)) : Dict Json :=
  (keys.zip outcomes).filterMap fun (key, outcome) => outcome.toOption.map fun value => (key, value)

theorem resolveItems_eq (items : List Value) (s : Evaluation) :
    (resolveItems ctx deeper items s).1 = itemValues (outcomes ctx deeper items s) := by
  induction items generalizing s with
  | nil => rfl
  | cons v items ih =>
    rw [resolveItems, outcomes, itemValues, List.map_cons]
    rcases resolve ctx deeper v s with ⟨d | json, t⟩ <;> exact congrArg (_ :: ·) (ih _)

theorem resolveEntries_eq (entries : List (String × Value)) (s : Evaluation) :
    (resolveEntries ctx deeper entries s).1 = entryValues (entries.map Prod.fst)
      (outcomes ctx deeper (entries.map Prod.snd) s) := by
  induction entries generalizing s with
  | nil => rfl
  | cons entry entries ih =>
    obtain ⟨key, v⟩ := entry
    rw [resolveEntries, List.map_cons, List.map_cons, outcomes, entryValues, List.zip_cons_cons]
    rcases resolve ctx deeper v s with ⟨d | json, t⟩
    · exact ih _
    · exact congrArg ((key, json) :: ·) (ih _)

/-! ## What a value reports -/

/-- Why an atom that opens no document has no value in a state, in words, if it has none. -/
def failure? (ctx : Context) (s : Evaluation) : Atom → Option String
  | .reference name =>
    match s.resource.get? name with
    | some _ => none
    | none => some ("Unresolved reference '" ++ name ++ "'")
  | .url path =>
    match ctx.library.locate (Path.resolve s.current path) s.resource.file.version with
    | .ok _ => none
    | .error e => some ("Cannot copy url of '" ++ path ++ "': " ++ e.display)
  | .content path =>
    match ctx.library.locate (Path.resolve s.current path) s.resource.file.version >>=
      ctx.library.content with
    | .ok _ => none
    | .error e => some ("Cannot copy content of '" ++ path ++ "': " ++ e.display)
  | _ => none

/-- The failures among some atoms, at their lines. -/
def failures (ctx : Context) (s : Evaluation) (leaves : List (Nat × Atom)) : List Diagnostic :=
  leaves.filterMap fun (line, a) => (failure? ctx s a).map (s.here line)

/-- The diagnostic that is returned, if there is one. -/
def returned : Except Diagnostic Json → List Diagnostic
  | .ok _ => []
  | .error d => [d]

/-- **An atom fails for the reason that can be told from the state in front of it.** -/
theorem returned_resolveAtom (s : Evaluation) (line : Nat) {a : Atom}
    (ha : ∀ path, a ≠ .dictionary path) :
    returned (s.resolveAtom ctx deeper line a).1 = failures ctx s [(line, a)] := by
  cases a with
  | string | number | boolean | component => rfl
  | reference name =>
    simp only [resolveAtom, failures, failure?, List.filterMap_cons]
    cases s.resource.get? name <;> rfl
  | dictionary path => exact absurd rfl (ha path)
  | url path =>
    simp only [resolveAtom, copyUrl, locate, Library.askLocate, failures, failure?,
      List.filterMap_cons]
    cases ctx.library.locate (Path.resolve s.current path) s.resource.file.version <;> rfl
  | content path =>
    simp only [resolveAtom, copyContent, locate, content, Library.askLocate, Library.askContent,
      failures, failure?, List.filterMap_cons, bind, Except.bind]
    cases ctx.library.locate (Path.resolve s.current path) s.resource.file.version with
    | error e => rfl
    | ok file =>
      dsimp only
      cases ctx.library.content file <;> rfl

/-- Whether a state is an earlier one with some errors appended, but for the journal. -/
def Reports (s t : Evaluation) (errors : List Diagnostic) : Prop :=
  OnlyJournal { s with resource := { s.resource with errors := s.resource.errors ++ errors } } t

namespace Reports

variable {errors errors' : List Diagnostic}

theorem trans (h : Reports s t errors) (h' : Reports t u errors') :
    Reports s u (errors ++ errors') := by
  obtain ⟨j, rfl⟩ := h
  obtain ⟨j', rfl⟩ := h'
  exact ⟨j', by simp only [List.append_assoc]⟩

/-- What fails is the same after errors as before them. -/
theorem failures_eq (h : Reports s t errors) (leaves : List (Nat × Atom)) :
    failures ctx t leaves = failures ctx s leaves := by
  obtain ⟨j, rfl⟩ := h
  refine congrArg (leaves.filterMap ·) (funext fun (line, a) => ?_)
  cases a <;> rfl

end Reports

theorem OnlyJournal.reports (h : OnlyJournal s t) : Reports s t [] := by
  rw [Reports, List.append_nil]
  exact h

/-- An atom records nothing. What it returns is its failure, which settling it records. -/
theorem settled_resolveAtom (s : Evaluation) (line : Nat) {a : Atom}
    (ha : ∀ path, a ≠ .dictionary path) :
    Reports s (settled (s.resolveAtom ctx deeper line a)) (failures ctx s [(line, a)]) := by
  have hjournal : OnlyJournal s (s.resolveAtom ctx deeper line a).2 :=
    resolveAtom_onlyJournal s line ha
  have hreturned : returned (s.resolveAtom ctx deeper line a).1 = failures ctx s [(line, a)] :=
    returned_resolveAtom s line ha
  rw [← hreturned]
  generalize s.resolveAtom ctx deeper line a = outcome at hjournal
  obtain ⟨d | json, t⟩ := outcome
  · obtain ⟨j, rfl⟩ := hjournal
    exact ⟨j, rfl⟩
  · exact hjournal.reports

mutual

/-- **Settling a value reports the failures of its atoms.** -/
theorem settled_resolve : ∀ (v : Value) (s : Evaluation), v.OpensNone →
    Reports s (settled (resolve ctx deeper v s)) (failures ctx s v.leaves)
  | .atom line _, s, hv => settled_resolveAtom s line hv
  | .array _ items, s, hv => by
    rw [resolve]
    exact resolveItems_reports items s hv
  | .object _ entries, s, hv => by
    rw [resolve]
    exact resolveEntries_reports entries s hv.2

theorem resolveItems_reports : ∀ (items : List Value) (s : Evaluation),
    Value.ForallItems (fun a => ∀ path, a ≠ .dictionary path) (fun _ => True) items →
      Reports s (resolveItems ctx deeper items s).2 (failures ctx s (Value.itemLeaves items))
  | [], s, _ => (OnlyJournal.refl s).reports
  | v :: items, s, hvs => by
    have hfirst := settled_resolve v s hvs.1
    have hrest := resolveItems_reports items (settled (resolve ctx deeper v s)) hvs.2
    rw [hfirst.failures_eq] at hrest
    rw [resolveItems_cons, Value.itemLeaves, failures, List.filterMap_append]
    exact hfirst.trans hrest

theorem resolveEntries_reports : ∀ (entries : List (String × Value)) (s : Evaluation),
    Value.ForallEntries (fun a => ∀ path, a ≠ .dictionary path) (fun _ => True) entries →
      Reports s (resolveEntries ctx deeper entries s).2
        (failures ctx s (Value.entryLeaves entries))
  | [], s, _ => (OnlyJournal.refl s).reports
  | (key, v) :: entries, s, hvs => by
    have hfirst := settled_resolve v s hvs.1
    have hrest := resolveEntries_reports entries (settled (resolve ctx deeper v s)) hvs.2
    rw [hfirst.failures_eq] at hrest
    rw [resolveEntries_cons, Value.entryLeaves, failures, List.filterMap_append]
    exact hfirst.trans hrest

end

/-- **A value that opens no document reports each failure once**: what is recorded while it is
resolved, with the error that it returns if it has no value, are the failures of its atoms from left
to right. -/
theorem resolve_reports {v : Value} (hv : v.OpensNone) (s : Evaluation) :
    ∃ recorded, Reports s (resolve ctx deeper v s).2 recorded ∧
      recorded ++ returned (resolve ctx deeper v s).1 = failures ctx s v.leaves := by
  cases v with
  | atom line a =>
    exact ⟨[], (resolveAtom_onlyJournal s line hv).reports, returned_resolveAtom s line hv⟩
  | array line items =>
    rw [resolve]
    exact ⟨_, resolveItems_reports items s hv, List.append_nil _⟩
  | object line entries =>
    rw [resolve]
    exact ⟨_, resolveEntries_reports entries s hv.2, List.append_nil _⟩

/-- **Resolving a value is framed, keeps its shape, and accounts for every failure once.** An array
comes to as many values as it has items, each of them that of its item, or `null`; an object comes
to the entries that have a value. A value that opens no document changes nothing but the journal and
the errors, and reports its failing atoms from left to right. -/
theorem resolve_accounts (ctx : Context) (deeper : Option Visit) (s : Evaluation) (v : Value) :
    Frame s (resolve ctx deeper v s).2 ∧
    (∀ line items, v = .array line items → ∃ values,
      (resolve ctx deeper v s).1 = .ok (.arr values) ∧ values.length = items.length ∧
        ∀ before item after, items = before ++ item :: after →
          values[before.length]? = some ((resolve ctx deeper item
            (resolveItems ctx deeper before s).2).1.toOption.getD .null)) ∧
    (∀ line entries, v = .object line entries →
      (resolve ctx deeper v s).1 = .ok (.obj (entryValues (entries.map Prod.fst)
        (outcomes ctx deeper (entries.map Prod.snd) s)))) ∧
    (v.OpensNone → ∃ recorded, Reports s (resolve ctx deeper v s).2 recorded ∧
      recorded ++ returned (resolve ctx deeper v s).1 = failures ctx s v.leaves) := by
  refine ⟨resolve_frame v s, ?_, ?_, fun hv => resolve_reports hv s⟩
  · rintro line items rfl
    refine ⟨itemValues (outcomes ctx deeper items s), ?_, ?_, ?_⟩
    · rw [resolve, ← resolveItems_eq]
    · rw [itemValues, List.length_map, length_outcomes]
    · rintro before item after rfl
      rw [outcomes_append, outcomes, itemValues, List.map_append, List.map_cons,
        List.getElem?_append_right (by simp), List.length_map, length_outcomes, Nat.sub_self,
        List.getElem?_cons_zero]
  · rintro line entries rfl
    rw [resolve, ← resolveEntries_eq]

/-- An array that holds an object with an unknown variable, and a file that is not there. -/
def partlyFailing : Value :=
  .array 1 [.object 1 [("a", .atom 2 (.reference "gone")), ("b", .atom 3 (.boolean true))],
    .atom 4 (.url "lost")]

/-- The array comes to two values, and both failures in it are recorded, at their lines and in
order. -/
theorem resolve_accounts_partlyFailing :
    let s := start ⟨"r", "v", "/main"⟩ [] (.empty 0)
    let ctx : Context := ⟨(Memory.empty "r").library, {}⟩
    partlyFailing.OpensNone ∧
      (∃ values, (resolve ctx none partlyFailing s).1 = .ok (.arr values) ∧ values.length = 2) ∧
      Reports s (resolve ctx none partlyFailing s).2
        [⟨2, "/main", "Unresolved reference 'gone'"⟩,
          ⟨4, "/main", "Cannot copy url of 'lost': " ++
            ((FileFault.absent "v").error "/lost").display⟩] := by
  intro s ctx
  have hopens : partlyFailing.OpensNone := by
    simp [partlyFailing, Value.OpensNone, Value.Forall, Value.ForallItems, Value.ForallEntries]
  obtain ⟨-, harray, -, haccounts⟩ := resolve_accounts ctx none s partlyFailing
  obtain ⟨values, hvalues, hlength, -⟩ := harray _ _ rfl
  obtain ⟨recorded, hreports, hfailures⟩ := haccounts hopens
  rw [hvalues, returned, List.append_nil] at hfailures
  subst hfailures
  have hrecorded : failures ctx s partlyFailing.leaves =
      [⟨2, "/main", "Unresolved reference 'gone'"⟩,
        ⟨4, "/main", "Cannot copy url of 'lost': " ++
          ((FileFault.absent "v").error "/lost").display⟩] := by
    decide +kernel
  rw [hrecorded] at hreports
  exact ⟨hopens, ⟨values, hvalues, hlength⟩, hreports⟩

end Evaluation

end Courseware
