/-
An assignment leaves everything as it was, or is complete.

An assignment goes down a name and makes the objects on the way that are not there
before it knows whether it can go the rest of the way (`Variables.assignInPlace`).
It still never leaves an object behind that nothing is assigned in: what it has
made is empty, and through an empty object every way can be gone
(`Variables.put_nil`). So it is blocked only where nothing was made, by a value
that was there before and is not an object (`Variables.put_eq_error_iff`), and going
back up puts each object in its own place again (`Dict.insert_of_get?`).
-/
import Courseware.Proofs.Variables.Keys

namespace Courseware

namespace Dict

variable {α : Type}

/-- A key that is given the value it has changes nothing. -/
theorem insert_of_get? {d : Dict α} {k : String} {v : α} (h : get? d k = some v) :
    insert d k v = d := by
  induction d with
  | nil => cases h
  | cons entry d ih =>
    obtain ⟨key, w⟩ := entry
    by_cases hk : key = k
    · simp only [get?, hk, if_true, Option.some.injEq] at h
      simp [insert, hk, h]
    · simp only [get?, hk, if_false] at h
      simp [insert, hk, ih h]

/-- Of two values that a key is given, the second one stays. -/
theorem insert_insert (d : Dict α) (k : String) (v w : α) :
    insert (insert d k v) k w = insert d k w := by
  induction d with
  | nil => simp [insert]
  | cons entry d ih =>
    obtain ⟨key, u⟩ := entry
    by_cases hk : key = k <;> simp [insert, hk, ih]

end Dict

namespace Variables

/-! ## Step by step -/

/-- The entries after the value at some segments is set in place, and the segments that lead to a
value which is not an object, if they do. An object that is missing is made before it is known
whether the rest of the way can be gone. -/
def putInPlace (value : Json) : List String → Dict Json → Option (List String) × Dict Json
  | [], entries => (none, entries)
  | [key], entries => (none, Dict.insert entries key value)
  | key :: next :: rest, entries =>
    let entries := if Dict.hasKey entries key then entries else Dict.insert entries key (.obj [])
    match Dict.get? entries key with
    | some (.obj inner) =>
      let (way, inner) := putInPlace value (next :: rest) inner
      (way.map (key :: ·), Dict.insert entries key (.obj inner))
    | _ => (some [key], entries)

/-- **An assignment in place**: what blocked it, if something did, and the variables that it leaves
then. -/
def assignInPlace (vars : Variables) (name : String) (value : Json) : Option Blocked × Variables :=
  let (way, vars) := putInPlace value (segments name) vars
  (way.map (⟨name, ·⟩), vars)

/-- An object that has just been made blocks nothing. -/
theorem put_nil (value : Json) (way : List String) : ∃ entries, put value way [] = .ok entries := by
  match way with
  | [] => exact ⟨_, rfl⟩
  | [key] => exact ⟨_, rfl⟩
  | key :: next :: rest =>
    obtain ⟨entries, hentries⟩ := put_nil value (next :: rest)
    exact ⟨_, put_eq_ok_iff.mpr ⟨[], entries, rfl, hentries, rfl⟩⟩

/-- **Where it is blocked, nothing has changed**: each object on the way was there. -/
theorem putInPlace_eq (value : Json) : ∀ (way : List String) (entries : Dict Json),
    putInPlace value way entries =
      match put value way entries with
      | .ok entries' => (none, entries')
      | .error blocked => (some blocked, entries)
  | [], _ => rfl
  | [_], _ => rfl
  | key :: next :: rest, entries => by
    rw [putInPlace, put]
    cases hget : Dict.get? entries key with
    | none =>
      obtain ⟨inner, hinner⟩ := put_nil value (next :: rest)
      have hmade := putInPlace_eq value (next :: rest) []
      rw [hinner] at hmade
      simp [Dict.hasKey, hget, Dict.get?_insert_self, hmade, hinner, Except.map,
        Dict.insert_insert]
    | some v =>
      simp only [Dict.hasKey, hget, Option.isSome_some, if_true]
      cases v with
      | obj inner =>
        have hgone := putInPlace_eq value (next :: rest) inner
        simp only [hgone]
        cases put value (next :: rest) inner with
        | ok inner' => rfl
        | error blocked =>
          simp only [Option.map_some]
          rw [Dict.insert_of_get? hget]
      | _ => rfl

theorem assignInPlace_eq (vars : Variables) (name : String) (value : Json) :
    vars.assignInPlace name value =
      match vars.assign name value with
      | .ok vars' => (none, vars')
      | .error blocked => (some blocked, vars) := by
  rw [assignInPlace, assign, putInPlace_eq]
  cases put value (segments name) vars <;> rfl

/-! ## What blocks an assignment -/

/-- The value that keys lead to from another one, through objects alone. -/
def reach : List String → Json → Option Json
  | [], value => some value
  | key :: way, .obj entries => (Dict.get? entries key).bind (reach way)
  | _ :: _, _ => none

/-- **Whether some of the segments of a way block it**: not all of them, and at least one, lead to a
value that is there and is not an object. -/
structure BlockedAt (entries : Dict Json) (segs way : List String) : Prop where
  nonempty : way ≠ []
  proper : ∃ next rest, segs = way ++ next :: rest
  reaches : ∃ v, reach way (.obj entries) = some v ∧ v.entries? = none

theorem reach_cons (key : String) (way : List String) (entries : Dict Json) :
    reach (key :: way) (.obj entries) = (Dict.get? entries key).bind (reach way) := rfl

theorem reach_of_not_object {v : Json} (h : v.entries? = none) {way : List String}
    (hway : way ≠ []) : reach way v = none := by
  cases way with
  | nil => exact absurd rfl hway
  | cons key way =>
    cases v with
    | obj entries => cases h
    | _ => rfl

/-- What blocks a way is the value of its first key, or is below the object there. -/
theorem blockedAt_cons_iff {entries : Dict Json} {key next : String} {rest way : List String} :
    BlockedAt entries (key :: next :: rest) way ↔
      ∃ v, Dict.get? entries key = some v ∧
        (v.entries? = none ∧ way = [key] ∨
          ∃ inner below, v = .obj inner ∧ BlockedAt inner (next :: rest) below ∧
            way = key :: below) := by
  constructor
  · rintro ⟨hway, ⟨n, more, hsegs⟩, u, hreach, hu⟩
    obtain ⟨first, below, rfl⟩ := List.exists_cons_of_ne_nil hway
    rw [List.cons_append, List.cons.injEq] at hsegs
    obtain ⟨rfl, hsegs⟩ := hsegs
    rw [reach_cons] at hreach
    obtain ⟨v, hv, hreach⟩ := Option.bind_eq_some_iff.mp hreach
    refine ⟨v, hv, ?_⟩
    cases below with
    | nil =>
      cases hreach
      exact .inl ⟨hu, rfl⟩
    | cons second below =>
      cases hentries : v.entries? with
      | none =>
        rw [reach_of_not_object hentries (List.cons_ne_nil _ _)] at hreach
        cases hreach
      | some inner =>
        cases v <;> cases hentries
        exact .inr ⟨inner, second :: below, rfl,
          ⟨List.cons_ne_nil _ _, ⟨n, more, hsegs⟩, u, hreach, hu⟩, rfl⟩
  · rintro ⟨v, hv, ⟨hentries, rfl⟩ | ⟨inner, below, rfl, ⟨-, ⟨n, more, hsegs⟩, u, hreach, hu⟩, rfl⟩⟩
    · exact ⟨List.cons_ne_nil _ _, ⟨next, rest, rfl⟩, v, by rw [reach_cons, hv]; rfl, hentries⟩
    · exact ⟨List.cons_ne_nil _ _, ⟨n, more, by rw [hsegs]; rfl⟩, u,
        by rw [reach_cons, hv]; exact hreach, hu⟩

/-- An assignment below a key is blocked by the value there, or below the object there. -/
theorem put_cons_eq_error_iff {value : Json} {key next : String} {rest way : List String}
    {entries : Dict Json} : put value (key :: next :: rest) entries = .error way ↔
      ∃ v, Dict.get? entries key = some v ∧
        (v.entries? = none ∧ way = [key] ∨
          ∃ inner below, v = .obj inner ∧ put value (next :: rest) inner = .error below ∧
            way = key :: below) := by
  rw [put]
  cases hget : Dict.get? entries key with
  | none =>
    obtain ⟨inner, hinner⟩ := put_nil value (next :: rest)
    simp [hinner, Except.map]
  | some v =>
    cases v with
    | obj inner =>
      cases hput : put value (next :: rest) inner <;> simp [hput, Json.entries?, eq_comm]
    | _ => simp [Json.entries?, eq_comm]

/-- **An assignment is blocked exactly where a value is in its way.** -/
theorem put_eq_error_iff {value : Json} : ∀ {segs : List String} {entries : Dict Json}
    {way : List String}, put value segs entries = .error way ↔ BlockedAt entries segs way
  | [], entries, way => by
    refine ⟨fun h => (by cases h), fun h => ?_⟩
    obtain ⟨n, more, hsegs⟩ := h.proper
    simp at hsegs
  | [key], entries, way => by
    refine ⟨fun h => (by cases h), fun h => ?_⟩
    obtain ⟨n, more, hsegs⟩ := h.proper
    obtain ⟨first, below, rfl⟩ := List.exists_cons_of_ne_nil h.nonempty
    simp at hsegs
  | key :: next :: rest, entries, way => by
    have hbelow (inner : Dict Json) (below : List String) :
        put value (next :: rest) inner = .error below ↔ BlockedAt inner (next :: rest) below :=
      put_eq_error_iff
    rw [put_cons_eq_error_iff, blockedAt_cons_iff]
    simp only [hbelow]

/-- Only one way blocks an assignment: nothing can be gone through what blocks it. -/
theorem BlockedAt.unique {entries : Dict Json} {segs way way' : List String}
    (h : BlockedAt entries segs way) (h' : BlockedAt entries segs way') : way = way' := by
  have hput : put .null segs entries = .error way := put_eq_error_iff.mpr h
  rw [put_eq_error_iff.mpr h'] at hput
  cases hput
  rfl

theorem assign_eq_error_iff {vars : Variables} {name : String} {value : Json} {blocked : Blocked} :
    vars.assign name value = .error blocked ↔
      blocked.name = name ∧ BlockedAt vars (segments name) blocked.way := by
  have hput : put value (segments name) vars = .error blocked.way ↔ _ := put_eq_error_iff
  rw [← hput, assign]
  obtain ⟨given, way⟩ := blocked
  cases put value (segments name) vars <;> simp [eq_comm]

/-- **An assignment that is blocked leaves everything as it was.** It is blocked if and only if some
of the segments of the name, and not all of them, lead to a value that is there and is not an
object; the message names the fewest that do. No object that was made on the way is left, nothing
is replaced and nothing changes its place. -/
theorem assignInPlace_atomic (vars : Variables) (name : String) (value : Json) :
    let (outcome, after) := vars.assignInPlace name value
    (outcome.isSome = true ↔ ∃ way, BlockedAt vars (segments name) way) ∧
    (∀ blocked, outcome = some blocked →
      BlockedAt vars (segments name) blocked.way ∧
      (∀ way, BlockedAt vars (segments name) way → blocked.way.length ≤ way.length) ∧
      blocked.message = "Cannot assign '" ++ name ++ "': '" ++ ".".intercalate blocked.way ++
        "' is not a dictionary" ∧
      after = vars ∧ vars.assign name value = .error blocked) ∧
    (outcome = none → vars.assign name value = .ok after) := by
  rw [assignInPlace_eq]
  cases hassign : vars.assign name value with
  | ok vars' =>
    refine ⟨⟨fun h => (by cases h), fun ⟨way, hway⟩ => ?_⟩, fun _ h => (by cases h), fun _ => rfl⟩
    have herror : vars.assign name value = .error ⟨name, way⟩ :=
      assign_eq_error_iff.mpr ⟨rfl, hway⟩
    cases hassign.symm.trans herror
  | error blocked =>
    obtain ⟨hname, hway⟩ := assign_eq_error_iff.mp hassign
    refine ⟨⟨fun _ => ⟨blocked.way, hway⟩, fun _ => rfl⟩, fun given h => ?_, fun h => (by cases h)⟩
    obtain rfl := Option.some.inj h
    have hmessage : blocked.message = "Cannot assign '" ++ name ++ "': '" ++
        ".".intercalate blocked.way ++ "' is not a dictionary" := by
      subst hname
      rfl
    exact ⟨hway, fun way hway' => Nat.le_of_eq (congrArg List.length (hway.unique hway')), hmessage,
      rfl, rfl⟩

/-- A number stands in the way of a name with three dots; the name goes through an object before,
and after it the way would have to be made. -/
theorem assignInPlace_atomic_number :
    let vars : Variables := [("x", .null), ("a", .obj [("b", .int 3), ("c", .null)])]
    (vars.assignInPlace "a.b.d.e" (.bool true)).1 = some ⟨"a.b.d.e", ["a", "b"]⟩ ∧
    (vars.assignInPlace "a.b.d.e" (.bool true)).2 = vars ∧
    (⟨"a.b.d.e", ["a", "b"]⟩ : Blocked).message =
      "Cannot assign 'a.b.d.e': 'a.b' is not a dictionary" ∧
    vars.assign "a.d.e" (.bool true) = .ok [("x", .null),
      ("a", .obj [("b", .int 3), ("c", .null), ("d", .obj [("e", .bool true)])])] := by
  intro vars
  have hblocked : (vars.assignInPlace "a.b.d.e" (.bool true)).1 = some ⟨"a.b.d.e", ["a", "b"]⟩ := by
    rfl
  obtain ⟨-, hall, -⟩ := assignInPlace_atomic vars "a.b.d.e" (.bool true)
  obtain ⟨-, -, hmessage, hafter, -⟩ := hall _ hblocked
  refine ⟨hblocked, hafter, hmessage, ?_⟩
  exact (assignInPlace_atomic vars "a.d.e" (.bool true)).2.2 rfl

end Variables

end Courseware
