/-
Ordered dictionaries: a list of entries, in the order their keys were first
inserted.

`insert` replaces the value of a key that is there and keeps its place, and
adds a new key at the end. The two look-up laws `get?_insert_self` and
`get?_insert_other` are the whole interface; `keys_insert` is the order law.
-/

namespace Courseware

/-- Entries in the order their keys were first inserted. -/
abbrev Dict (α : Type) := List (String × α)

namespace Dict

variable {α : Type}

/-- The value of a key. -/
def get? : Dict α → String → Option α
  | [], _ => none
  | (key, value) :: entries, k => if key = k then some value else get? entries k

/-- Whether a key has a value. -/
def hasKey (d : Dict α) (k : String) : Bool := (get? d k).isSome

/-- Gives a key a value, in the key's place if it has one and at the end if not. -/
def insert : Dict α → String → α → Dict α
  | [], k, v => [(k, v)]
  | (key, value) :: entries, k, v =>
    if key = k then (key, v) :: entries else (key, value) :: insert entries k v

/-- The keys in order. -/
def keys (d : Dict α) : List String := List.map Prod.fst d

theorem get?_insert_self (d : Dict α) (k : String) (v : α) : get? (insert d k v) k = some v := by
  induction d with
  | nil => simp [insert, get?]
  | cons entry entries ih =>
    obtain ⟨key, value⟩ := entry
    by_cases h : key = k <;> simp [insert, get?, h, ih]

theorem get?_insert_other (d : Dict α) {k k' : String} (v : α) (h : k' ≠ k) :
    get? (insert d k v) k' = get? d k' := by
  induction d with
  | nil => simp [insert, get?, Ne.symm h]
  | cons entry entries ih =>
    obtain ⟨key, value⟩ := entry
    by_cases hk : key = k
    · subst hk; simp [insert, get?, Ne.symm h]
    · by_cases hk' : key = k' <;> simp [insert, get?, hk, hk', ih, h]

theorem hasKey_insert (d : Dict α) (k : String) (v : α) (k' : String) :
    hasKey (insert d k v) k' = (decide (k' = k) || hasKey d k') := by
  unfold hasKey
  by_cases h : k' = k
  · subst h; simp [get?_insert_self]
  · simp [get?_insert_other d v h, h]

/-- **A key that is there keeps its place, and a new one goes to the end.** -/
theorem keys_insert (d : Dict α) (k : String) (v : α) :
    keys (insert d k v) = if k ∈ keys d then keys d else keys d ++ [k] := by
  induction d with
  | nil => simp [insert, keys]
  | cons entry entries ih =>
    obtain ⟨key, value⟩ := entry
    by_cases h : key = k
    · subst h; simp [insert, keys]
    · have h' : ¬ k = key := fun e => h e.symm
      simp only [insert, h, if_false, keys, List.map_cons, List.mem_cons, h', false_or]
      simp only [keys] at ih
      rw [ih]
      by_cases hm : k ∈ List.map Prod.fst entries <;> simp [hm]

end Dict

end Courseware
