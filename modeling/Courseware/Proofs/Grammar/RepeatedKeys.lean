/-
Repeated keys of objects.

An object that is written with entries denotes an ordered dictionary: its keys are
those of the entries in the order of their first occurrence, and each has the value of
its last entry (`ObjectAt.Denotes`). An entry whose key has occurred before it in the
same object deserves a note. The notes of a document are those of the repeated entries
of all its objects, also of objects that are themselves the value of an entry which a
later one replaces, in the order in which these entries end
(`Document.ofTokens_repeated_keys`).

Where an object or an entry stands is counted in tokens. The objects of a document are
listed in the order of their opening braces, and what an object denotes is read off
the entries that are written in it, apart from how a parser goes over them.
-/
import Courseware.Proofs.Document.Ending
import Courseware.Proofs.Grammar.Uniqueness
import Mathlib.Data.List.Basic
import Mathlib.Data.List.Induction
import Mathlib.Data.List.TakeWhile

namespace Courseware

/-! ## Entries inserted one after another -/

namespace Dict

variable {α : Type}

/-- The keys of entries that are inserted one after another are in the order in which they first
occur. -/
theorem keys_foldl_insert (entries : List (String × α)) :
    keys (entries.foldl (fun d e => insert d e.1 e.2) []) =
      (entries.map Prod.fst).eraseDups := by
  induction entries using List.reverseRecOn with
  | nil => rfl
  | append_singleton entries e ih =>
    rw [List.foldl_append, List.foldl_cons, List.foldl_nil, keys_insert, ih, List.map_append,
      List.eraseDups_append]
    by_cases h : e.1 ∈ entries.map Prod.fst <;>
      simp [List.mem_eraseDups, h, List.removeAll, List.eraseDups_cons]

/-- Each key has the value of the last entry with it. -/
theorem get?_foldl_insert (entries : List (String × α)) (key : String) :
    get? (entries.foldl (fun d e => insert d e.1 e.2) []) key =
      (entries.reverse.find? (·.1 = key)).map Prod.snd := by
  induction entries using List.reverseRecOn with
  | nil => rfl
  | append_singleton entries e ih =>
    rw [List.foldl_append, List.foldl_cons, List.foldl_nil, List.reverse_append,
      List.reverse_singleton, List.singleton_append, List.find?_cons]
    by_cases h : e.1 = key
    · subst h
      simp [get?_insert_self]
    · rw [get?_insert_other _ _ (Ne.symm h), ih]
      simp [h]

end Dict

/-- The tokens in front of the first end of a document. -/
def Token.beforeFinish (ts : List Token) : List Token := ts.takeWhile (·.kind ≠ .finish)

theorem Token.kind_of_mem_beforeFinish (ts : List Token) :
    ∀ t ∈ beforeFinish ts, t.kind ≠ .finish := by
  intro t ht
  simpa using List.mem_takeWhile_imp ht

/-- A document is made of the tokens in front of its end, whether that is given or implied. -/
theorem Document.ofTokens_beforeFinish {stripHint : Bool} {ts : List Token} {d : Document}
    (h : ofTokens stripHint ts = .ok d) : ∃ last : Token, last.kind = .finish ∧
      ofTokens stripHint (Token.beforeFinish ts ++ [last]) = .ok d := by
  have hts := Token.kind_of_mem_beforeFinish ts
  have hsplit : ts = Token.beforeFinish ts ++ ts.dropWhile (·.kind ≠ .finish) :=
    List.takeWhile_append_dropWhile.symm
  cases hrest : ts.dropWhile (·.kind ≠ .finish) with
  | nil =>
    rw [hrest, List.append_nil] at hsplit
    rw [hsplit, ofTokens_of_open hts] at h
    exact ⟨⟨.finish, "", Token.lastLine 1 (Token.beforeFinish ts)⟩, rfl,
      (ofTokens_of_finish hts rfl []).trans h⟩
  | cons last us =>
    have hlast : last.kind = .finish := by
      have hnot := List.head?_dropWhile_not (fun t : Token => decide (t.kind ≠ .finish)) ts
      rw [hrest] at hnot
      simpa using hnot
    rw [hsplit, hrest, ofTokens_of_finish hts hlast us] at h
    exact ⟨last, hlast, (ofTokens_of_finish hts hlast []).trans h⟩

/-- **A document is what a derivation of its tokens denotes**, of those in front of its end. -/
theorem Document.exists_derivation {stripHint : Bool} {ts : List Token} {d : Document}
    (h : ofTokens stripHint ts = .ok d) :
    ∃ g, Grammar.Derives g (Token.beforeFinish ts) ∧ d = Grammar.document stripHint g := by
  obtain ⟨last, hlast, h⟩ := ofTokens_beforeFinish h
  have hd := (Grammar.ofTokens_eq_ok_iff hlast (Token.kind_of_mem_beforeFinish ts) d).mp h
  obtain ⟨g, hg⟩ := Grammar.exists_derivation _ _ d rfl hd
  have hdenotes : Parser.start.document? stripHint (Grammar.tokens g) = some _ :=
    Grammar.document?_tokens hg.1 Parser.start rfl
  rw [hg.2, hd] at hdenotes
  exact ⟨g, hg, Option.some.inj hdenotes⟩

namespace Grammar

/-! ## Where objects and entries are written -/

/-- An entry of an object where it is written. -/
structure EntryAt where
  /-- How many tokens stand in front of its key. -/
  start : Nat
  mark : Mark
  key : String
  colon : Mark
  value : ValueTree

namespace EntryAt

/-- The tokens of an entry: its key, the colon and its value. -/
def tokens (e : EntryAt) : List Token :=
  e.mark.token (.name e.key) :: e.colon.token .colon :: e.value.tokens

/-- How many tokens there are up to the end of an entry. -/
def ends (e : EntryAt) : Nat := e.start + e.tokens.length

theorem ends_eq (start : Nat) (m : Mark) (key : String) (colon : Mark) (v : ValueTree) :
    ends ⟨start, m, key, colon, v⟩ = start + 2 + v.tokens.length := by
  simp only [ends, tokens, List.length_cons]
  omega

/-- What an entry deserves a warning for if its key is repeated, at the line of the key. -/
def note (e : EntryAt) : Note :=
  ⟨e.mark.line, "Duplicate key '" ++ e.key ++ "' in object, the last value is kept"⟩

end EntryAt

/-- The entries that are written from some place on. -/
def EntriesTree.written : EntriesTree → (start : Nat) → List EntryAt
  | .last before m key colon v _, start => [⟨start + before.length, m, key, colon, v⟩]
  | .more before m key colon v after _ rest, start =>
    ⟨start + before.length, m, key, colon, v⟩ ::
      rest.written (start + before.length + 2 + v.tokens.length + after.length + 1)

/-- An object where it is written. -/
structure ObjectAt where
  /-- How many tokens stand in front of its opening brace. -/
  start : Nat
  tree : ValueTree

namespace ObjectAt

/-- The entries of an object in the order in which they are written. -/
def entries (o : ObjectAt) : List EntryAt :=
  match o.tree with
  | .object _ es _ => es.written (o.start + 1)
  | _ => []

/-- The entries of an object whose key has occurred before. -/
def repeated (o : ObjectAt) : List EntryAt :=
  o.entries.filter fun e => ∃ e' ∈ o.entries, e'.start < e.start ∧ e'.key = e.key

/-- Whether an object and its entries are where they are said to be among some tokens. -/
structure StandsIn (ts : List Token) (o : ObjectAt) : Prop where
  tokens : o.tree.tokens <+: ts.drop o.start
  entries : ∀ e ∈ o.entries, e.tokens <+: ts.drop e.start

/-- **Whether an object denotes an ordered dictionary** of its distinct keys, in the order of their
first occurrence, each with its last value. -/
def Denotes (o : ObjectAt) : Prop :=
  ∃ d, o.tree.value.entries? = some d ∧ Dict.keys d = (o.entries.map (·.key)).eraseDups ∧
    ∀ key, Dict.get? d key = (o.entries.reverse.find? (·.key = key)).map (·.value.value)

end ObjectAt

mutual

/-- The objects in a value that starts at some place, in the order of their opening braces. -/
def ValueTree.objects : ValueTree → (start : Nat) → List ObjectAt
  | .literal .., _ | .file .., _ | .emptyArray .., _ => []
  | .array _ items _, start => items.objects (start + 1)
  | .emptyObject o remarks c, start => [⟨start, .emptyObject o remarks c⟩]
  | .object o es c, start => ⟨start, .object o es c⟩ :: es.objects (start + 1)

def ItemsTree.objects : ItemsTree → (start : Nat) → List ObjectAt
  | .last before v _, start => v.objects (start + before.length)
  | .more before v after _ rest, start =>
    v.objects (start + before.length) ++
      rest.objects (start + before.length + v.tokens.length + after.length + 1)

def EntriesTree.objects : EntriesTree → (start : Nat) → List ObjectAt
  | .last before _ _ _ v _, start => v.objects (start + before.length + 2)
  | .more before _ _ _ v after _ rest, start =>
    v.objects (start + before.length + 2) ++
      rest.objects (start + before.length + 2 + v.tokens.length + after.length + 1)

end

def StatementTree.objects : StatementTree → (start : Nat) → List ObjectAt
  | .assigned _ _ _ v, start => v.objects (start + 2)
  | _, _ => []

/-- The objects in statements that start at some place. -/
def objects : List StatementTree → (start : Nat) → List ObjectAt
  | [], _ => []
  | s :: rest, start => s.objects start ++ objects rest (start + s.tokens.length)

/-! ## The objects are those of the tokens -/

/-- Whether a token opens an object. -/
def opensObject (t : Token) : Bool := t.kind = .leftBrace

@[simp] theorem findIdxs_remarks (remarks : List Remark) (start : Nat) :
    remarks.findIdxs (opensObject ∘ Remark.token) start = [] :=
  List.findIdxs_eq_nil_iff.mpr fun _ _ => rfl

@[simp] theorem findIdxs_lines (lines : List BodyLine) (start : Nat) :
    lines.findIdxs (opensObject ∘ BodyLine.token) start = [] :=
  List.findIdxs_eq_nil_iff.mpr fun _ _ => rfl

theorem findIdxs_literal (m : Mark) (l : Literal) (start : Nat) :
    [m.token l.kind].findIdxs opensObject start = [] := by
  cases l <;> rfl

mutual

/-- **The objects of a value start at its opening braces**, and at no other token. -/
theorem ValueTree.start_objects : ∀ (v : ValueTree) (start : Nat),
    (v.objects start).map (·.start) = v.tokens.findIdxs opensObject start
  | .literal m l, start => (findIdxs_literal m l start).symm
  | .file m f pm path, start => rfl
  | .emptyArray o remarks c, start => by
    simp [ValueTree.objects, ValueTree.tokens, opensObject, Mark.token]
  | .array o items c, start => by
    simp [ValueTree.objects, ValueTree.tokens, items.start_objects, opensObject, Mark.token]
  | .emptyObject o remarks c, start => by
    simp [ValueTree.objects, ValueTree.tokens, opensObject, Mark.token]
  | .object o es c, start => by
    simp [ValueTree.objects, ValueTree.tokens, es.start_objects, opensObject, Mark.token]

theorem ItemsTree.start_objects : ∀ (items : ItemsTree) (start : Nat),
    (items.objects start).map (·.start) = items.tokens.findIdxs opensObject start
  | .last before v after, start => by
    simp [ItemsTree.objects, ItemsTree.tokens, v.start_objects]
  | .more before v after comma rest, start => by
    simp [ItemsTree.objects, ItemsTree.tokens, v.start_objects, rest.start_objects, opensObject,
      Mark.token, Nat.add_assoc]

theorem EntriesTree.start_objects : ∀ (es : EntriesTree) (start : Nat),
    (es.objects start).map (·.start) = es.tokens.findIdxs opensObject start
  | .last before m key colon v after, start => by
    simp [EntriesTree.objects, EntriesTree.tokens, v.start_objects, opensObject, Mark.token]
  | .more before m key colon v after comma rest, start => by
    simp [EntriesTree.objects, EntriesTree.tokens, v.start_objects, rest.start_objects, opensObject,
      Mark.token, Nat.add_assoc]

end

theorem StatementTree.start_objects (s : StatementTree) (start : Nat) :
    (s.objects start).map (·.start) = s.tokens.findIdxs opensObject start := by
  cases s <;>
    simp [StatementTree.objects, StatementTree.tokens, ValueTree.start_objects, opensObject,
      Mark.token, Remark.token]

theorem start_objects (g : List StatementTree) (start : Nat) :
    (objects g start).map (·.start) = (tokens g).findIdxs opensObject start := by
  induction g generalizing start with
  | nil => rfl
  | cons s g ih => simp [objects, tokens, s.start_objects, ih]

/-! ## Where they stand -/

/-- What stands somewhere stands there part by part. -/
theorem stands_append {a b ts : List Token} {n : Nat} (h : a ++ b <+: ts.drop n) :
    a <+: ts.drop n ∧ b <+: ts.drop (n + a.length) := by
  refine ⟨(List.prefix_append a b).trans h, ?_⟩
  obtain ⟨rest, hrest⟩ := h
  rw [← List.drop_drop, ← hrest, List.append_assoc, List.drop_left]
  exact List.prefix_append b rest

/-- What stands behind one token. -/
theorem stands_tail {t : Token} {a ts : List Token} {n : Nat} (h : t :: a <+: ts.drop n) :
    a <+: ts.drop (n + 1) := (stands_append (a := [t]) h).2

variable {ts : List Token}

/-- The entries that are written somewhere stand there. -/
theorem EntriesTree.written_stands : ∀ (es : EntriesTree) {start : Nat},
    es.tokens <+: ts.drop start → ∀ e ∈ es.written start, e.tokens <+: ts.drop e.start
  | .last before m key colon v after, start, h => by
    have hentry := (stands_append h).2
    rw [List.length_map] at hentry
    rintro e he
    obtain rfl := List.mem_singleton.mp he
    exact (List.prefix_append (EntryAt.tokens _) _).trans hentry
  | .more before m key colon v after comma rest, start, h => by
    have hentry := (stands_append h).2
    rw [List.length_map] at hentry
    have hrest := stands_tail (stands_append (stands_append (stands_tail (stands_tail hentry))).2).2
    rw [List.length_map] at hrest
    intro e he
    rcases List.mem_cons.mp he with rfl | he
    · exact (List.prefix_append (EntryAt.tokens _) _).trans hentry
    · exact rest.written_stands hrest e he

theorem stands_object {start : Nat} (o c : Mark) (es : EntriesTree)
    (h : (ValueTree.object o es c).tokens <+: ts.drop start) :
    ObjectAt.StandsIn ts ⟨start, .object o es c⟩ :=
  ⟨h, es.written_stands (stands_append (stands_tail h)).1⟩

/-! ## What they denote -/

/-- Inserting entries is inserting what is written, one after another. -/
theorem EntriesTree.insertInto_eq : ∀ (es : EntriesTree) (start : Nat) (d : Dict Value),
    es.insertInto d = ((es.written start).map fun e => (e.key, e.value.value)).foldl
      (fun d e => Dict.insert d e.1 e.2) d
  | .last .., _, _ => rfl
  | .more _ _ key _ v _ _ rest, _, d => rest.insertInto_eq _ (Dict.insert d key v.value)

theorem denotes_object (start : Nat) (o c : Mark) (es : EntriesTree) :
    ObjectAt.Denotes ⟨start, .object o es c⟩ := by
  refine ⟨es.insertInto [], rfl, ?_, fun key => ?_⟩
  · rw [es.insertInto_eq (start + 1), Dict.keys_foldl_insert, List.map_map]
    rfl
  · rw [es.insertInto_eq (start + 1), Dict.get?_foldl_insert, ← List.map_reverse,
      List.find?_map, Option.map_map]
    rfl

theorem denotes_emptyObject (start : Nat) (o c : Mark) (remarks : List Remark) :
    ObjectAt.Denotes ⟨start, .emptyObject o remarks c⟩ := ⟨[], rfl, rfl, fun _ => rfl⟩

mutual

/-- **The objects of a value that stands somewhere stand there**, and denote ordered
dictionaries. -/
theorem ValueTree.objects_denote : ∀ (v : ValueTree) {start : Nat}, v.tokens <+: ts.drop start →
    ∀ o ∈ v.objects start, o.StandsIn ts ∧ o.Denotes
  | .literal .., _, _ | .file .., _, _ | .emptyArray .., _, _ => by simp [ValueTree.objects]
  | .array o items c, start, h => items.objects_denote (stands_append (stands_tail h)).1
  | .emptyObject o remarks c, start, h => by
    intro obj hobj
    obtain rfl := List.mem_singleton.mp hobj
    exact ⟨⟨h, by simp [ObjectAt.entries]⟩, denotes_emptyObject start o c remarks⟩
  | .object o es c, start, h => by
    intro obj hobj
    rcases List.mem_cons.mp hobj with rfl | hobj
    · exact ⟨stands_object o c es h, denotes_object start o c es⟩
    · exact es.objects_denote (stands_append (stands_tail h)).1 obj hobj

theorem ItemsTree.objects_denote : ∀ (items : ItemsTree) {start : Nat},
    items.tokens <+: ts.drop start → ∀ o ∈ items.objects start, o.StandsIn ts ∧ o.Denotes
  | .last before v after, start, h => by
    have hvalue := (stands_append (stands_append h).2).1
    rw [List.length_map] at hvalue
    exact v.objects_denote hvalue
  | .more before v after comma rest, start, h => by
    have hitem := (stands_append h).2
    rw [List.length_map] at hitem
    have hrest := stands_tail (stands_append (stands_append hitem).2).2
    rw [List.length_map] at hrest
    intro o ho
    rcases List.mem_append.mp ho with ho | ho
    · exact v.objects_denote (stands_append hitem).1 o ho
    · exact rest.objects_denote hrest o ho

theorem EntriesTree.objects_denote : ∀ (es : EntriesTree) {start : Nat},
    es.tokens <+: ts.drop start → ∀ o ∈ es.objects start, o.StandsIn ts ∧ o.Denotes
  | .last before m key colon v after, start, h => by
    have hvalue := (stands_append (stands_tail (stands_tail (stands_append h).2))).1
    rw [List.length_map] at hvalue
    exact v.objects_denote hvalue
  | .more before m key colon v after comma rest, start, h => by
    have hvalue := stands_tail (stands_tail (stands_append h).2)
    rw [List.length_map] at hvalue
    have hrest := stands_tail (stands_append (stands_append hvalue).2).2
    rw [List.length_map] at hrest
    intro o ho
    rcases List.mem_append.mp ho with ho | ho
    · exact v.objects_denote (stands_append hvalue).1 o ho
    · exact rest.objects_denote hrest o ho

end

theorem objects_denote (g : List StatementTree) {start : Nat} (h : tokens g <+: ts.drop start) :
    ∀ o ∈ objects g start, o.StandsIn ts ∧ o.Denotes := by
  induction g generalizing start with
  | nil => simp [objects]
  | cons s g ih =>
    obtain ⟨hs, hg⟩ := stands_append h
    intro o ho
    rcases List.mem_append.mp ho with ho | ho
    · cases s with
      | assigned m key equals v => exact v.objects_denote (stands_tail (stands_tail hs)) o ho
      | _ => cases ho
    · exact ih hg o ho

/-! ## What deserves a note, and in which order -/

/-- Whether notes are those of some entries in the order of their ends, which lie between two
places. -/
def Reports (a b : Nat) (entries : List EntryAt) (notes : List Note) : Prop :=
  ∃ es : List EntryAt, es.Perm entries ∧ es.Pairwise (·.ends < ·.ends) ∧
    (∀ e ∈ es, a ≤ e.ends ∧ e.ends < b) ∧ notes = es.map (·.note)

namespace Reports

variable {a b m : Nat} {entries entries' : List EntryAt} {notes notes' : List Note}

theorem nil (a b : Nat) : Reports a b [] [] := ⟨[], .nil, .nil, by simp, rfl⟩

theorem mono {c d : Nat} (h : Reports a b entries notes) (ha : c ≤ a) (hb : b ≤ d) :
    Reports c d entries notes := by
  obtain ⟨es, hperm, hsorted, hbounds, hnotes⟩ := h
  refine ⟨es, hperm, hsorted, fun e he => ?_, hnotes⟩
  have := hbounds e he
  omega

theorem perm (h : Reports a b entries notes) (hperm : entries.Perm entries') :
    Reports a b entries' notes := by
  obtain ⟨es, hes, hrest⟩ := h
  exact ⟨es, hes.trans hperm, hrest⟩

/-- What ends further on is reported later. -/
theorem append (h : Reports a m entries notes) (h' : Reports m b entries' notes') (ham : a ≤ m)
    (hmb : m ≤ b) : Reports a b (entries ++ entries') (notes ++ notes') := by
  obtain ⟨es, hperm, hsorted, hbounds, rfl⟩ := h
  obtain ⟨es', hperm', hsorted', hbounds', rfl⟩ := h'
  refine ⟨es ++ es', hperm.append hperm', ?_, fun e he => ?_, List.map_append.symm⟩
  · refine List.pairwise_append.mpr ⟨hsorted, hsorted', fun e he e' he' => ?_⟩
    have := hbounds e he
    have := hbounds' e' he'
    omega
  · rcases List.mem_append.mp he with he | he
    · have := hbounds e he
      omega
    · have := hbounds' e he
      omega

/-- An entry whose key is repeated or not. -/
theorem entry (e : EntryAt) (p : Prop) [Decidable p] :
    Reports e.ends (e.ends + 1) (if p then [e] else []) (if p then [e.note] else []) := by
  split
  · exact ⟨[e], .refl _, List.pairwise_singleton _ e, by simp, rfl⟩
  · exact nil _ _

end Reports

/-- The entries of a list whose key has occurred before, or is one of those that were seen before
all of them. -/
def repeatedAfter (seen : List String) (entries : List EntryAt) : List EntryAt :=
  entries.filter fun e => e.key ∈ seen ∨ ∃ e' ∈ entries, e'.start < e.start ∧ e'.key = e.key

theorem ObjectAt.repeated_eq (o : ObjectAt) : o.repeated = repeatedAfter [] o.entries := by
  simp [repeated, repeatedAfter]

/-- The key of the first entry is one more that is seen before the other ones. -/
theorem repeatedAfter_cons {seen : List String} {e : EntryAt} {entries : List EntryAt}
    (h : ∀ e' ∈ entries, e.start < e'.start) :
    repeatedAfter seen (e :: entries) =
      (if e.key ∈ seen then [e] else []) ++ repeatedAfter (e.key :: seen) entries := by
  have hfirst : ¬ ∃ e' ∈ e :: entries, e'.start < e.start ∧ e'.key = e.key := by
    rintro ⟨e', he', hlt, -⟩
    rcases List.mem_cons.mp he' with rfl | he'
    · omega
    · have := h e' he'
      omega
  have hrest : ∀ e' ∈ entries, (e'.key ∈ seen ∨
        ∃ f ∈ e :: entries, f.start < e'.start ∧ f.key = e'.key) ↔
      (e'.key ∈ e.key :: seen ∨ ∃ f ∈ entries, f.start < e'.start ∧ f.key = e'.key) := by
    intro e' he'
    have := h e' he'
    simp only [List.mem_cons, exists_eq_or_imp, this, true_and, eq_comm (a := e.key)]
    tauto
  rw [repeatedAfter, List.filter_cons, repeatedAfter]
  simp only [hfirst, or_false, decide_eq_true_eq]
  rw [List.filter_congr fun e' he' => decide_eq_decide.mpr (hrest e' he')]
  split <;> rfl

theorem EntriesTree.start_le_of_written : ∀ (es : EntriesTree) (start : Nat),
    ∀ e ∈ es.written start, start ≤ e.start
  | .last .., start => by
    intro e he
    obtain rfl := List.mem_singleton.mp he
    exact Nat.le_add_right _ _
  | .more _ _ _ _ _ _ _ rest, start => by
    intro e he
    rcases List.mem_cons.mp he with rfl | he
    · exact Nat.le_add_right _ _
    · have := rest.start_le_of_written _ e he
      omega

/-- The entries of some objects whose key has occurred before in the same object. -/
def repeatedIn (objects : List ObjectAt) : List EntryAt := objects.flatMap (·.repeated)

@[simp] theorem repeatedIn_append (os os' : List ObjectAt) :
    repeatedIn (os ++ os') = repeatedIn os ++ repeatedIn os' := List.flatMap_append

mutual

/-- **The notes of a value are those of the repeated entries of its objects**, in the order of their
ends, all of which lie inside the value. -/
theorem ValueTree.reports : ∀ (v : ValueTree) (start : Nat),
    Reports start (start + v.tokens.length) (repeatedIn (v.objects start)) v.notes
  | .literal .., start | .file .., start | .emptyArray .., start => .nil _ _
  | .array o items c, start => by
    refine (items.reports (start + 1)).mono (Nat.le_add_right _ _) ?_
    simp only [ValueTree.tokens, List.length_cons, List.length_append, List.length_nil]
    omega
  | .emptyObject o remarks c, start => .nil _ _
  | .object o es c, start => by
    have hentries := (es.reports (start + 1) []).mono (Nat.le_add_right start 1)
      (d := start + (ValueTree.object o es c).tokens.length) (by
        simp only [ValueTree.tokens, List.length_cons, List.length_append, List.length_nil]
        omega)
    refine hentries.perm (List.perm_append_comm.trans (.of_eq ?_))
    rw [ValueTree.objects, repeatedIn, repeatedIn, List.flatMap_cons, ObjectAt.repeated_eq]
    rfl

theorem ItemsTree.reports : ∀ (items : ItemsTree) (start : Nat),
    Reports start (start + items.tokens.length) (repeatedIn (items.objects start)) items.notes
  | .last before v after, start => by
    refine (v.reports (start + before.length)).mono (Nat.le_add_right _ _) ?_
    simp only [ItemsTree.tokens, List.length_append, List.length_map]
    omega
  | .more before v after comma rest, start => by
    have hvalue := (v.reports (start + before.length)).mono (Nat.le_add_right start _)
      (Nat.le_refl _)
    have hrest := (rest.reports (start + before.length + v.tokens.length + after.length + 1)).mono
      (c := start + before.length + v.tokens.length) (by omega) (Nat.le_refl _)
    simp only [ItemsTree.objects, repeatedIn_append, ItemsTree.notes]
    refine (hvalue.append hrest (by omega) (by omega)).mono (Nat.le_refl _) ?_
    simp only [ItemsTree.tokens, List.length_cons, List.length_append, List.length_map]
    omega

/-- The notes of entries are also those of the repeated ones among them. -/
theorem EntriesTree.reports : ∀ (es : EntriesTree) (start : Nat) (seen : List String),
    Reports start (start + es.tokens.length + 1)
      (repeatedIn (es.objects start) ++ repeatedAfter seen (es.written start)) (es.notes seen)
  | .last before m key colon v after, start, seen => by
    have hvalue := (v.reports (start + before.length + 2)).mono (c := start) (by omega)
      (Nat.le_refl _)
    have hown := Reports.entry ⟨start + before.length, m, key, colon, v⟩ (key ∈ seen)
    rw [EntryAt.ends_eq] at hown
    rw [EntriesTree.written, repeatedAfter_cons (by simp)]
    refine ((hvalue.append hown (by omega) (by omega)).mono (Nat.le_refl _) ?_).perm (.of_eq ?_)
    · simp only [EntriesTree.tokens, List.length_cons, List.length_append, List.length_map]
      omega
    · simp [EntriesTree.objects, repeatedAfter]
  | .more before m key colon v after comma rest, start, seen => by
    have hvalue := (v.reports (start + before.length + 2)).mono (c := start) (by omega)
      (Nat.le_refl _)
    have hown := Reports.entry ⟨start + before.length, m, key, colon, v⟩ (key ∈ seen)
    have hrest := (rest.reports (start + before.length + 2 + v.tokens.length + after.length + 1)
      (key :: seen)).mono (c := start + before.length + 2 + v.tokens.length + 1) (by omega)
      (Nat.le_refl _)
    rw [EntryAt.ends_eq] at hown
    have hafter : ∀ e ∈ rest.written
        (start + before.length + 2 + v.tokens.length + after.length + 1),
        start + before.length < e.start := by
      intro e he
      have := rest.start_le_of_written _ e he
      omega
    rw [EntriesTree.written, repeatedAfter_cons hafter, EntriesTree.objects, repeatedIn_append,
      EntriesTree.notes]
    refine (((hvalue.append hown (by omega) (by omega)).append hrest (by omega) (by omega)).mono
      (Nat.le_refl _) ?_).perm ?_
    · simp only [EntriesTree.tokens, List.length_cons, List.length_append, List.length_map]
      omega
    · -- the notes of the other values come before the other repeated entries of this object
      rw [List.append_assoc, List.append_assoc]
      exact List.perm_append_comm_assoc _ _ _ |>.append_left _
end

theorem StatementTree.reports (s : StatementTree) (start : Nat) :
    Reports start (start + s.tokens.length) (repeatedIn (s.objects start)) s.notes := by
  cases s with
  | assigned m key equals v =>
    refine (v.reports (start + 2)).mono (Nat.le_add_right start 2) ?_
    simp only [StatementTree.tokens, List.length_cons]
    omega
  | _ => exact .nil _ _

theorem reports (g : List StatementTree) (start : Nat) :
    Reports start (start + (tokens g).length) (repeatedIn (objects g start))
      (g.flatMap (·.notes)) := by
  induction g generalizing start with
  | nil => exact .nil _ _
  | cons s g ih =>
    rw [objects, repeatedIn_append, List.flatMap_cons, tokens, List.length_append, ← Nat.add_assoc]
    exact (s.reports start).append (ih _) (Nat.le_add_right _ _) (Nat.le_add_right _ _)

end Grammar

namespace Document

open Grammar

/-- **Repeated keys.** Whatever tokens make a document, its objects are those that the braces in
front of its end open; each of them denotes the ordered dictionary of its distinct keys, in the
order of their first occurrence, each with its last value. And the notes of the document are one for
each entry of these objects whose key has occurred before in the same object, at the line of the
key and with the key in it, in the order in which these entries end. -/
theorem ofTokens_repeated_keys {stripHint : Bool} {ts : List Token} {d : Document}
    (h : ofTokens stripHint ts = .ok d) :
    ∃ g, Derives g (Token.beforeFinish ts) ∧ d = Grammar.document stripHint g ∧
      (objects g 0).map (·.start) = (Token.beforeFinish ts).findIdxs opensObject ∧
      (∀ o ∈ objects g 0, o.StandsIn (Token.beforeFinish ts) ∧ o.Denotes) ∧
      ∃ es : List EntryAt, es.Perm (repeatedIn (objects g 0)) ∧
        es.Pairwise (·.ends < ·.ends) ∧ d.notes = es.map fun e =>
          ⟨e.mark.line, "Duplicate key '" ++ e.key ++ "' in object, the last value is kept"⟩ := by
  obtain ⟨g, hg, rfl⟩ := exists_derivation h
  have htokens : tokens g <+: (Token.beforeFinish ts).drop 0 := by
    rw [hg.2]
    exact List.prefix_refl _
  obtain ⟨es, hperm, hsorted, -, hnotes⟩ := Grammar.reports g 0
  refine ⟨g, hg, rfl, ?_, objects_denote g htokens, es, hperm, hsorted, hnotes⟩
  rw [← hg.2]
  exact start_objects g 0

/-- An object whose only key is repeated: the value that is replaced and the one that replaces it
both hold an object with a repeated key. -/
def replacedTokens : List Token :=
  [⟨.name "x", "x", 1⟩, ⟨.equals, "=", 1⟩, ⟨.leftBrace, "\x7b", 1⟩,
    ⟨.name "k", "k", 1⟩, ⟨.colon, ":", 1⟩, ⟨.leftBrace, "\x7b", 1⟩,
    ⟨.name "a", "a", 1⟩, ⟨.colon, ":", 1⟩, ⟨.boolean true, "true", 1⟩, ⟨.comma, ",", 1⟩,
    ⟨.name "a", "a", 2⟩, ⟨.colon, ":", 2⟩, ⟨.boolean false, "false", 2⟩, ⟨.rightBrace, "\x7d", 2⟩,
    ⟨.comma, ",", 2⟩,
    ⟨.name "k", "k", 3⟩, ⟨.colon, ":", 3⟩, ⟨.leftBracket, "[", 3⟩, ⟨.leftBrace, "\x7b", 3⟩,
    ⟨.name "b", "b", 3⟩, ⟨.colon, ":", 3⟩, ⟨.boolean true, "true", 3⟩, ⟨.comma, ",", 3⟩,
    ⟨.name "b", "b", 4⟩, ⟨.colon, ":", 4⟩, ⟨.boolean false, "false", 4⟩, ⟨.rightBrace, "\x7d", 4⟩,
    ⟨.rightBracket, "]", 4⟩, ⟨.rightBrace, "\x7d", 4⟩, ⟨.finish, "", 5⟩, ⟨.comma, ",", 5⟩]

/-- The key of the outer entry is on the third line, and the entry ends last. -/
theorem ofTokens_repeated_keys_replaced : ∃ d, ofTokens true replacedTokens = .ok d ∧
    d.nodes.map (·.statement) =
      [.assignment "x" (.object 1
        [("k", .array 3 [.object 3 [("b", .atom 4 (.boolean false))]])])] ∧
    ∃ g, Derives g (Token.beforeFinish replacedTokens) ∧
      (objects g 0).map (·.start) = [2, 5, 18] ∧ (∀ o ∈ objects g 0, o.Denotes) ∧
      ∃ es : List EntryAt, es.Perm (repeatedIn (objects g 0)) ∧
        (es.map fun e => (⟨e.mark.line,
          "Duplicate key '" ++ e.key ++ "' in object, the last value is kept"⟩ : Note)) =
        [⟨2, "Duplicate key 'a' in object, the last value is kept"⟩,
          ⟨4, "Duplicate key 'b' in object, the last value is kept"⟩,
          ⟨3, "Duplicate key 'k' in object, the last value is kept"⟩] := by
  have hd : ofTokens true replacedTokens = .ok _ := rfl
  have hmessages :
      [Parser.repeatedKey "a" 2, Parser.repeatedKey "b" 4, Parser.repeatedKey "k" 3] =
        [⟨2, "Duplicate key 'a' in object, the last value is kept"⟩,
          ⟨4, "Duplicate key 'b' in object, the last value is kept"⟩,
          ⟨3, "Duplicate key 'k' in object, the last value is kept"⟩] := by
    decide +kernel
  obtain ⟨g, hg, -, hstart, hobjects, es, hperm, -, hnotes⟩ := ofTokens_repeated_keys hd
  exact ⟨_, rfl, rfl, g, hg, hstart, fun o ho => (hobjects o ho).2, es, hperm,
    hnotes.symm.trans hmessages⟩

end Document

end Courseware
