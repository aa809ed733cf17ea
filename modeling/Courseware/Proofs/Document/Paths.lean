/-
Paths are read again from behind a directive.

A path is read up to the end of its line, a comma, a closing bracket, or a comment
behind a space or a tab, and then trimmed. Behind a directive and a space, with the
end of the text or a comma after it, it is read again, unless it looks like a comment
(`Directive.paths_read_again`). Then there is no path at all.

A path can look like a comment because two notions of blank meet. What is skipped in
front of a path are spaces, tabs and carriage returns, and what is trimmed off it are
all blanks. Behind another blank, a sign that would start a comment is part of the
path; behind the space that is written, it starts one.
-/
import Courseware.Proofs.Document.Directives
import Courseware.Proofs.Document.OverLines
import Courseware.Proofs.Token.Modes

namespace Courseware

/-! ## Paths that were read -/

namespace Scanner

variable {selectors : List Char} {s s' : Scanner} {t : Token} {path : String}

/-- An item of a text is what is next somewhere in it. -/
theorem exists_next_of_mem {fuel : Nat} (h : .ok t ∈ s.itemsWithin selectors fuel) :
    ∃ u u' : Scanner, u.next selectors = (.ok t, u') := by
  induction fuel generalizing s with
  | zero => cases h
  | succ fuel ih =>
    rw [itemsWithin] at h
    rcases hnext : s.next selectors with ⟨e | v, s'⟩
    · rw [hnext] at h
      cases List.mem_singleton.mp h
    · rw [hnext] at h
      rcases List.mem_cons.mp h with heq | hmem
      · cases heq
        exact ⟨s, s', hnext⟩
      · split at hmem
        · cases hmem
        · exact ih hmem

/-- What a path was cut from: the text that it reaches over, behind what was skipped. -/
structure CutFrom (path : String) (cs : List Char) : Prop where
  trimmed : path.toList = Text.trim cs
  reaches : Token.pathLength true cs = cs.length
  head : ∀ c ∈ cs.head?, Text.isGap c = false

theorem head_skip (s : Scanner) (p : Char → Bool) : ∀ c ∈ (s.skip p).rest.head?, p c = false := by
  intro c hc
  have hrest : (s.skip p).rest = s.rest.dropWhile p := by
    have hall := congrArg (List.drop (s.rest.takeWhile p).length)
      (List.takeWhile_append_dropWhile (p := p) (l := s.rest))
    rw [List.drop_left] at hall
    exact hall.symm
  have hnot := List.head?_dropWhile_not p s.rest
  rw [← hrest, Option.mem_def.mp hc] at hnot
  simpa using hnot

theorem cutFrom_of_path (h : (s.skip Text.isGap).path = (.ok t, s'))
    (hkind : t.kind = .path path) : CutFrom path t.lexeme.toList := by
  have hhead := head_skip s Text.isGap
  generalize s.skip Text.isGap = u at h hhead
  unfold Scanner.path at h
  dsimp only at h
  split at h
  · cases h
  · cases h
    cases hkind
    have hlexeme : (String.ofList ((u.inMode .initial).front
        (Token.pathLength true u.rest))).toList = u.rest.take (Token.pathLength true u.rest) :=
      String.toList_ofList
    refine ⟨?_, ?_, ?_⟩
    · rw [hlexeme, String.toList_ofList]
      rfl
    · rw [hlexeme, Token.pathLength_take, List.length_take,
        Nat.min_eq_left (Token.pathLength_le _ _)]
    · intro c hc
      rw [hlexeme, List.head?_take] at hc
      split at hc
      · cases hc
      · exact hhead c hc

theorem isPath_of_next (h : s.next selectors = (.ok t, s')) (hkind : t.kind = .path path) :
    Token.IsPath path.toList ∧ CutFrom path t.lexeme.toList := by
  have hlexeme := (next_sound selectors s t (by rw [h]) (by simp [hkind])).1
  have hobeys := obeys_next selectors s
  rw [h] at hobeys
  have hmode : s.mode = .path := (ScanMode.path_iff hobeys).mpr ⟨path, hkind⟩
  rw [hkind] at hlexeme
  rw [next, hmode] at h
  exact ⟨hlexeme, cutFrom_of_path h hkind⟩

end Scanner

/-- Whether a text starts with a blank that is not skipped in front of a path. -/
def Text.StartsWithOddBlank (cs : List Char) : Prop :=
  ∃ c ∈ cs.head?, Text.isBlank c = true ∧ Text.isGap c = false

/-- **Only a path behind an odd blank looks like a comment.** -/
theorem Scanner.CutFrom.startsWithOddBlank {path : String} {cs : List Char}
    (h : CutFrom path cs) (hcomment : Token.startsComment path.toList = true) :
    Text.StartsWithOddBlank cs := by
  cases cs with
  | nil =>
    rw [h.trimmed] at hcomment
    cases hcomment
  | cons c cs =>
    refine ⟨c, rfl, ?_, h.head c rfl⟩
    by_contra hblank
    rw [Bool.not_eq_true] at hblank
    -- nothing is trimmed off in front, so the comment would have ended the path where it starts
    have htrim : Text.trim (c :: cs) = Text.trimEnd (c :: cs) := by
      rw [Text.trim, Text.trimStart, List.dropWhile_cons_of_neg (by simp [hblank])]
    obtain ⟨r, hr⟩ := Text.trimEnd_prefix (c :: cs)
    have hstarts := Token.startsComment_append hcomment r
    rw [h.trimmed, htrim, hr] at hstarts
    exact (Token.pathLength_cons_eq_length_iff.mp h.reaches).1 (.inr (.inr ⟨rfl, hstarts⟩))

/-! ## Reading a path again -/

namespace Scanner

variable {selectors : List Char} {s s' s'' : Scanner} {ts : List Token}

/-- Some tokens and an error in place of the next one. -/
theorem Reads.itemsWithin_error (h : Reads selectors s ts s') {e : Error}
    (herror : s'.next selectors = (.error e, s'')) : ∀ {fuel : Nat}, s.rest.length < fuel →
      s.itemsWithin selectors fuel = ts.map .ok ++ [.error e] := by
  induction h with
  | done hnext =>
    intro fuel hfuel
    obtain ⟨n, rfl⟩ := Nat.exists_eq_succ_of_ne_zero (Nat.ne_zero_of_lt hfuel)
    simp [Scanner.itemsWithin, hnext.trans herror]
  | token hnext hkind _ ih =>
    intro fuel hfuel
    obtain ⟨n, rfl⟩ := Nat.exists_eq_succ_of_ne_zero (Nat.ne_zero_of_lt hfuel)
    have hlt := next_lt hnext hkind
    simp [Scanner.itemsWithin, hnext, hkind,
      ih herror (Nat.lt_of_lt_of_le hlt (Nat.le_of_lt_succ hfuel))]

/-- A text of which some tokens are read, and then an error. -/
theorem Reads.ofText?_error {start text : String} (h : Reads start.toList (.ofText text) ts s')
    {e : Error} (herror : s'.next start.toList = (.error e, s'')) :
    Token.ofText? start text = .error e := by
  have hitems : Item.ofText start text = ts.map .ok ++ [.error e] :=
    h.itemsWithin_error herror (Nat.lt_succ_self _)
  rw [Token.ofText?, hitems, Item.mapM_error]

/-- A path that looks like a comment is none behind a directive and a space. -/
theorem next_path_comment (selectors : List Char) {path : String}
    (hcomment : Token.startsComment path.toList = true) (r : List Char) (line openedAt : Nat) :
    ∃ s, (Scanner.mk (' ' :: (path.toList ++ r)) line .path openedAt).next selectors =
      (.error (LexicalFault.missingPath.error line), s) := by
  have hstarts := Token.startsComment_append hcomment r
  obtain ⟨c, cs, hcs, hgap⟩ : ∃ c cs, path.toList ++ r = c :: cs ∧ Text.isGap c = false := by
    generalize path.toList ++ r = ds at hstarts
    unfold Token.startsComment at hstarts
    split at hstarts
    · exact ⟨_, _, rfl, rfl⟩
    · exact ⟨_, _, rfl, rfl⟩
    · exact ⟨_, _, rfl, rfl⟩
    · cases hstarts
  rw [hcs] at hstarts ⊢
  have hlength : Token.pathLength true (c :: cs) = 0 := by
    rw [Token.pathLength_cons, if_pos (.inr (.inr ⟨rfl, hstarts⟩))]
  simp only [next, skip_space hgap, Scanner.path, hlength]
  exact ⟨_, rfl⟩

variable {r : List Char} {line openedAt : Nat} {last : Token}

/-- The number one is one digit. -/
theorem Scans.one (hr : Token.Delimited r) (h : Scans selectors (between r line openedAt) ts last) :
    Scans selectors (between ('1' :: r) line openedAt) (⟨.number (.ofInt 1), "1", line⟩ :: ts)
      last := by
  have hwritten : (Number.ofInt 1).written = ['1'] := by decide +kernel
  generalize Number.ofInt 1 = n at hwritten ⊢
  cases n with
  | nan => cases hwritten
  | infinite negative => cases negative <;> cases hwritten
  | finite negative m =>
    have hone := h.number negative m hr
    rwa [Number.text, hwritten] at hone

end Scanner

namespace Directive

open Scanner (Scans Reads between)

/-- A directive and its path, as a statement or a value with them is written. -/
def written (d : Directive) (path : String) : String :=
  String.ofList (Atom.directive d.keyword path)

/-- A directive and its path as the first of two items. -/
def writtenInArray (d : Directive) (path : String) : String :=
  String.ofList ('[' :: (Atom.directive d.keyword path ++ ", 1]".toList))

/-- The tokens of a directive and its path. -/
def tokens (d : Directive) (path : String) : List Token :=
  [⟨.directive d, d.keyword, 1⟩, ⟨.path path, path, 1⟩]

/-- Whether a directive with its path is read from what is written, alone and in an array. -/
structure ReadsAgain (start : String) (d : Directive) (path : String) : Prop where
  alone : Token.ofText? start (d.written path) = .ok (d.tokens path ++ [⟨.finish, "", 1⟩])
  inArray : Token.ofText? start (d.writtenInArray path) = .ok (⟨.leftBracket, "[", 1⟩ ::
    (d.tokens path ++ [⟨.comma, ",", 1⟩, ⟨.number (.ofInt 1), "1", 1⟩, ⟨.rightBracket, "]", 1⟩,
      ⟨.finish, "", 1⟩]))

/-- Whether the path of a directive is missed in what is written, alone and in an array. -/
structure LosesPath (start : String) (d : Directive) (path : String) : Prop where
  alone : Token.ofText? start (d.written path) = .error (LexicalFault.missingPath.error 1)
  inArray : Token.ofText? start (d.writtenInArray path) = .error (LexicalFault.missingPath.error 1)

variable {path : String}

theorem readsAgain (start : String) (d : Directive) (hpath : Token.IsPath path.toList)
    (hcomment : Token.startsComment path.toList = false) : d.ReadsAgain start path where
  alone := by
    have hscans := (Scanner.scans_nil start.toList 1 0).directive d hpath hcomment (by rintro c ⟨⟩)
    rw [List.append_nil, ← String.toList_ofList (l := Atom.directive _ _)] at hscans
    exact Token.ofText?_of_scans hscans
  inArray := by
    have hcomma : (',', TokenKind.comma) ∈ Scanner.signs := by decide
    have hopens : ('[', TokenKind.leftBracket) ∈ Scanner.signs := by decide
    have hcloses : (']', TokenKind.rightBracket) ∈ Scanner.signs := by decide
    have hbracket := (Scanner.scans_nil start.toList 1 0).sign hcloses
    have hone := hbracket.one (fun _ hc => by cases hc; rfl)
    have hdirective := (hone.space.sign hcomma).directive d hpath hcomment
      (Grammar.pathEnded_cons (.inr rfl) _)
    have hscans := hdirective.sign hopens
    rw [← String.toList_ofList (l := '[' :: _)] at hscans
    exact Token.ofText?_of_scans hscans

theorem losesPath (start : String) (d : Directive)
    (hcomment : Token.startsComment path.toList = true) : d.LosesPath start path where
  alone := by
    obtain ⟨s, hnext⟩ := Scanner.next_path_comment start.toList hcomment [] 1 0
    have hdirective := Scanner.next_directive start.toList d path [] 1 0
    have hreads := Reads.token hdirective (by simp) (.done rfl)
    rw [List.append_nil, ← String.toList_ofList (l := Atom.directive _ _)] at hreads
    exact Reads.ofText?_error hreads hnext
  inArray := by
    obtain ⟨s, hnext⟩ := Scanner.next_path_comment start.toList hcomment ", 1]".toList 1 0
    have hdirective := Scanner.next_directive start.toList d path ", 1]".toList 1 0
    have hreads : Reads start.toList
        (between ('[' :: (Atom.directive d.keyword path ++ ", 1]".toList)) 1 0)
        [⟨.leftBracket, "[", 1⟩, ⟨.directive d, d.keyword, 1⟩]
        ⟨' ' :: (path.toList ++ ", 1]".toList), 1, .path, 0⟩ :=
      .token rfl (by simp) (.token hdirective (by simp) (.done rfl))
    rw [← String.toList_ofList (l := '[' :: _)] at hreads
    exact Reads.ofText?_error hreads hnext

/-- **A path is read again behind a directive, or it looks like a comment and is missed.** -/
theorem readsAgain_iff (start : String) (d : Directive) (hpath : Token.IsPath path.toList) :
    d.ReadsAgain start path ↔ Token.startsComment path.toList = false := by
  refine ⟨fun h => ?_, d.readsAgain start hpath⟩
  by_contra hcomment
  rw [Bool.not_eq_false] at hcomment
  have hloses := (d.losesPath start hcomment).alone
  rw [h.alone] at hloses
  cases hloses

end Directive

/-! ## The directives of a document -/

/-- The path of a directive among tokens is the path of a token. -/
theorem Token.exists_path_of_mem_directives {x : Directive × String} {ts : List Token}
    (h : x ∈ directives ts) : ∃ t ∈ ts, t.kind = .path x.2 := by
  fun_induction directives ts with
  | case1 d _ _ path _ _ ts ih =>
    rcases List.mem_cons.mp h with rfl | h
    · exact ⟨_, List.mem_cons_of_mem _ List.mem_cons_self, rfl⟩
    · obtain ⟨t, ht, hkind⟩ := ih h
      exact ⟨t, List.mem_cons_of_mem _ (List.mem_cons_of_mem _ ht), hkind⟩
  | case2 u ts _ ih =>
    obtain ⟨t, ht, hkind⟩ := ih h
    exact ⟨t, List.mem_cons_of_mem _ ht, hkind⟩
  | case3 => cases h

/-- An entry that is inserted brings its own directives, and may take the place of others. -/
theorem Value.mem_entriesDirectives_insert {x : Directive × String} {d : Dict Value} {k : String}
    {v : Value} (h : x ∈ entriesDirectives (Dict.insert d k v)) :
    x ∈ entriesDirectives d ∨ x ∈ v.directives := by
  induction d with
  | nil => simpa [Dict.insert, entriesDirectives] using h
  | cons entry d ih =>
    obtain ⟨key, w⟩ := entry
    rw [Dict.insert] at h
    split at h
    · simp only [entriesDirectives, List.mem_append] at h ⊢
      tauto
    · simp only [entriesDirectives, List.mem_append] at h ⊢
      rcases h with h | h
      · exact .inl (.inl h)
      · exact (ih h).imp_left .inr

namespace Grammar

open Token (directives)

variable {x : Directive × String}

mutual

/-- What a value holds as directives are directives of its tokens. -/
theorem ValueTree.mem_directives : ∀ (v : ValueTree) (ts : List Token),
    x ∈ v.value.directives ∨ x ∈ directives ts → x ∈ directives (v.tokens ++ ts)
  | .literal m l, ts, h => by cases l <;> exact List.mem_append.mpr h
  | .file m f pm path, ts, h => by cases f <;> exact List.mem_append.mpr h
  | .emptyArray o remarks c, ts, h => by
    simpa [ValueTree.tokens, ValueTree.value, Value.directives, Value.itemsDirectives] using h
  | .array o items c, ts, h => by
    have hitems := items.mem_directives (c.token .rightBracket :: ts)
      (by simpa [ValueTree.value, Value.directives] using h)
    simpa [ValueTree.tokens] using hitems
  | .emptyObject o remarks c, ts, h => by
    simpa [ValueTree.tokens, ValueTree.value, Value.directives, Value.entriesDirectives] using h
  | .object o entries c, ts, h => by
    have hentries := entries.mem_directives [] (c.token .rightBrace :: ts)
      (by simpa [ValueTree.value, Value.directives] using h)
    simpa [ValueTree.tokens, Value.entriesDirectives] using hentries

theorem ItemsTree.mem_directives : ∀ (items : ItemsTree) (ts : List Token),
    x ∈ Value.itemsDirectives items.values ∨ x ∈ directives ts →
      x ∈ directives (items.tokens ++ ts)
  | .last before v after, ts, h => by
    have hv := v.mem_directives (after.map Remark.token ++ ts)
      (by simpa [ItemsTree.values, Value.itemsDirectives] using h)
    simpa [ItemsTree.tokens] using hv
  | .more before v after comma rest, ts, h => by
    simp only [ItemsTree.values, Value.itemsDirectives, List.mem_append, or_assoc] at h
    have hv := v.mem_directives
      (after.map Remark.token ++ comma.token .comma :: (rest.tokens ++ ts))
      (by simpa using h.imp_right (rest.mem_directives ts))
    simpa [ItemsTree.tokens] using hv

theorem EntriesTree.mem_directives : ∀ (entries : EntriesTree) (d : Dict Value) (ts : List Token),
    x ∈ Value.entriesDirectives (entries.insertInto d) ∨ x ∈ directives ts →
      x ∈ Value.entriesDirectives d ∨ x ∈ directives (entries.tokens ++ ts)
  | .last before m key colon v after, d, ts, h => by
    have h := or_assoc.mp (h.imp_left Value.mem_entriesDirectives_insert)
    refine h.imp_right fun h => ?_
    have hv := v.mem_directives (after.map Remark.token ++ ts) (by simpa using h)
    simpa [EntriesTree.tokens] using hv
  | .more before m key colon v after comma rest, d, ts, h => by
    have hrest := rest.mem_directives _ ts h
    have h := or_assoc.mp (hrest.imp_left Value.mem_entriesDirectives_insert)
    refine h.imp_right fun h => ?_
    have hv := v.mem_directives
      (after.map Remark.token ++ comma.token .comma :: (rest.tokens ++ ts))
      (by simpa using h)
    simpa [EntriesTree.tokens] using hv

end

theorem StatementTree.mem_directives {stripHint : Bool} (s : StatementTree) (ts : List Token)
    (h : x ∈ (s.statement stripHint).directives ∨ x ∈ directives ts) :
    x ∈ directives (s.tokens ++ ts) := by
  cases s with
  | comment r =>
    rw [StatementTree.tokens, List.singleton_append, Remark.token, directives_mark_cons _ (by simp)]
    simpa [StatementTree.statement, Statement.directives] using h
  | assigned m key equals v =>
    simpa [StatementTree.tokens] using v.mem_directives ts h
  | empty | body | inclusion | extension =>
    simpa [StatementTree.tokens, StatementTree.statement, Statement.directives, Value.directives,
      Atom.directives, directives_file] using h

/-- **A document holds only directives of its tokens.** Where an object repeats a key it does not
hold all of them. -/
theorem mem_directives {stripHint : Bool} {g : List StatementTree} (ts : List Token)
    (h : x ∈ (document stripHint g).directives) : x ∈ directives (tokens g ++ ts) := by
  induction g with
  | nil => cases h
  | cons s g ih =>
    rw [tokens, List.append_assoc]
    exact s.mem_directives _ ((List.mem_append.mp h).imp_right ih)

end Grammar

/-- The path of a directive of a document is the path of a token of its text. -/
theorem Document.exists_path_of_mem_directives {options : Options} {text : String} {doc : Document}
    (h : ofText options text = .ok doc) {x : Directive × String} (hx : x ∈ doc.directives) :
    ∃ t : Token, .ok t ∈ Item.ofText options.componentStart text ∧ t.kind = .path x.2 := by
  obtain ⟨g, last, hscans, -, rfl⟩ := ofText_eq_ok_iff_exists_derivation.mp h
  obtain ⟨t, ht, hkind⟩ :=
    Token.exists_path_of_mem_directives (Grammar.mem_directives [] hx)
  rw [List.append_nil] at ht
  refine ⟨t, ?_, hkind⟩
  rw [Item.ofText_of_scans hscans]
  exact List.mem_append_left _ (List.mem_map_of_mem ht)

/-! ## Every path -/

namespace Directive

/-- What becomes of the path of a token behind any directive: it is read again, or it looks like a
comment and is missed. Then it was read behind an odd blank. -/
def PathKept (start : String) (t : Token) (path : String) : Prop :=
  if Token.startsComment path.toList = true then
    Text.StartsWithOddBlank t.lexeme.toList ∧ ∀ d : Directive, d.LosesPath start path
  else ∀ d : Directive, d.ReadsAgain start path

theorem pathKept_of_mem {selectors text : String} {t : Token} {path : String}
    (h : .ok t ∈ Item.ofText selectors text) (hkind : t.kind = .path path) (start : String) :
    PathKept start t path := by
  obtain ⟨u, u', hnext⟩ := Scanner.exists_next_of_mem h
  obtain ⟨hpath, hcut⟩ := Scanner.isPath_of_next hnext hkind
  unfold PathKept
  split
  · next hcomment =>
    exact ⟨hcut.startsWithOddBlank hcomment, fun d => d.losesPath start hcomment⟩
  · next hcomment =>
    exact fun d => d.readsAgain start hpath (Bool.not_eq_true _ ▸ hcomment)

/-- **The path of every token is read again behind every directive, unless it looks like a
comment**; and so is the path of every directive of a document. -/
theorem paths_read_again (start : String) :
    (∀ (selectors text : String) (t : Token) (path : String),
      .ok t ∈ Item.ofText selectors text → t.kind = .path path → PathKept start t path) ∧
    ∀ (options : Options) (text : String) (doc : Document), Document.ofText options text = .ok doc →
      ∀ x ∈ doc.directives, x.1.ReadsAgain start x.2 ↔ Token.startsComment x.2.toList = false := by
  refine ⟨fun selectors text t path h hkind => pathKept_of_mem h hkind start,
    fun options text doc hdoc x hx => ?_⟩
  obtain ⟨t, ht, hkind⟩ := Document.exists_path_of_mem_directives hdoc hx
  obtain ⟨u, u', hnext⟩ := Scanner.exists_next_of_mem ht
  exact x.1.readsAgain_iff start (Scanner.isPath_of_next hnext hkind).1

/-- A path with a comment behind it, and one behind a no-break space. -/
def oddText : String := "x = [@copyurl a/b//c #d\n, @extends \u00a0//y ]"

def oddTokens : List Token :=
  [⟨.name "x", "x", 1⟩, ⟨.equals, "=", 1⟩, ⟨.leftBracket, "[", 1⟩, ⟨.directive .url, "@copyurl", 1⟩,
    ⟨.path "a/b//c", "a/b//c ", 1⟩, ⟨.comment "#d", "#d", 1⟩, ⟨.comma, ",", 2⟩,
    ⟨.directive .extension, "@extends", 2⟩, ⟨.path "//y", "\u00a0//y ", 2⟩, ⟨.rightBracket, "]", 2⟩,
    ⟨.finish, "", 2⟩]

/-- The first one is read again, and the second one is not. -/
theorem paths_read_again_odd :
    (∀ t ∈ oddTokens, .ok t ∈ Item.ofText "wc-" oddText) ∧
    PathKept "" ⟨.path "//y", "\u00a0//y ", 2⟩ "//y" ∧
    ∃ doc, Document.ofText {} oddText = .ok doc ∧
      doc.directives = [(.url, "a/b//c"), (.extension, "//y")] ∧
      url.ReadsAgain "" "a/b//c" ∧ ¬ extension.ReadsAgain "" "//y" := by
  have hitems : Item.ofText "wc-" oddText = oddTokens.map .ok := by decide +kernel
  have htokens : Token.ofText? "wc-" oddText = .ok oddTokens := by
    rw [Token.ofText?, hitems, Item.mapM_ok]
  have hmem : ∀ t ∈ oddTokens, .ok t ∈ Item.ofText "wc-" oddText := fun t ht =>
    hitems ▸ List.mem_map_of_mem ht
  have hdoc : Document.ofText {} oddText = .ok ⟨[⟨.assignment "x" (.array 1
      [.atom 1 (.url "a/b//c"), .atom 2 (.dictionary "//y")]), 1, ""⟩], []⟩ := by
    rw [← Document.ofScannedText_eq_ok_iff, Document.ofScannedText, htokens]
    rfl
  have hall := (paths_read_again "").2 {} oddText _ hdoc
  refine ⟨hmem, (paths_read_again "").1 "wc-" oddText _ "//y" (hmem _ (by decide)) rfl, _, hdoc,
    rfl, (hall (.url, "a/b//c") ?_).mpr rfl, fun hagain => ?_⟩
  · decide
  · exact absurd ((hall (.extension, "//y") (by decide)).mp hagain) (by decide)

/-- **Not every path is read again behind a directive.** A number sign behind a no-break space
starts a path, and behind a space it starts a comment. -/
theorem not_paths_read_again :
    ¬ ∀ (selectors text : String) (t : Token) (path : String),
      .ok t ∈ Item.ofText selectors text → t.kind = .path path →
        inclusion.ReadsAgain selectors path := by
  intro hall
  have hitems : Item.ofText "wc-" "@include \u00a0#x" =
      [.ok ⟨.directive .inclusion, "@include", 1⟩, .ok ⟨.path "#x", "\u00a0#x", 1⟩,
        .ok ⟨.finish, "", 1⟩] := by
    decide +kernel
  have hmem : .ok ⟨.path "#x", "\u00a0#x", 1⟩ ∈ Item.ofText "wc-" "@include \u00a0#x" := by
    rw [hitems]
    exact List.mem_cons_of_mem _ List.mem_cons_self
  have hagain := (hall "wc-" _ _ "#x" hmem rfl).alone
  rw [(inclusion.losesPath "wc-" (by decide)).alone] at hagain
  cases hagain

end Directive

end Courseware
