/-
A token is read in the same way when the text goes on behind it.

The scanner may also stand on another line: `Onward k r s s'` says that `s'`
has the text of `s` with `r` behind it, and stands `k` lines further down. Then
the same token is read from both (`follows_next`), and so are all tokens up to
where the first text ends (`Scans.onward`). There the scanner goes over the
spaces that are left, and reads what goes on.

One token is not quite the same. The `==` at the very end of a text takes the
newline that follows it, so tokens are compared by kind and line (`Below`), and
not by lexeme. And the text must not end inside a value over several lines,
because what goes on would be one of its lines (`Scans.rest_ne_nil`).
-/
import Courseware.Proofs.Token.LineEnd
import Courseware.Proofs.Token.Tiling

namespace Courseware

open Text (newlines)

variable {r : List Char}

/-! ## One token -/

/-- Whether a token is another one `k` lines further down, whatever the lexemes are. -/
structure Token.Below (k : Nat) (t t' : Token) : Prop where
  kind : t'.kind = t.kind
  line : t'.line = t.line + k

namespace Scanner

variable {selectors : List Char} {k : Nat} {s s' : Scanner}

/-- Whether a scanner has the text of another one with `r` behind it, and stands `k` lines further
down. -/
structure Onward (k : Nat) (r : List Char) (s s' : Scanner) : Prop where
  rest : s'.rest = s.rest ++ r
  line : s'.line = s.line + k
  mode : s'.mode = s.mode

/-- Whether the token that is read in one place is also read in another one further on, and is
followed by the same. The last token is left out, and so are the lines of a value behind which the
text ends: what goes on there would be one of them. -/
def Follows (selectors : List Char) (k : Nat) (r : List Char) (a b : Item × Scanner) : Prop :=
  ∀ t u, a = (.ok t, u) → t.kind ≠ .finish → (u.mode = .body → u.rest ≠ []) →
    ∃ t' u' v, b = (.ok t', u') ∧ t.Below k t' ∧ Onward k r u v ∧
      u'.next selectors = v.next selectors

theorem Onward.inMode (h : Onward k r s s') (mode : ScanMode) :
    Onward k r (s.inMode mode) (s'.inMode mode) := ⟨h.rest, h.line, rfl⟩

theorem Onward.front (h : Onward k r s s') {n : Nat} (hn : n ≤ s.rest.length) :
    s'.front n = s.front n := by
  rw [Scanner.front, h.rest, List.take_append_of_le_length hn, Scanner.front]

theorem Onward.advance (h : Onward k r s s') {n : Nat} (hn : n ≤ s.rest.length) :
    Onward k r (s.advance n) (s'.advance n) := by
  refine ⟨?_, ?_, h.mode⟩
  · show s'.rest.drop n = s.rest.drop n ++ r
    rw [h.rest, List.drop_append_of_le_length hn]
  · show s'.line + newlines (s'.front n) = s.line + newlines (s.front n) + k
    rw [h.front hn, h.line]
    omega

/-- A token that ends with its line is as long in both places. -/
theorem Onward.stop {f : List Char → Nat} (h : Onward k r s s') (hf : Token.StopsAtLineEnd f)
    (hr : LineEnded r) (hrest : s.rest ≠ []) : f s'.rest = f s.rest ∧ f s.rest ≤ s.rest.length :=
  ⟨by rw [h.rest, hf.onward hr.broken hrest], hf.le hrest⟩

theorem follows_fail (n : Nat) (fault : LexicalFault) (b : Item × Scanner) :
    Follows selectors k r (s.fail n fault) b := fun t u h => by cases h

theorem follows_take (h : Onward k r s s') {n : Nat} (hn : n ≤ s.rest.length) (kind : TokenKind) :
    Follows selectors k r (s.take n kind) (s'.take n kind) := by
  intro t u htake _ _
  cases htake
  exact ⟨_, _, _, rfl, ⟨rfl, h.line⟩, h.advance hn, rfl⟩

theorem follows_lineComment (hr : LineEnded r) (h : Onward k r s s') :
    Follows selectors k r s.lineComment s'.lineComment := by
  intro t u hcomment _ _
  cases hcomment
  have hline : Text.firstLine s'.rest = Text.firstLine s.rest := by
    rw [h.rest, Text.firstLine_onward hr]
  have hle := (Text.firstLine_prefix s.rest).length_le
  unfold lineComment
  rw [hline]
  exact ⟨_, _, _, rfl, ⟨rfl, h.line⟩, h.advance hle, rfl⟩

theorem follows_blockComment {cs : List Char} (hrest : s.rest = '/' :: '*' :: cs)
    (h : Onward k r s s') : Follows selectors k r s.blockComment s'.blockComment := by
  have hdrop : s.rest.drop 2 = cs := by rw [hrest]; rfl
  have hdrop' : s'.rest.drop 2 = cs ++ r := by rw [h.rest, hrest]; rfl
  unfold blockComment
  rw [hdrop, hdrop']
  cases htail : Token.commentTail cs with
  | none => exact follows_fail _ _ _
  | some n =>
    have hle : n + 2 ≤ s.rest.length := by
      have hn := Token.commentTail_le htail
      rw [hrest, List.length_cons, List.length_cons]
      omega
    rw [Token.commentTail_append htail r]
    dsimp only
    rw [h.front hle]
    exact follows_take h hle _

theorem follows_opening {cs : List Char} (hrest : s.rest = '=' :: '=' :: cs)
    (h : Onward k r s s') : Follows selectors k r s.opening s'.opening := by
  have hdrop : s.rest.drop 2 = cs := by rw [hrest]; rfl
  have hdrop' : s'.rest.drop 2 = cs ++ r := by rw [h.rest, hrest]; rfl
  have hle : (Text.firstLineWithEnd cs).length + 2 ≤ s.rest.length := by
    have hn := (Text.firstLineWithEnd_prefix cs).length_le
    rw [hrest, List.length_cons, List.length_cons]
    omega
  intro t u hopening hkind hbody
  unfold opening at hopening ⊢
  rw [hdrop] at hopening
  rw [hdrop']
  by_cases hmem : '\n' ∈ cs
  · rw [Text.firstLineWithEnd_onward hmem]
    dsimp only at hopening ⊢
    split at hopening
    · cases hopening
      have hadvance := h.advance hle
      exact ⟨_, _, { s'.advance ((Text.firstLineWithEnd cs).length + 2) with
        mode := .body, openedAt := s'.line }, rfl, ⟨rfl, h.line⟩,
        ⟨hadvance.rest, hadvance.line, rfl⟩, rfl⟩
    · cases hopening
  · -- no line of the value comes after it
    dsimp only at hopening
    split at hopening
    · cases hopening
      refine absurd ?_ (hbody rfl)
      rw [Text.firstLineWithEnd_last hmem]
      show s.rest.drop (cs.length + 2) = []
      rw [hrest]
      simp
    · cases hopening

theorem follows_directive (hr : LineEnded r) (hrest : s.rest ≠ []) (h : Onward k r s s') :
    Follows selectors k r s.directive s'.directive := by
  obtain ⟨hcount, hle⟩ := h.stop Token.directiveLength_stops hr hrest
  unfold directive
  dsimp only
  rw [hcount, h.front hle]
  split
  · exact follows_take (h.inMode .path) hle _
  · exact follows_fail _ _ _

theorem follows_string (hrest : s.rest ≠ []) (quote : Char) (h : Onward k r s s') :
    Follows selectors k r (s.string quote) (s'.string quote) := by
  obtain ⟨c, cs, hcs⟩ := List.exists_cons_of_ne_nil hrest
  have hdrop : s.rest.drop 1 = cs := by rw [hcs]; rfl
  have hdrop' : s'.rest.drop 1 = cs ++ r := by rw [h.rest, hcs]; rfl
  unfold string
  rw [hdrop, hdrop']
  cases htail : Token.stringTail quote cs with
  | error fault => exact follows_fail _ _ _
  | ok tail =>
    obtain ⟨hgo, hle⟩ := Token.stringTail_onward htail r
    rw [hgo]
    refine follows_take h ?_ _
    rw [hcs, List.length_cons]
    exact Nat.add_le_add_right hle 1

theorem follows_number (hr : LineEnded r) (hrest : s.rest ≠ []) (h : Onward k r s s') :
    Follows selectors k r s.number s'.number := by
  obtain ⟨hcount, hle⟩ := h.stop Token.numberLength_stops hr hrest
  unfold number
  dsimp only
  rw [hcount, h.front hle]
  split
  · exact follows_take h hle _
  · exact follows_fail _ _ _

theorem follows_name (hr : LineEnded r) (hrest : s.rest ≠ []) (h : Onward k r s s') (c : Char) :
    Follows selectors k r (s.name c) (s'.name c) := by
  obtain ⟨hcount, hle⟩ := h.stop Token.nameLength_stops hr hrest
  unfold name
  rw [hcount]
  split
  · exact follows_fail _ _ _
  · next hne =>
    rw [h.front hle]
    exact follows_take h hle _

theorem follows_selector (hr : LineEnded r) (h : Onward k r s s') {start : List Char}
    (hstart : Text.startsWith s.rest start = true) (hne : start ≠ []) (c : Char) :
    Follows selectors k r (s.selector start c) (s'.selector start c) := by
  obtain ⟨cs, hcs⟩ := List.isPrefixOf_iff_prefix.mp hstart
  have hrest : s.rest ≠ [] := by
    rw [← hcs]
    simp [hne]
  have hdrop : s.rest.drop start.length = cs := by rw [← hcs, List.drop_left]
  have hdrop' : s'.rest.drop start.length = cs ++ r := by
    rw [h.rest, ← hcs, List.append_assoc, List.drop_left]
  have hle : start.length + Token.selectorLength cs ≤ s.rest.length := by
    have hn := Token.selectorLength_le cs
    rw [← hcs, List.length_append]
    omega
  unfold selector
  rw [hdrop, hdrop', Token.selectorLength_onward hr.broken]
  split
  · exact follows_name hr hrest h c
  · dsimp only
    rw [h.front hle]
    exact follows_take h hle _

theorem token_equals {cs : List Char} (hrest : s.rest = '=' :: cs) (h : ∀ ds, cs ≠ '=' :: ds) :
    s.token selectors = s.take 1 .equals := by
  unfold token
  rw [hrest]
  split <;> grind

/-- What starts with no sign of its own is a number, the name of a component, or a name. -/
theorem token_other {c : Char} {cs : List Char} (hrest : s.rest = c :: cs)
    (hc : c ∉ ['#', '=', ':', ',', '[', ']', '\x7b', '\x7d', '@', '"', '\x27'])
    (hslashes : c = '/' → ∀ ds, cs ≠ '/' :: ds) (hblock : c = '/' → ∀ ds, cs ≠ '*' :: ds) :
    s.token selectors =
      if c.isDigit || ((c = '+' || c = '-') && (cs.head?.any Char.isDigit)) then s.number
      else if selectors ≠ [] ∧ Text.startsWith s.rest selectors then s.selector selectors c
      else s.name c := by
  unfold token
  rw [hrest]
  split <;> simp_all

/-- Which token it is depends on two characters at most, and on whether a component starts there. A
newline and a carriage return are none of the second ones that make a difference. -/
theorem token_alike {motive : Item × Scanner → Item × Scanner → Prop} {c : Char}
    {cs cs' : List Char} (hrest : s.rest = c :: cs) (hrest' : s'.rest = c :: cs')
    (hsecond : ∀ d, d ≠ '\n' → d ≠ '\r' → (cs'.head? = some d ↔ cs.head? = some d))
    (hstarts : Text.startsWith s'.rest selectors = Text.startsWith s.rest selectors)
    (hline : motive s.lineComment s'.lineComment)
    (hblock : ∀ ds, s.rest = '/' :: '*' :: ds → motive s.blockComment s'.blockComment)
    (hopening : ∀ ds, s.rest = '=' :: '=' :: ds → motive s.opening s'.opening)
    (hone : ∀ kind, motive (s.take 1 kind) (s'.take 1 kind))
    (hdirective : motive s.directive s'.directive)
    (hstring : ∀ quote, motive (s.string quote) (s'.string quote))
    (hnumber : motive s.number s'.number)
    (hselector : selectors ≠ [] → Text.startsWith s.rest selectors = true →
      motive (s.selector selectors c) (s'.selector selectors c))
    (hname : motive (s.name c) (s'.name c)) :
    motive (s.token selectors) (s'.token selectors) := by
  have hkeeps : ∀ d ds, d ≠ '\n' → d ≠ '\r' → cs = d :: ds → ∃ ds', cs' = d :: ds' := by
    intro d ds hnewline hreturn hds
    exact List.head?_eq_some_iff.mp ((hsecond d hnewline hreturn).mpr (by rw [hds]; rfl))
  have hlacks : ∀ d, d ≠ '\n' → d ≠ '\r' → (∀ ds, cs ≠ d :: ds) → ∀ ds, cs' ≠ d :: ds := by
    intro d hnewline hreturn hne ds hds
    have hhead := (hsecond d hnewline hreturn).mp (by rw [hds]; rfl)
    obtain ⟨ds', hds'⟩ := List.head?_eq_some_iff.mp hhead
    exact hne ds' hds'
  have hdigit : cs'.head?.any Char.isDigit = cs.head?.any Char.isDigit := by
    rw [Bool.eq_iff_iff, Option.any_eq_true, Option.any_eq_true]
    refine exists_congr fun d => and_congr_left fun hd => ?_
    exact hsecond d (by rintro rfl; cases hd) (by rintro rfl; cases hd)
  unfold token
  split
  case h_1 hnil => exact absurd (hrest.symm.trans hnil) (List.cons_ne_nil c cs)
  case h_2 ds hds =>
    cases hrest.symm.trans hds
    rw [hrest']
    exact hline
  case h_3 ds hds =>
    cases hrest.symm.trans hds
    obtain ⟨ds', rfl⟩ := hkeeps '/' ds (by decide) (by decide) rfl
    rw [hrest']
    exact hline
  case h_4 ds hds =>
    cases hrest.symm.trans hds
    obtain ⟨ds', rfl⟩ := hkeeps '*' ds (by decide) (by decide) rfl
    rw [hrest']
    exact hblock ds hds
  case h_5 ds hds =>
    cases hrest.symm.trans hds
    obtain ⟨ds', rfl⟩ := hkeeps '=' ds (by decide) (by decide) rfl
    rw [hrest']
    exact hopening ds hds
  case h_6 ds hne hds =>
    cases hrest.symm.trans hds
    have htoken : s'.token selectors = s'.take 1 .equals :=
      token_equals hrest' (hlacks '=' (by decide) (by decide) hne)
    show motive _ (s'.token selectors)
    rw [htoken]
    exact hone _
  case h_13 ds hds =>
    cases hrest.symm.trans hds
    rw [hrest']
    exact hdirective
  case h_14 ds hds | h_15 ds hds =>
    cases hrest.symm.trans hds
    rw [hrest']
    exact hstring _
  case h_16 d ds _ hslashes hblock _ _ _ _ _ _ _ _ _ _ _ hds =>
    cases hrest.symm.trans hds
    have htoken : s'.token selectors = _ := token_other hrest' (by simp_all)
      (fun hc => hlacks '/' (by decide) (by decide) fun ds => hslashes ds hc)
      (fun hc => hlacks '*' (by decide) (by decide) fun ds => hblock ds hc)
    show motive _ (s'.token selectors)
    rw [htoken, hdigit, hstarts]
    split
    · exact hnumber
    · split
      · next hstart => exact hselector hstart.1 hstart.2
      · exact hname
  all_goals
    next ds hds =>
      cases hrest.symm.trans hds
      rw [hrest']
      exact hone _

theorem follows_token (hr : LineEnded r) (hselectors : '\n' ∉ selectors) (hrest : s.rest ≠ [])
    (h : Onward k r s s') : Follows selectors k r (s.token selectors) (s'.token selectors) := by
  obtain ⟨c, cs, hcs⟩ := List.exists_cons_of_ne_nil hrest
  have hcs' : s'.rest = c :: (cs ++ r) := by rw [h.rest, hcs]; rfl
  have hstarts : Text.startsWith s'.rest selectors = Text.startsWith s.rest selectors := by
    rw [h.rest]
    exact Text.startsWith_onward (fun c hc => by rw [hr c hc]; exact hselectors) s.rest
  refine token_alike hcs hcs' ?_ hstarts (follows_lineComment hr h)
    (fun ds hds => follows_blockComment hds h) (fun ds hds => follows_opening hds h)
    (fun kind => follows_take h (by simp [hcs]) kind) (follows_directive hr hrest h)
    (fun quote => follows_string hrest quote h) (follows_number hr hrest h)
    (fun hne hstart => follows_selector hr h hstart hne c) (follows_name hr hrest h c)
  intro d hnewline _
  cases cs with
  | nil => exact ⟨fun hd => absurd (hr d hd) hnewline, fun hd => by cases hd⟩
  | cons d cs => exact Iff.rfl

theorem follows_path (hr : LineEnded r) (h : Onward k r s s') :
    Follows selectors k r s.path s'.path := by
  have hcount : Token.pathLength true s'.rest = Token.pathLength true s.rest := by
    rw [h.rest, Token.pathLength_onward hr]
  have hle := Token.pathLength_le true s.rest
  unfold path
  dsimp only
  rw [hcount, h.front hle]
  split
  · exact follows_fail _ _ _
  · exact follows_take (h.inMode .initial) hle _

/-- The `==` at the end of a text ends its line as well where the text goes on. -/
theorem follows_closing {ds : List Char} (hline : '\n' ∉ s.rest) (h : Onward k ('\n' :: ds) s s') :
    Follows selectors k ('\n' :: ds) ((s.inMode .initial).take s.rest.length .closing)
      ((s'.inMode .initial).take (s.rest ++ ['\n']).length .closing) := by
  obtain ⟨rest, line, mode, openedAt⟩ := s
  obtain ⟨rest', line', mode', openedAt'⟩ := s'
  obtain rfl : rest' = rest ++ '\n' :: ds := h.rest
  obtain rfl : line' = line + k := h.line
  have hnone : newlines rest = 0 := List.count_eq_zero_of_not_mem hline
  have hread := take_append rest [] line .initial openedAt .closing
  have hread' := take_append (rest ++ ['\n']) ds (line + k) .initial openedAt' .closing
  rw [List.append_nil] at hread
  rw [List.append_assoc, List.singleton_append] at hread'
  intro t u htake _ _
  obtain ⟨ht, hu⟩ := Prod.mk.inj (hread.symm.trans htake)
  cases ht
  subst hu
  refine ⟨_, _, between ('\n' :: ds) (line + k) openedAt', hread', ⟨rfl, rfl⟩, ⟨rfl, ?_, rfl⟩, ?_⟩
  · simp [hnone]
  · rw [next_newline, Text.newlines_append, hnone, Nat.zero_add]
    rfl

theorem follows_bodyLine (hr : LineEnded r) (hmode : s.mode = .body) (h : Onward k r s s') :
    Follows selectors k r s.bodyLine s'.bodyLine := by
  by_cases hrest : s.rest = []
  · intro t u hline
    simp [bodyLine, hrest] at hline
  have hrest' : s'.rest ≠ [] := by
    rw [h.rest]
    simp [hrest]
  have hle := (Text.firstLineWithEnd_prefix s.rest).length_le
  unfold bodyLine
  dsimp only
  rw [if_neg hrest, if_neg hrest']
  by_cases hline : Text.firstLineWithEnd s'.rest = Text.firstLineWithEnd s.rest
  · rw [hline]
    split
    · exact follows_take (h.inMode .initial) hle _
    · exact follows_take h hle _
  · -- the last line of the text, behind which it goes on
    have hmem : '\n' ∉ s.rest := by
      intro hmem
      exact hline (by rw [h.rest, Text.firstLineWithEnd_onward hmem])
    have hlast := Text.firstLineWithEnd_last hmem
    rcases hr.eq with rfl | ⟨ds, rfl⟩
    · exact absurd (by rw [h.rest, List.append_nil]) hline
    · rw [h.rest, Text.firstLineWithEnd_line hmem, Text.trimEnd_line, hlast]
      split
      · exact follows_closing hmem h
      · intro t u htake hkind hbody
        cases htake
        exact absurd (List.drop_length) (hbody hmode)

theorem onward_skip {p : Char → Bool} (h : Onward k r s s')
    (hp : s'.rest.takeWhile p = s.rest.takeWhile p) : Onward k r (s.skip p) (s'.skip p) := by
  unfold skip
  rw [hp]
  exact h.advance (List.takeWhile_prefix p).length_le

/-- **The token that is read is also read further on.** -/
theorem follows_next (hr : LineEnded r) (hselectors : '\n' ∉ selectors) (h : Onward k r s s') :
    Follows selectors k r (s.next selectors) (s'.next selectors) := by
  unfold next
  rw [h.mode]
  split
  · by_cases hrest : (s.skip Text.isSpace).rest = []
    · intro t u htoken hkind
      rw [token, hrest] at htoken
      cases htoken
      exact absurd rfl hkind
    · have hskip : s'.rest.takeWhile Text.isSpace = s.rest.takeWhile Text.isSpace := by
        rw [h.rest, List.takeWhile_append, if_neg]
        intro hall
        exact hrest (by simp [skip, advance, hall])
      exact follows_token hr hselectors hrest (onward_skip h hskip)
  · have hskip : s'.rest.takeWhile Text.isGap = s.rest.takeWhile Text.isGap := by
      rw [h.rest, hr.takeWhile_append rfl]
    exact follows_path hr (onward_skip h hskip)
  · next hmode => exact follows_bodyLine hr hmode h

/-! ## All tokens -/

/-- The last token is read where nothing but spaces is left. -/
theorem eq_of_next_finish {t : Token} {u : Scanner} (h : s.next selectors = (.ok t, u))
    (hkind : t.kind = .finish) : s.mode = .initial ∧ (∀ c ∈ s.rest, Text.isSpace c = true) ∧
      t.line = s.line + newlines s.rest := by
  unfold next at h
  split at h
  · next hmode =>
    obtain ⟨after, htakes⟩ := takes_token h
    obtain ⟨hlexeme, hafter, hu⟩ := htakes.finish hkind
    have hrest : (s.skip Text.isSpace).rest = [] := by
      rw [htakes.rest, hlexeme, hafter, hu]
      rfl
    have hskipped : s.rest.takeWhile Text.isSpace = s.rest := by
      have hle : s.rest.length ≤ (s.rest.takeWhile Text.isSpace).length :=
        List.drop_eq_nil_iff.mp hrest
      exact (List.takeWhile_prefix _).eq_of_length_le hle
    refine ⟨hmode, List.takeWhile_eq_self_iff.mp hskipped, ?_⟩
    rw [htakes.line, skip, hskipped, advance, front, List.take_length]
    rfl
  · -- after a directive there is a path or an error
    unfold path at h
    dsimp only at h
    split at h
    · cases h
    · cases h
      cases hkind
  · unfold bodyLine at h
    dsimp only at h
    split at h
    · cases h
    · split at h
      · cases h
        cases hkind
      · cases h
        cases hkind

/-- Spaces are skipped. -/
theorem next_spaces {cs : List Char} (hcs : ∀ c ∈ cs, Text.isSpace c = true) (ds : List Char)
    (line openedAt : Nat) : (between (cs ++ ds) line openedAt).next selectors =
      (between ds (line + newlines cs) openedAt).next selectors := by
  induction cs generalizing line with
  | nil => rfl
  | cons c cs ih =>
    obtain ⟨hc, hcs⟩ := List.forall_mem_cons.mp hcs
    have hnewlines : newlines (c :: cs) = newlines [c] + newlines cs :=
      Text.newlines_append [c] cs
    have hskip : (between (c :: (cs ++ ds)) line openedAt).skip Text.isSpace =
        (between (cs ++ ds) (line + newlines [c]) openedAt).skip Text.isSpace := by
      simp only [skip, advance, front, List.takeWhile_cons_of_pos hc, List.length_cons,
        List.drop_succ_cons, List.take_succ_cons]
      rw [← List.singleton_append, Text.newlines_append, Nat.add_assoc]
    rw [hnewlines, ← Nat.add_assoc, ← ih hcs]
    exact congrArg (fun s => s.token selectors) hskip

/-- Between the lines of a value the text goes on. -/
theorem Scans.rest_ne_nil {ts : List Token} {last : Token} (h : Scans selectors s ts last)
    (hmode : s.mode = .body) : s.rest ≠ [] := by
  intro hrest
  have hnext : s.next selectors = (.error (LexicalFault.unclosedBody.error s.openedAt), s) := by
    rw [next, hmode]
    show s.bodyLine = _
    rw [Scanner.bodyLine, if_pos hrest]
  cases h with
  | finish h => rw [hnext] at h; cases h
  | token h => rw [hnext] at h; cases h

/-- **The tokens that are read are also read further on.** There the scanner stands before what goes
on, on the line where the text ends, and reads it behind them. -/
theorem Scans.onward {ts : List Token} {last : Token} (hr : LineEnded r)
    (hselectors : '\n' ∉ selectors) (h : Scans selectors s ts last) :
    ∀ {s' : Scanner}, Onward k r s s' →
      ∃ (ts' : List Token) (openedAt : Nat), List.Forall₂ (Token.Below k) ts ts' ∧
        ∀ us last', Scans selectors (between r (last.line + k) openedAt) us last' →
          Scans selectors s' (ts' ++ us) last' := by
  induction h with
  | @finish s u t hnext hkind =>
    intro s' hs
    obtain ⟨hmode, hspaces, hline⟩ := eq_of_next_finish hnext hkind
    obtain ⟨rest, line, mode, openedAt⟩ := s'
    obtain rfl : rest = s.rest ++ r := hs.rest
    obtain rfl : line = s.line + k := hs.line
    obtain rfl : mode = .initial := hs.mode.trans hmode
    have hskip : (between (s.rest ++ r) (s.line + k) openedAt).next selectors = _ :=
      next_spaces hspaces r (s.line + k) openedAt
    have hlines : s.line + k + newlines s.rest = t.line + k := by omega
    rw [hlines] at hskip
    exact ⟨[], openedAt, .nil, fun us last' hus => hus.congr hskip⟩
  | @token s u t ts last hnext hkind hrest ih =>
    intro s' hs
    have hbody : u.mode = .body → u.rest ≠ [] := fun hmode => hrest.rest_ne_nil hmode
    obtain ⟨t', u', v, hnext', ht, hv, hsame⟩ := follows_next hr hselectors hs t u hnext hkind hbody
    obtain ⟨ts', openedAt, hts, hscans⟩ := ih hv
    have hkind' : t'.kind ≠ .finish := by
      rw [ht.kind]
      exact hkind
    refine ⟨t' :: ts', openedAt, .cons ht hts, fun us last' hus => ?_⟩
    exact .token hnext' hkind' ((hscans us last' hus).congr hsame)

end Scanner

end Courseware
