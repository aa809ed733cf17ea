/-
Values over several lines hold their lines as they stand.

Between two lines `==` nothing is a token but a whole line. So what stands there is
the string, whatever characters it is made of (`Document.ofText_verbatim`): blanks,
carriage returns, quotes and the signs of comments and directives are kept. What
can make a difference are the lines alone: one that looks like the closing one, and a
first one that names a language, which is left out if the options say so.

Before them stands a key. A name at the front of a text might start the name of a
component, if components start with the name and with what follows it. That it does
not is seen from the name alone, unless components start with a newline too
(`Scanner.NoSelector.followed`).
-/
import Courseware.Proofs.Document.OverLines

namespace Courseware

/-! ## Whole lines -/

namespace Text

/-- The lines of a text that end in a newline, without it. -/
def endedLines (cs : List Char) : List (List Char) := (split '\n' cs).dropLast

theorem flatMap_endedLines {cs : List Char} (h : cs = [] ∨ cs.getLast? = some '\n') :
    (endedLines cs).flatMap (· ++ ['\n']) = cs := by
  rcases h with rfl | hlast
  · rfl
  · have hcs : cs.dropLast ++ ['\n'] = cs := List.dropLast_append_getLast? '\n' hlast
    rw [← hcs, endedLines, split_append_separator, List.dropLast_concat,
      ← join_append (split_ne_nil _ _), join_split]

/-- What is kept of the lines of a value: all but a first line that names a language, if such lines
are left out. -/
def kept (stripHint : Bool) (cs : List Char) : List Char :=
  if stripHint && startsWith (trimStart (firstLine cs)) "#!lang=".toList then
    cs.drop (firstLineWithEnd cs).length
  else cs

end Text

namespace Grammar

open Scanner (bodyLines)

theorem isHint_ended (w : List Char) : Parser.isHint (String.ofList (w ++ ['\n'])) =
    Text.startsWith (Text.trimStart w) "#!lang=".toList := by
  cases h : Text.startsWith (Text.trimStart w) "#!lang=".toList with
  | false => exact isHint_line h
  | true => exact isHint_of_startsWith h

/-- **What some lines denote are the lines as they stand**, but for a first one that is left out. -/
theorem joinLines_keptLines_ended (stripHint : Bool) (line : Nat) {ws : List (List Char)}
    (hws : ∀ w ∈ ws, '\n' ∉ w) :
    joinLines (keptLines stripHint (bodyLines line ws)) =
      String.ofList (Text.kept stripHint (ws.flatMap (· ++ ['\n']))) := by
  cases ws with
  | nil => cases stripHint <;> rfl
  | cons w ws =>
    have hw : '\n' ∉ w := hws w List.mem_cons_self
    have hcons : (w :: ws).flatMap (· ++ ['\n']) = w ++ '\n' :: ws.flatMap (· ++ ['\n']) := by simp
    have hdrop : (w ++ '\n' :: ws.flatMap (· ++ ['\n'])).drop (w ++ ['\n']).length =
        ws.flatMap (· ++ ['\n']) := by
      rw [List.append_cons w '\n' (ws.flatMap _), List.drop_left]
    have hall := joinLines_bodyLines line (w :: ws)
    rw [hcons, bodyLines] at hall
    rw [hcons, Text.kept, Text.firstLine_line hw, Text.firstLineWithEnd_line hw, hdrop, bodyLines,
      keptLines, isHint_ended]
    split
    · exact joinLines_bodyLines _ _
    · exact hall

end Grammar

/-! ## The key -/

namespace Scanner

variable {selectors : List Char}

/-- Whether no component's name stands at the front of a text. -/
def NoSelector (selectors cs : List Char) : Prop :=
  selectors ≠ [] → Text.startsWith cs selectors = true →
    Token.selectorLength (cs.drop selectors.length) = 0

/-- A name that is none of a component is one token. -/
theorem next_name {key : String} (hkey : Token.IsName key.toList) {r : List Char}
    (hr : Token.Delimited r) (hfront : NoSelector selectors (key.toList ++ r))
    (line openedAt : Nat) : (between (key.toList ++ r) line openedAt).next selectors =
      (.ok ⟨.name key, key, line⟩, between r line openedAt) := by
  obtain ⟨c, cs, hcs, hc, -⟩ := hkey.exists_start
  have hname := name_written hkey.toIsWord hr line openedAt c
  have hsign := Token.isSign_of_isNameStart hc
  rw [hkey.kind, String.ofList_toList] at hname
  rw [hcs, List.cons_append] at hname hfront ⊢
  rw [next_of_not_isSpace (not_isSpace_of_not_isSign hsign), token_of_not_isSign hsign,
    if_neg (by simp [not_isDigit_of_isNameStart hc])]
  split
  · next h =>
    rw [selector, hfront h.1 h.2]
    exact hname
  · exact hname

/-- Where a name is read, no component's name stands. -/
theorem noSelector_of_next {key : String} (hkey : Token.IsName key.toList) {r : List Char}
    {line openedAt : Nat} {t : Token} {s : Scanner}
    (h : (between (key.toList ++ r) line openedAt).next selectors = (.ok t, s)) {name : String}
    (hkind : t.kind = .name name) : NoSelector selectors (key.toList ++ r) := by
  obtain ⟨c, cs, hcs, hc, -⟩ := hkey.exists_start
  have hsign := Token.isSign_of_isNameStart hc
  rw [hcs, List.cons_append] at h ⊢
  intro hne hstart
  rw [next_of_not_isSpace (not_isSpace_of_not_isSign hsign), token_of_not_isSign hsign,
    if_neg (by simp [not_isDigit_of_isNameStart hc]), if_pos ⟨hne, hstart⟩, selector] at h
  split at h
  · assumption
  · cases h
    cases hkind

theorem selectorLength_append_eq_zero {cs : List Char} (h : Token.selectorLength cs = 0)
    {r : List Char} (hr : Token.selectorLength r = 0) : Token.selectorLength (cs ++ r) = 0 := by
  cases cs with
  | nil => exact hr
  | cons c cs => simpa [Token.selectorLength] using h

/-- What stands behind a key makes no component's name of it. -/
theorem NoSelector.followed {key : List Char} (h : NoSelector selectors key)
    (hline : '\n' ∉ selectors) (r : List Char) :
    NoSelector selectors (key ++ ' ' :: '=' :: '=' :: '\n' :: r) := by
  intro hne hstart
  have hstart := List.isPrefixOf_iff_prefix.mp hstart
  rcases List.prefix_or_prefix_of_prefix hstart (List.prefix_append key _) with
    hprefix | ⟨s, rfl⟩
  · have hzero := h hne (List.isPrefixOf_iff_prefix.mpr hprefix)
    obtain ⟨tail, rfl⟩ := hprefix
    rw [List.drop_left] at hzero
    rw [List.append_assoc, List.drop_left]
    exact selectorLength_append_eq_zero hzero rfl
  · -- components start with the key and some of the characters up to the newline
    rw [List.prefix_append_right_inj] at hstart
    rw [List.length_append, ← List.drop_drop, List.drop_left]
    match s, hstart with
    | [], _ | [_], _ | [_, _], _ | [_, _, _], _ => rfl
    | a :: b :: c :: d :: s, hstart =>
      simp only [List.cons_prefix_cons] at hstart
      obtain ⟨-, -, -, rfl, -⟩ := hstart
      exact absurd (List.mem_append_right _ (by simp)) hline

end Scanner

/-- Whether a text is read as one name: where nothing else stands, if components start with no
newline, or in front of another text. -/
inductive Token.ReadAsName (selectors text following : String) : Prop
  | alone {t last : Token} (h : Token.ofText? selectors text = .ok [t, last])
      (hkind : t.kind = .name text) (hline : '\n' ∉ selectors.toList) :
      ReadAsName selectors text following
  | inPlace {t : Token} {s : Scanner}
      (h : (Scanner.ofText (text ++ following)).next selectors.toList = (.ok t, s))
      (hkind : t.kind = .name text) : ReadAsName selectors text following

namespace Token

open Scanner (Scans NoSelector)

variable {selectors text following : String}

theorem isName_of_next {s s' : Scanner} {t : Token} (h : s.next selectors.toList = (.ok t, s'))
    (hkind : t.kind = .name text) : IsName text.toList := by
  have hlexeme := (Scanner.next_sound selectors.toList s t (by rw [h]) (by simp [hkind])).1
  rwa [hkind] at hlexeme

/-- The first of two tokens is what is next. -/
theorem exists_next_of_ofText? {t last : Token} (h : ofText? selectors text = .ok [t, last]) :
    ∃ s, (Scanner.ofText text).next selectors.toList = (.ok t, s) := by
  rcases Item.scans_or_error selectors text with ⟨ts, last', hts⟩ | ⟨ts, e, hitems, -⟩
  · rw [ofText?_of_scans hts] at h
    cases hts with
    | finish => cases h
    | token hnext =>
      simp only [List.cons_append, Except.ok.injEq, List.cons.injEq] at h
      obtain ⟨rfl, -⟩ := h
      exact ⟨_, hnext⟩
  · rw [ofText?, hitems, Item.mapM_error] at h
    cases h

/-- **What is read as one name is one** where a value over several lines follows it. -/
theorem ReadAsName.isName {r : List Char} (h : ReadAsName selectors text following)
    (hr : following.toList = ' ' :: '=' :: '=' :: '\n' :: r) :
    IsName text.toList ∧ NoSelector selectors.toList (text.toList ++ following.toList) := by
  cases h with
  | alone htokens hkind hline =>
    obtain ⟨s, hnext⟩ := exists_next_of_ofText? htokens
    have hname := isName_of_next hnext hkind
    refine ⟨hname, ?_⟩
    rw [Scanner.ofText, ← List.append_nil text.toList] at hnext
    have hfront := Scanner.noSelector_of_next hname hnext hkind
    rw [List.append_nil] at hfront
    rw [hr]
    exact hfront.followed hline r
  | inPlace hnext hkind =>
    have hname := isName_of_next hnext hkind
    rw [Scanner.ofText, String.toList_append] at hnext
    exact ⟨hname, Scanner.noSelector_of_next hname hnext hkind⟩

end Token

/-! ## The document -/

namespace Document

open Scanner (bodyLines)
open Grammar (StatementTree)

variable {options : Options} {key body : String}

/-- What stands behind a key whose value is some lines. -/
def behindKey (body : String) : String := " ==\n" ++ body ++ "=="

/-- The document that assigns a string to a key. -/
def assigning (key s : String) : Document := ⟨[⟨.assignment key (.atom 1 (.string s)), 1, ""⟩], []⟩

/-- **What stands between two lines `==` is the string**, whatever it is made of, but for a first
line that is left out. -/
theorem ofText_verbatim (hbody : body.toList = [] ∨ body.toList.getLast? = some '\n')
    (hlines : ∀ w ∈ Text.split '\n' body.toList, Text.trimEnd w ≠ ['=', '='])
    (hkey : Token.ReadAsName options.componentStart key (behindKey body)) :
    ofText options (key ++ behindKey body) =
        .ok (assigning key (String.ofList (Text.kept options.stripHint body.toList))) ∧
      ofScannedText options (key ++ behindKey body) =
        .ok (assigning key (String.ofList (Text.kept options.stripHint body.toList))) := by
  have hws : ∀ w ∈ Text.endedLines body.toList, '\n' ∉ w := fun w hw =>
    Text.not_mem_of_mem_split (List.dropLast_subset _ hw)
  have hbehind : (behindKey body).toList = ' ' :: '=' :: '=' :: '\n' ::
      ((Text.endedLines body.toList).flatMap (· ++ ['\n']) ++ ['=', '=']) := by
    simp [behindKey, Text.flatMap_endedLines hbody]
  obtain ⟨hname, hfront⟩ := hkey.isName hbehind
  have hdelimited : Token.Delimited (behindKey body).toList := by
    rw [hbehind]
    exact Grammar.delimited_space _
  have hnext := Scanner.next_name hname hdelimited hfront 1 0
  obtain ⟨lines, closing, rest, next, hreads, ⟨rfl, rfl, -⟩ | ⟨-, w, hw, hcloses⟩⟩ :=
    Grammar.reads_body hws hbehind hnext
  · have hscans := hreads.scans_iff.mpr ⟨[], rfl, Scanner.scans_nil _ next 1⟩
    rw [← String.toList_append] at hscans
    have hkept := Grammar.joinLines_keptLines_ended options.stripHint 2 hws
    rw [Text.flatMap_endedLines hbody] at hkept
    have hread : ofText options (key ++ behindKey body) =
        .ok (assigning key (String.ofList (Text.kept options.stripHint body.toList))) := by
      refine ofText_eq_ok_iff_exists_derivation.mpr
        ⟨[.body ⟨key, 1⟩ key ⟨"==", 1⟩ (bodyLines 2 (Text.endedLines body.toList)) closing],
          ⟨.finish, "", next⟩, ?_, ⟨trivial, trivial⟩, ?_⟩
      · rw [Scanner.ofText, Scanner.ofChars]
        simpa [Grammar.tokens, StatementTree.tokens] using hscans
      · rw [← hkept]
        rfl
    exact ⟨hread, ofScannedText_eq_ok_iff.mpr hread⟩
  · -- no line before the `==` closes the value
    exact absurd hcloses (hlines w (List.dropLast_subset _ hw))

/-- A first line that names a language, and lines that would be other tokens anywhere else. -/
def signText : String := " #!lang=x \r\n@include \"q /* y\r\n  == z ==\n\t\n"

/-- Options under which components start with the key and a space. -/
def spacedOptions : Options := { componentStart := "k.1 " }

/-- The lines are kept, but for the first one. -/
theorem ofText_verbatim_signs :
    (signText.toList = [] ∨ signText.toList.getLast? = some '\n') ∧
    (∀ w ∈ Text.split '\n' signText.toList, Text.trimEnd w ≠ ['=', '=']) ∧
    Token.ReadAsName spacedOptions.componentStart "k.1" (behindKey signText) ∧
    ofText spacedOptions ("k.1" ++ behindKey signText) =
      .ok (assigning "k.1" "@include \"q /* y\r\n  == z ==\n\t\n") := by
  have hbody : signText.toList = [] ∨ signText.toList.getLast? = some '\n' := .inr (by decide)
  have hlines : ∀ w ∈ Text.split '\n' signText.toList, Text.trimEnd w ≠ ['=', '='] := by
    decide +kernel
  have htokens : Token.ofText? "k.1 " "k.1" = .ok [⟨.name "k.1", "k.1", 1⟩, ⟨.finish, "", 1⟩] := by
    decide +kernel
  have hkey : Token.ReadAsName spacedOptions.componentStart "k.1" (behindKey signText) :=
    .alone htokens rfl (by decide)
  have hkept : String.ofList (Text.kept spacedOptions.stripHint signText.toList) =
      "@include \"q /* y\r\n  == z ==\n\t\n" := by
    decide +kernel
  refine ⟨hbody, hlines, hkey, ?_⟩
  rw [← hkept]
  exact (ofText_verbatim hbody hlines hkey).1

end Document

end Courseware
