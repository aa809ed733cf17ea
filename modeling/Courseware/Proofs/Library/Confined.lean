/-
Directories that nothing leads out of.

A path of a library in directories lies below the root, or below the home
directory if it starts with `~/`. It is brought to its normal form before it is
looked up, and what is left of that without the slash in front is a list of
names, each of which leads down. So the place that is looked up is the directory
itself or something below it (`Within`), however a path climbs. What the library
says of a path is what there is at that place, or that the home directory is not
known (`locate_eq`). The content of a file is looked up at the path that the
library gave it, which is the same place (`place_locate`). A compilation asks for
nothing else, so it stays within the two directories (`library_confined`).
-/
import Courseware.Proofs.Evaluation.Protocol

namespace Courseware

/-- The names of a normal path have no slash in front. -/
theorem Path.head_join {names : List (List Char)} (h : ∀ name ∈ names, LeadsDown name) :
    (Text.join ['/'] names).head? ≠ some '/' := by
  cases names with
  | nil => simp [Text.join]
  | cons name names =>
    have hname := h name List.mem_cons_self
    obtain ⟨c, cs, rfl⟩ := List.exists_cons_of_ne_nil hname.nonempty
    have hc : c ≠ '/' := fun heq => hname.not_mem (heq ▸ List.mem_cons_self)
    cases names <;> simpa [Text.join] using hc

/-- What follows the slash of a normal path are its names. -/
theorem Path.dropWhile_normalizeChars (path : List Char) :
    (normalizeChars path).dropWhile (· = '/') = Text.join ['/'] (segments path) := by
  have hhead := head_join (leadsDown_segments path)
  rw [normalizeChars, ofSegments, List.dropWhile_cons_of_pos (by simp)]
  cases hjoin : Text.join ['/'] (segments path) with
  | nil => rfl
  | cons c cs =>
    rw [hjoin, List.head?_cons, Ne, Option.some.injEq] at hhead
    exact List.dropWhile_cons_of_neg (by simpa using hhead)

namespace Directory

/-- The place that names lead to from a base: the base itself if there are none. -/
def under (base : Base) (names : List (List Char)) : Base × List String :=
  (base, Text.parts '/' (String.ofList (Text.join ['/'] names)))

/-- The base itself is where an empty segment leads to. -/
theorem under_nil (base : Base) : under base [] = (base, [""]) := rfl

/-- Names lead down one after another. -/
theorem under_of_ne_nil (base : Base) {names : List (List Char)} (hne : names ≠ [])
    (h : ∀ name ∈ names, Path.LeadsDown name) :
    under base names = (base, names.map String.ofList) := by
  rw [under, Text.parts, String.toList_ofList,
    Text.split_join hne fun name hname => (h name hname).not_mem]

/-- **Whether a place is a base or below it**: what leads there are names, none of which is empty,
`.` or `..` or holds a slash. -/
def Within (base : Base) (place : Base × List String) : Prop :=
  ∃ names, (∀ name ∈ names, Path.LeadsDown name) ∧ place = under base names

/-- The base that a path starts from. -/
def baseOf (path : String) : Base := if Path.isHome path.toList then .home else .root

theorem baseOf_eq_home {path : String} :
    baseOf path = .home ↔ Path.isHome path.toList = true := by
  simp [baseOf]

/-- A path below a base that does not start with a slash leads from there. -/
theorem below_eq_under {base : Base} {names : List (List Char)}
    (h : ∀ name ∈ names, Path.LeadsDown name) :
    below base (Text.join ['/'] names) = under base names := by
  rw [below, if_neg (Path.head_join h), under]

/-- The normal form of a path lies where the segments lead to that the path goes through. -/
theorem place_normalPath (path : String) : place (normalPath path) = under (baseOf path)
    (Path.segments (if Path.isHome path.toList then path.toList.drop 1 else path.toList)) := by
  unfold normalPath baseOf
  cases Path.isHome path.toList with
  | true =>
    have hnames := Path.leadsDown_segments (path.toList.drop 1)
    have hhome : Path.isHome ('~' :: Path.normalizeChars (path.toList.drop 1)) = true := rfl
    simp only [if_true, place, String.toList_ofList, hhome]
    exact below_eq_under hnames
  | false =>
    have hnames := Path.leadsDown_segments path.toList
    have hhome : Path.isHome (Path.normalizeChars path.toList) = false := rfl
    simp only [Bool.false_eq_true, if_false, place, Path.normalize, String.toList_ofList, hhome,
      Path.dropWhile_normalizeChars]
    exact below_eq_under hnames

/-- The normal form of a path starts where the path does. -/
theorem baseOf_normalPath (path : String) : baseOf (normalPath path) = baseOf path := by
  unfold baseOf normalPath
  cases Path.isHome path.toList with
  | true =>
    have hhome : Path.isHome ('~' :: Path.normalizeChars (path.toList.drop 1)) = true := rfl
    simp only [if_true, String.toList_ofList, hhome]
  | false =>
    have hroot : Path.isHome (Path.normalize path).toList = false :=
      (Path.normal_normalize path).not_isHome
    simp only [Bool.false_eq_true, if_false, hroot]

theorem within_normalPath (path : String) : Within (baseOf path) (place (normalPath path)) :=
  ⟨_, Path.leadsDown_segments _, place_normalPath path⟩

/-- A file's content is looked up where the file was found. -/
theorem place_locate {d : Directory} {path version : String} {file : Descriptor}
    (h : d.locate path version = .ok file) : place file.path = place (normalPath path) := by
  rw [locate_ok h]

/-- A file is at a path in normal form, so it lies within the directories too. -/
theorem within_of_locate {d : Directory} {path version : String} {file : Descriptor}
    (h : d.locate path version = .ok file) : Within (baseOf file.path) (place file.path) := by
  have hwithin := within_normalPath file.path
  rwa [normalPath_of_locate h] at hwithin

/-! ## What is looked up -/

/-- What there is at a place, if the directory is known that it lies in. -/
def lookUp (d : Directory) (place : Base × List String) : Option (Except TreeFault Entry) :=
  if place.1 = .home ∧ d.home.isNone then none else some ((d.tree place.1).find place.2)

variable {d d' : Directory}

/-- A path in normal form is reached if the directory is known that its place lies in. -/
theorem reach_normalPath (d : Directory) (path : String) : d.reach (normalPath path) =
    if (place (normalPath path)).1 = .home ∧ d.home.isNone then
      .error (FileFault.unknownHome.error (normalPath path))
    else .ok (place (normalPath path)) := by
  have hbase : (place (normalPath path)).1 = .home ↔
      Path.isHome (normalPath path).toList = true := by
    rw [← baseOf_eq_home, baseOf_normalPath, place_normalPath]
    rfl
  simp only [reach, hbase]

/-- **What a library says of a path is what there is at its place.** -/
theorem locate_eq (d : Directory) (path version : String) : d.locate path version =
    match d.lookUp (place (normalPath path)) with
    | none => .error (FileFault.unknownHome.error (normalPath path))
    | some (.ok (.file _)) => .ok ⟨d.resource, version, normalPath path⟩
    | some (.ok .folder) => .error (FileFault.notRegular.error (normalPath path))
    | some (.error fault) =>
      .error ((FileFault.unreachable fault.reason).error (normalPath path)) := by
  unfold locate lookUp
  dsimp only
  rw [reach_normalPath]
  by_cases hunknown : (place (normalPath path)).1 = .home ∧ d.home.isNone
  · rw [if_pos hunknown, if_pos hunknown]
  · rw [if_neg hunknown, if_neg hunknown]
    dsimp only
    rcases (d.tree (place (normalPath path)).1).find (place (normalPath path)).2 with
      fault | ⟨bytes⟩ | _ <;> rfl

/-- So is what it says of the content of a file at a path in normal form. -/
theorem content_eq (d : Directory) {file : Descriptor} (h : normalPath file.path = file.path) :
    d.content file =
      match d.lookUp (place file.path) with
      | none => .error (FileFault.unknownHome.error file.path)
      | some (.ok (.file bytes)) => .ok bytes
      | some (.ok .folder) =>
        .error ((FileFault.unreadable TreeFault.isFolder.reason).error file.path)
      | some (.error fault) => .error ((FileFault.unreadable fault.reason).error file.path) := by
  have hreach := reach_normalPath d file.path
  rw [h] at hreach
  unfold content lookUp
  rw [hreach]
  by_cases hunknown : (place file.path).1 = .home ∧ d.home.isNone
  · rw [if_pos hunknown, if_pos hunknown]
  · rw [if_neg hunknown, if_neg hunknown]
    dsimp only [Tree.read]
    rcases (d.tree (place file.path).1).find (place file.path).2 with fault | ⟨bytes⟩ | _ <;> rfl

/-! ## Compilations -/

/-- Whether a question looks up no place outside the root and the home directory. The address of a
file is made without looking it up. -/
def Confined : Call → Prop
  | .locate path _ => Within (baseOf path) (place (normalPath path))
  | .content file => Within (baseOf file.path) (place file.path)
  | .url _ _ => True

/-- The questions of a block stay within the directories. -/
theorem confined_of_block {options : Options} {version : String} {directive : Option Directive}
    {calls : List Call} (h : Block ⟨d.library, options⟩ version directive calls) :
    ∀ call ∈ calls, Confined call := by
  cases h with
  | failed => exact List.forall_mem_singleton.mpr (within_normalPath _)
  | content _ hlocate =>
    rw [library_locate] at hlocate
    exact List.forall_mem_cons.mpr ⟨within_normalPath _,
      List.forall_mem_singleton.mpr (within_of_locate hlocate)⟩
  | url =>
    exact List.forall_mem_cons.mpr ⟨within_normalPath _, List.forall_mem_singleton.mpr trivial⟩

/-- **Nothing outside its two directories is looked up in a library.** The one place that matters to
which file is at a path is the home directory or below it if the path starts with `~/`, and the root
or below it otherwise; the content of the file depends on what there is at the same place. What
there is includes whether the home directory is known. All questions of a compilation stay there,
whatever paths its documents name. -/
theorem library_confined (d : Directory) :
    (∀ path version : String, Within (baseOf path) (place (normalPath path)) ∧
      ∀ d' : Directory, d'.resource = d.resource →
        d'.lookUp (place (normalPath path)) = d.lookUp (place (normalPath path)) →
          d'.locate path version = d.locate path version ∧
          ∀ file, d.locate path version = .ok file → d'.content file = d.content file) ∧
    ∀ (options : Options) (request : Request) (first : Nat),
      ∀ call ∈ (Context.outcome ⟨d.library, options⟩ request (.empty first)).2.calls,
        Confined call := by
  refine ⟨fun path version => ⟨within_normalPath path, fun d' hresource h => ?_⟩, ?_⟩
  · refine ⟨by rw [locate_eq, locate_eq, h, hresource], fun file hlocate => ?_⟩
    have hnormal := normalPath_of_locate hlocate
    rw [content_eq d' hnormal, content_eq d hnormal, place_locate hlocate, h]
  · intro options request first call hcall
    rw [(Context.outcome_asks ⟨d.library, options⟩ request (.empty first)).calls] at hcall
    obtain ⟨a, -, ha⟩ := List.mem_flatMap.mp hcall
    exact confined_of_block (a.block ⟨d.library, options⟩) call ha

/-- A file `e/p` below the root, where it is not known which directory is the home directory. -/
def rooted : Directory := ⟨"r", .ofPaths [("e/p", "z".toUTF8)] [], none⟩

/-- Paths that climb end below the directory that they start from, if that is known. -/
theorem library_confined_climbing :
    rooted.locate "/../..//e/./p" "v" = .ok ⟨"r", "v", "/e/p"⟩ ∧
    rooted.locate "~/../../e//p" "v" = .error (FileFault.unknownHome.error "~/e/p") ∧
    place (normalPath "/../..//e/./p") = (.root, ["e", "p"]) ∧
    place (normalPath "~/../../e//p") = (.home, ["e", "p"]) ∧
    (∀ home, rooted.content ⟨"r", "v", "/e/p"⟩ =
      Directory.content ⟨"r", rooted.root, home⟩ ⟨"r", "v", "/e/p"⟩) ∧
    ∀ call ∈ (Context.outcome ⟨rooted.library, {}⟩
      (.text ⟨"r", "v", "/a"⟩ "x = [@copycontent ../../e/p, @copycontent ~/../../e//p]")
        (.empty 0)).2.calls, Confined call := by
  have hlocate : rooted.locate "/../..//e/./p" "v" = .ok ⟨"r", "v", "/e/p"⟩ := by decide +kernel
  have hplace : place (normalPath "/../..//e/./p") = (.root, ["e", "p"]) := by decide +kernel
  obtain ⟨hpaths, hcalls⟩ := library_confined rooted
  refine ⟨hlocate, by decide +kernel, hplace, by decide +kernel, fun home => ?_, hcalls _ _ _⟩
  have hsame : Directory.lookUp ⟨"r", rooted.root, home⟩ (place (normalPath "/../..//e/./p")) =
      rooted.lookUp (place (normalPath "/../..//e/./p")) := by
    rw [hplace]
    rfl
  exact (((hpaths "/../..//e/./p" "v").2 _ rfl hsame).2 _ hlocate).symm

end Directory

end Courseware
