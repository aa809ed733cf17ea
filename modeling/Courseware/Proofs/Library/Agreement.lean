/-
The same files in memory and in directories.

Files with ordinary names can be kept in a directory as long as no path leads
through another file (`Storable`). Memory finds a file by its normal path, and a
directory by walking down the names of the path, one after another. Both find the
last of the files that were stored where the path leads (`stored?`), or none of
them does. A compilation that asks for no path below the home directory therefore
goes the same way over both, and comes out the same but for how it is worded that a
file is nowhere (`libraries_agree`).
-/
import Courseware.Proofs.Evaluation.Simulation
import Courseware.Proofs.Library.Confined

namespace Courseware

/-- Paths have one normal form if they lead through the same segments. -/
theorem Path.normalize_eq_iff {path path' : String} :
    Path.normalize path = Path.normalize path' ↔
      Path.segments path.toList = Path.segments path'.toList := by
  constructor
  · intro h
    have hchars := congrArg (fun path => Path.segments path.toList) h
    simpa only [Path.normalize, String.toList_ofList, Path.segments_normalizeChars] using hchars
  · intro h
    rw [Path.normalize, Path.normalize, Path.normalizeChars, Path.normalizeChars, h]

/-- Files to be stored, each with its path. -/
abbrev Files := List (String × ByteArray)

/-- Whether a name is one that a file system takes: it has no zero byte and is not too long. -/
structure OrdinaryName (name : List Char) : Prop where
  no_nul : '\x00' ∉ name
  size : (String.ofList name).utf8ByteSize ≤ 255

instance (name : List Char) : Decidable (OrdinaryName name) :=
  decidable_of_iff ('\x00' ∉ name ∧ (String.ofList name).utf8ByteSize ≤ 255)
    ⟨fun h => ⟨h.1, h.2⟩, fun h => ⟨h.no_nul, h.size⟩⟩

/-- **Whether files can be kept side by side in a directory**: each has a name there, and ordinary
names lead to it, none of which is that of another file. -/
structure Storable (files : Files) : Prop where
  named : ∀ file ∈ files, Path.segments file.1.toList ≠ []
  ordinary : ∀ file ∈ files, ∀ name ∈ Path.segments file.1.toList, OrdinaryName name
  apart : ∀ file ∈ files, ∀ other ∈ files,
    Path.segments file.1.toList <+: Path.segments other.1.toList →
      Path.segments file.1.toList = Path.segments other.1.toList

/-- The last of the files that some names lead to. -/
def stored? (files : Files) (names : List (List Char)) : Option ByteArray :=
  (files.reverse.find? fun file => Path.segments file.1.toList = names).map Prod.snd

theorem mem_of_stored? {files : Files} {names : List (List Char)} {bytes : ByteArray}
    (h : stored? files names = some bytes) :
    ∃ file ∈ files, Path.segments file.1.toList = names := by
  obtain ⟨file, hfile, -⟩ := Option.map_eq_some_iff.mp h
  have hmem := List.mem_of_find?_eq_some hfile
  have hnames := List.find?_some hfile
  exact ⟨file, List.mem_reverse.mp hmem, of_decide_eq_true hnames⟩

/-! ## In memory -/

namespace Memory

/-- Files that were written to a library one after another. -/
def ofFiles (resource : String) (files : Files) : Memory :=
  files.foldl (fun m file => m.insert file.1 latest file.2) (empty resource)

theorem foldl_insert_writes (files : Files) (m : Memory) :
    (files.foldl (fun m file => m.insert file.1 latest file.2) m).writes =
      (files.reverse.map fun file => ⟨Path.normalize file.1, latest, file.2⟩) ++ m.writes := by
  induction files generalizing m with
  | nil => rfl
  | cons file files ih =>
    rw [List.foldl_cons, ih]
    simp [insert]

@[simp] theorem ofFiles_writes (resource : String) (files : Files) :
    (ofFiles resource files).writes =
      files.reverse.map fun file => ⟨Path.normalize file.1, latest, file.2⟩ := by
  rw [ofFiles, foldl_insert_writes, empty, List.append_nil]

@[simp] theorem ofFiles_resource (resource : String) (files : Files) :
    (ofFiles resource files).resource = resource := by
  have hfold : ∀ m : Memory,
      (files.foldl (fun m file => m.insert file.1 latest file.2) m).resource = m.resource := by
    induction files with
    | nil => exact fun _ => rfl
    | cons file files ih => exact fun m => ih (m.insert file.1 latest file.2)
  exact hfold (empty resource)

theorem writtenAt?_ofFiles (resource : String) (files : Files) (path version : String) :
    (ofFiles resource files).writtenAt? (Path.normalize path) version =
      if version = latest then stored? files (Path.segments path.toList) else none := by
  rw [writtenAt?, ofFiles_writes, List.find?_map, Option.map_map, stored?]
  split
  · next hversion =>
    subst hversion
    simp [Function.comp_def, Path.normalize_eq_iff]
  · next hversion =>
    simp [Function.comp_def, Ne.symm hversion]

/-- **Memory finds the last file at the normal form of a path**, at any version. -/
theorem bytes?_ofFiles (resource : String) (files : Files) (path version : String) :
    (ofFiles resource files).bytes? (Path.normalize path) version =
      stored? files (Path.segments path.toList) := by
  rw [bytes?, writtenAt?_ofFiles, writtenAt?_ofFiles, if_pos rfl]
  split
  · exact Option.or_self
  · exact Option.none_or

theorem locate_ofFiles (resource : String) (files : Files) {path : String}
    (hpath : Path.isHome path.toList = false) (version : String) (file : Descriptor) :
    (ofFiles resource files).locate path version = .ok file ↔
      (∃ bytes, stored? files (Path.segments path.toList) = some bytes) ∧
        file = ⟨resource, version, Path.normalize path⟩ := by
  simp only [locate, hpath, Bool.false_eq_true, if_false, bytes?_ofFiles, ofFiles_resource]
  cases stored? files (Path.segments path.toList) with
  | none => simp
  | some bytes => simp [eq_comm]

theorem content_ofFiles (resource : String) (files : Files) (path version : String)
    {bytes : ByteArray} (h : stored? files (Path.segments path.toList) = some bytes) :
    (ofFiles resource files).content ⟨resource, version, Path.normalize path⟩ = .ok bytes := by
  simp [content, bytes?_ofFiles, h]

end Memory

/-! ## In a directory -/

namespace Tree

variable {files : Files} {t : Tree}

/-- Names as they stand in a tree. -/
theorem map_ofList_inj {names names' : List (List Char)} :
    names.map String.ofList = names'.map String.ofList ↔ names = names' :=
  List.map_inj_right fun _ _ h => by simpa using congrArg String.toList h

theorem find?_ofPaths (files : Files) (names : List (List Char)) :
    (((ofPaths files []).files.find? fun file => file.1 = names.map String.ofList).map Prod.snd) =
      stored? files names := by
  rw [ofPaths, stored?]
  dsimp only
  rw [List.find?_map, Option.map_map]
  simp only [Function.comp_def, map_ofList_inj]

/-- What a directory has at the end of names is the last file that was stored there, if one was. -/
theorem entry?_file_iff {names : List (List Char)} {bytes : ByteArray} :
    entry? (ofPaths files []) (names.map String.ofList) = some (.file bytes) ↔
      stored? files names = some bytes := by
  rw [← find?_ofPaths, entry?]
  cases (ofPaths files []).files.find? fun file => file.1 = names.map String.ofList with
  | some file => simp
  | none =>
    dsimp only
    split <;> simp

/-- Where no file was stored there is a directory, if it is the root or on the way to a file. -/
theorem entry?_folder {names : List (List Char)} (hnone : stored? files names = none)
    (hway : names = [] ∨ ∃ file ∈ files, names <+: Path.segments file.1.toList) :
    entry? (ofPaths files []) (names.map String.ofList) = some .folder := by
  rw [← find?_ofPaths, Option.map_eq_none_iff] at hnone
  unfold entry?
  rw [hnone]
  refine if_pos ?_
  rcases hway with rfl | ⟨file, hfile, hprefix⟩
  · exact .inl rfl
  · have hbelow := hprefix.map String.ofList
    exact .inr (.inl (List.any_eq_true.mpr ⟨_, List.mem_map_of_mem (List.mem_reverse.mpr hfile),
      List.isPrefixOf_iff_prefix.mpr hbelow⟩))

/-- There is no file on the way to another one. -/
theorem entry?_above (h : Storable files) {names rest : List (List Char)} {bytes : ByteArray}
    (hstored : stored? files (names ++ rest) = some bytes) (hrest : rest ≠ []) :
    entry? (ofPaths files []) (names.map String.ofList) = some .folder := by
  obtain ⟨file, hfile, hnames⟩ := mem_of_stored? hstored
  have hprefix : names <+: Path.segments file.1.toList := by
    rw [hnames]
    exact List.prefix_append names rest
  refine entry?_folder (Option.eq_none_iff_forall_ne_some.mpr fun bytes' hstored' => ?_)
    (.inr ⟨file, hfile, hprefix⟩)
  obtain ⟨other, hother, hnames'⟩ := mem_of_stored? hstored'
  rw [← hnames'] at hprefix
  have hsame := h.apart other hother file hfile hprefix
  rw [hnames, hnames', List.self_eq_append_right] at hsame
  exact hrest hsame

/-- A step down a name that is no fault. -/
theorem walk_down {here path : List String} {name : List Char} (hname : Path.LeadsDown name)
    (hfolder : t.entry? here = some .folder) :
    t.walk here (String.ofList name :: path) =
      if 255 < (String.ofList name).utf8ByteSize then .error .longName
      else t.walk (here ++ [String.ofList name]) path := by
  have hne : ∀ other : String, name ≠ other.toList → String.ofList name ≠ other := by
    rintro other hother rfl
    exact hother String.toList_ofList.symm
  rw [walk, hfolder]
  dsimp only
  rw [if_neg, if_neg (hne ".." hname.not_dots)]
  exact not_or.mpr ⟨hne "" hname.nonempty, hne "." hname.not_dot⟩

/-- **Walking down names ends at the last file that was stored there**, or at no file. -/
theorem walk_file_iff (h : Storable files) (bytes : ByteArray) :
    ∀ (rest here : List (List Char)), (∀ name ∈ rest, Path.LeadsDown name) →
      ((ofPaths files []).walk (here.map String.ofList) (rest.map String.ofList) =
          .ok (.file bytes) ↔ stored? files (here ++ rest) = some bytes)
  | [], here, _ => by
    rw [List.append_nil, ← entry?_file_iff, List.map_nil, walk]
    cases entry? (ofPaths files []) (here.map String.ofList) <;> simp
  | name :: rest, here, hnames => by
    obtain ⟨hname, hrest⟩ := List.forall_mem_cons.mp hnames
    by_cases hfolder : entry? (ofPaths files []) (here.map String.ofList) = some .folder
    · have hsize : stored? files (here ++ name :: rest) = some bytes →
          ¬ 255 < (String.ofList name).utf8ByteSize := by
        intro hstored
        obtain ⟨file, hfile, hsegments⟩ := mem_of_stored? hstored
        have hordinary := h.ordinary file hfile name (by rw [hsegments]; simp)
        exact Nat.not_lt.mpr hordinary.size
      have hwalk := walk_file_iff h bytes rest (here ++ [name]) hrest
      rw [List.map_append, List.append_assoc] at hwalk
      rw [List.map_cons, walk_down hname hfolder]
      split
      · next hlong =>
        exact ⟨fun hwalk => (by cases hwalk), fun hstored => absurd hlong (hsize hstored)⟩
      · exact hwalk
    · refine ⟨fun hwalk => ?_, fun hstored => ?_⟩
      · rw [List.map_cons, walk] at hwalk
        split at hwalk
        · cases hwalk
        · cases hwalk
        · next heq => exact absurd heq hfolder
      · exact absurd (entry?_above h hstored (List.cons_ne_nil _ _)) hfolder

/-- No file is where no name leads to. -/
theorem stored?_nil (h : Storable files) : stored? files [] = none := by
  rw [Option.eq_none_iff_forall_ne_some]
  intro bytes hstored
  obtain ⟨file, hfile, hnames⟩ := mem_of_stored? hstored
  exact h.named file hfile hnames

/-- **What names lead to from the root** is the last file that was stored there, if one was. -/
theorem find_under_root (h : Storable files) {names : List (List Char)}
    (hnames : ∀ name ∈ names, Path.LeadsDown name) {bytes : ByteArray} :
    (ofPaths files []).find (Directory.under .root names).2 = .ok (.file bytes) ↔
      stored? files names = some bytes := by
  by_cases hroot : names = []
  · -- No name leads to the root itself, by an empty segment that stays there.
    subst hroot
    have hfolder : entry? (ofPaths files []) [] = some .folder :=
      entry?_folder (stored?_nil h) (.inl rfl)
    have hfind : (ofPaths files []).find [""] = .ok .folder := by
      simp [find, walk, hfolder]
    rw [Directory.under_nil, stored?_nil h]
    exact ⟨fun heq => (by cases hfind.symm.trans heq), fun heq => (by cases heq)⟩
  · rw [Directory.under_of_ne_nil .root hroot hnames, find]
    split
    · next hnul =>
      refine ⟨fun hfind => (by cases hfind), fun hstored => ?_⟩
      obtain ⟨file, hfile, rfl⟩ := mem_of_stored? hstored
      obtain ⟨segment, hsegment, hnul⟩ := List.any_eq_true.mp hnul
      obtain ⟨name, hname, rfl⟩ := List.mem_map.mp hsegment
      have hordinary := (h.ordinary file hfile name hname).no_nul
      simp [hordinary] at hnul
    · exact walk_file_iff h bytes names [] hnames

end Tree

namespace Directory

variable {files : Files}

/-- A library with some files below its root and nothing else. -/
def ofFiles (resource : String) (files : Files) (home : Home) : Directory :=
  ⟨resource, .ofPaths files [], home⟩

theorem normalPath_of_not_isHome {path : String} (h : Path.isHome path.toList = false) :
    normalPath path = Path.normalize path := by
  simp [normalPath, h]

/-- A path in normal form below the root is reached whether or not there is a home directory. -/
theorem reach_normalize (d : Directory) (path : String) :
    d.reach (Path.normalize path) = .ok (place (Path.normalize path)) := by
  simp [reach, (Path.normal_normalize path).not_isHome]

theorem place_normalize {path : String} (h : Path.isHome path.toList = false) :
    place (Path.normalize path) = under .root (Path.segments path.toList) := by
  have hplace := place_normalPath path
  simpa [normalPath_of_not_isHome h, baseOf, h] using hplace

theorem locate_ofFiles (h : Storable files) (resource : String) (home : Home) {path : String}
    (hpath : Path.isHome path.toList = false) (version : String) (file : Descriptor) :
    (ofFiles resource files home).locate path version = .ok file ↔
      (∃ bytes, stored? files (Path.segments path.toList) = some bytes) ∧
        file = ⟨resource, version, Path.normalize path⟩ := by
  have htree : (ofFiles resource files home).tree (under .root (Path.segments path.toList)).1 =
      .ofPaths files [] := rfl
  unfold locate
  simp only [← Tree.find_under_root h (Path.leadsDown_segments path.toList),
    normalPath_of_not_isHome hpath, reach_normalize, place_normalize hpath, htree]
  rcases Tree.find _ _ with fault | ⟨bytes⟩ | _
  · simp
  · simp [eq_comm, ofFiles]
  · simp

theorem content_ofFiles (h : Storable files) (resource : String) (home : Home) {path : String}
    (hpath : Path.isHome path.toList = false) (version : String) {bytes : ByteArray}
    (hstored : stored? files (Path.segments path.toList) = some bytes) :
    (ofFiles resource files home).content ⟨resource, version, Path.normalize path⟩ = .ok bytes := by
  have hfind := (Tree.find_under_root h (Path.leadsDown_segments path.toList)).mpr hstored
  have htree : (ofFiles resource files home).tree (under .root (Path.segments path.toList)).1 =
      .ofPaths files [] := rfl
  simp only [content, reach_normalize, place_normalize hpath, htree, Tree.read, hfind]

end Directory

/-! ## Compilations -/

/-- Whether two errors are what two libraries say of the same file, which neither has. -/
def BothLack (library library' : Library) (e e' : Error) : Prop :=
  ∃ path version, library.locate path version = .error e ∧ library'.locate path version = .error e'

/-- Whether a question is not about a path below the home directory. -/
def Call.AwayFromHome : Call → Prop
  | .locate path _ => Path.isHome path.toList = false
  | .content _ | .url _ _ => True

instance : (call : Call) → Decidable call.AwayFromHome
  | .locate path _ => inferInstanceAs (Decidable (Path.isHome path.toList = false))
  | .content _ | .url _ _ => inferInstanceAs (Decidable True)

/-- Whether an event asks no such question. -/
def Event.AwayFromHome : Event → Prop
  | .call question => question.AwayFromHome
  | .nest _ => True

/-- **Whether a compilation asks for no path below the home directory.** -/
def Journal.AwayFromHome (j : Journal) : Prop := ∀ call ∈ j.calls, call.AwayFromHome

instance (j : Journal) : Decidable j.AwayFromHome :=
  inferInstanceAs (Decidable (∀ call ∈ j.calls, call.AwayFromHome))

theorem Journal.AwayFromHome.holds {j : Journal} (h : j.AwayFromHome) :
    j.Holds fun _ event => event.AwayFromHome := by
  rintro ⟨stack, event⟩ hmem
  cases event with
  | nest => trivial
  | call call => exact h call (List.mem_filterMap.mpr ⟨_, hmem, rfl⟩)

section Agreement

variable {files : Files} {path : String}

theorem locate_agrees (h : Storable files) (resource : String) (home : Home)
    (hpath : Path.isHome path.toList = false) (version : String) (file : Descriptor) :
    (Memory.ofFiles resource files).locate path version = .ok file ↔
      (Directory.ofFiles resource files home).locate path version = .ok file := by
  rw [Memory.locate_ofFiles resource files hpath,
    Directory.locate_ofFiles h resource home hpath]

theorem content_agrees (h : Storable files) (resource : String) (home : Home)
    (hpath : Path.isHome path.toList = false) {version : String} {file : Descriptor}
    (hfile : (Memory.ofFiles resource files).locate path version = .ok file) :
    ∃ bytes, (Memory.ofFiles resource files).content file = .ok bytes ∧
      (Directory.ofFiles resource files home).content file = .ok bytes := by
  obtain ⟨⟨bytes, hstored⟩, rfl⟩ := (Memory.locate_ofFiles resource files hpath _ _).mp hfile
  exact ⟨bytes, Memory.content_ofFiles resource files path version hstored,
    Directory.content_ofFiles h resource home hpath version hstored⟩

/-- A compilation over memory, and the same one over directories. -/
def agreement (resource : String) (files : Files) (home : Home) (options : Options)
    (first first' : Nat) : Comparison :=
  .atOneVersion ⟨(Memory.ofFiles resource files).library, options⟩
    ⟨(Directory.ofFiles resource files home).library, options⟩ first first'
    (BothLack (Memory.ofFiles resource files).library
      (Directory.ofFiles resource files home).library) fun _ event => event.AwayFromHome

theorem located_agrees (h : Storable files) (resource : String) (home : Home) (options : Options)
    (first first' : Nat) (hpath : Path.isHome path.toList = false) (version : String) :
    (agreement resource files home options first first').Results
      (agreement resource files home options first first').SameFile
      ((Memory.ofFiles resource files).library.locate path version)
      ((Directory.ofFiles resource files home).library.locate path version) := by
  have hagrees := locate_agrees h resource home hpath version
  rw [Memory.library_locate, Directory.library_locate]
  rcases hlocate : (Memory.ofFiles resource files).locate path version with e | file
  · rcases hlocate' : (Directory.ofFiles resource files home).locate path version with e' | file
    · have hlack : BothLack (Memory.ofFiles resource files).library
          (Directory.ofFiles resource files home).library e e' :=
        ⟨path, version, by rw [Memory.library_locate, hlocate],
          by rw [Directory.library_locate, hlocate']⟩
      exact .error (.inr hlack)
    · cases hlocate.symm.trans ((hagrees file).mpr hlocate')
  · obtain ⟨bytes, hcontent, hcontent'⟩ := content_agrees h resource home hpath hlocate
    rw [(hagrees file).mp hlocate]
    exact .ok ⟨rfl, hcontent'.trans hcontent.symm⟩

theorem agreement_lawful (h : Storable files) (resource : String) (home : Home)
    (options : Options) (first first' : Nat) :
    (agreement resource files home options first first').Lawful where
  options := rfl
  texts_refl _ := .inl rfl
  texts_id drawn := .inr ⟨drawn, rfl, rfl⟩
  faults_line? := by
    rintro e e' ⟨path, version, hlocate, hlocate'⟩
    rw [(Memory.library_steady _).locate_line? hlocate,
      (Directory.library_steady _).locate_line? hlocate']
  located {_ _ version} hpath := located_agrees h resource home options first first' hpath version
  url _ := .inl rfl
  depth _ := .inr (.inl rfl)

/-- **The same files in memory and in directories make libraries that agree.** For every path that
is not below the home directory and every version, both give the same file, and so the same address
for it, and the same content, or neither has one. A compilation that asks for no path below the home
directory therefore comes out the same over both, but for identifiers and for the errors of files
that neither has, and asks both for the same. It does not matter which directory is the home
directory, nor whether that is known. -/
theorem libraries_agree (h : Storable files) (resource : String) (home : Home) :
    let memory := Memory.ofFiles resource files
    let directory := Directory.ofFiles resource files home
    (∀ path version, Path.isHome path.toList = false →
      (∀ file, memory.locate path version = .ok file ↔ directory.locate path version = .ok file) ∧
      ∀ file, memory.locate path version = .ok file →
        ∃ bytes, memory.content file = .ok bytes ∧ directory.content file = .ok bytes) ∧
    ∀ (options : Options) (request : Request) (first first' : Nat),
      (Context.outcome ⟨memory.library, options⟩ request (.empty first)).2.AwayFromHome →
        Resource.OutcomesAlikeBut (BothLack memory.library directory.library) first first'
          (Context.outcome ⟨memory.library, options⟩ request (.empty first)).1
          (Context.outcome ⟨directory.library, options⟩ request (.empty first')).1 ∧
        (Context.outcome ⟨directory.library, options⟩ request (.empty first')).2.calls =
          (Context.outcome ⟨memory.library, options⟩ request (.empty first)).2.calls := by
  intro memory directory
  refine ⟨fun path version hpath => ⟨locate_agrees h resource home hpath version,
    fun file hfile => content_agrees h resource home hpath hfile⟩, ?_⟩
  intro options request first first' haway
  exact Comparison.outcome_alikeBut (agreement_lawful h resource home options first first') request
    haway.holds

/-- A file that includes one below it and copies another one there, and one that is not there. -/
def sharedFiles : Files :=
  [("/a", "@include e/b\nx = [@copycontent e/./c, @copyurl d]".toUTF8), ("e//b", "y = wc-p".toUTF8),
    ("/e/c", "z".toUTF8)]

theorem libraries_agree_shared :
    let memory := Memory.ofFiles "r" sharedFiles
    let directory := Directory.ofFiles "r" sharedFiles (some .empty)
    Storable sharedFiles ∧ directory.locate "/q/../e/c" "v" = .ok ⟨"r", "v", "/e/c"⟩ ∧
    ∃ r r', (Context.outcome ⟨memory.library, {}⟩ (.path "/a" "v") (.empty 0)).1 = .ok r ∧
      (Context.outcome ⟨directory.library, {}⟩ (.path "/a" "v") (.empty 5)).1 = .ok r' ∧
      r.AlikeBut (BothLack memory.library directory.library) 0 5 r' ∧
      r.errors.length = 1 ∧ (r.vars.lookup "y.cid").isSome = true := by
  intro memory directory
  have hstorable : Storable sharedFiles := ⟨by decide +kernel, by decide +kernel, by decide +kernel⟩
  obtain ⟨hfiles, hcompiled⟩ := libraries_agree hstorable "r" (some .empty)
  have hlocate : memory.locate "/q/../e/c" "v" = .ok ⟨"r", "v", "/e/c"⟩ := by decide +kernel
  have haway : (Context.outcome ⟨memory.library, {}⟩ (.path "/a" "v")
      (.empty 0)).2.AwayFromHome := by
    decide +kernel
  have hresource : (Context.outcome ⟨memory.library, {}⟩ (.path "/a" "v")
      (.empty 0)).1.toOption.any (fun r =>
        decide (r.errors.length = 1) && (r.vars.lookup "y.cid").isSome) = true := by
    decide +kernel
  refine ⟨hstorable, ((hfiles "/q/../e/c" "v" (by decide)).1 _).mp hlocate, ?_⟩
  obtain ⟨halike, -⟩ := hcompiled {} (.path "/a" "v") 0 5 haway
  generalize (Context.outcome ⟨memory.library, {}⟩ (.path "/a" "v") (.empty 0)).1 = done,
    (Context.outcome ⟨directory.library, {}⟩ (.path "/a" "v") (.empty 5)).1 = done'
    at hresource halike ⊢
  cases halike with
  | error e => cases hresource
  | fault h => cases hresource
  | ok halike =>
    rw [Except.toOption, Option.any_some, Bool.and_eq_true, decide_eq_true_eq] at hresource
    exact ⟨_, _, rfl, rfl, halike, hresource.1, hresource.2⟩

end Agreement

end Courseware
