/-
Dependencies tell what the library holds.

A dependency is recorded with the path that the library gave to the file, and
with the text that was read there. In a library that finds a file again at its
own path, both can be read again (`Dependency.Faithful`). What an evaluation
records or takes over from nested documents is all of this kind, since they are
all compiled at one version (`visit_gains`). So the dependencies of a compilation
can be read again, wherever they were recorded (`Context.outcome_dependencies`).
-/
import Courseware.Proofs.Evaluation.Protocol

namespace Courseware

/-- **Whether a dependency tells what a library holds**: at its path there is a file of this path,
and its text is the one that was recorded. -/
def Dependency.Faithful (library : Library) (version : String) (d : Dependency) : Prop :=
  ∃ file, library.readText d.path version = .ok (file, d.content) ∧ file.path = d.path

/-- What was read is recorded faithfully under the path of its file. -/
theorem Library.Steady.faithful {library : Library} (h : library.Steady) {path version : String}
    {file : Descriptor} {text : String} (hread : library.readText path version = .ok (file, text))
    (boundTo : Option String) (line : Nat) :
    Dependency.Faithful library version ⟨boundTo, line, text, file.path⟩ :=
  ⟨file, (h.readText_again hread).2, rfl⟩

namespace Evaluation

variable {library : Library} {options : Options} {deeper : Option Visit} {s t u : Evaluation}

/-- Whether a state is for the file of an earlier one, and all dependencies that it has gained are
faithful at the version of the file. -/
structure Gains (library : Library) (s t : Evaluation) : Prop where
  file : t.resource.file = s.resource.file
  dependencies : ∀ d ∈ t.resource.dependencies,
    d ∈ s.resource.dependencies ∨ d.Faithful library s.resource.file.version

namespace Gains

theorem refl (s : Evaluation) : Gains library s s := ⟨rfl, fun _ => .inl⟩

theorem trans (h : Gains library s t) (h' : Gains library t u) : Gains library s u := by
  refine ⟨h'.file.trans h.file, fun d hd => ?_⟩
  rcases h'.dependencies d hd with hd | hd
  · exact h.dependencies d hd
  · rw [h.file] at hd
    exact .inr hd

theorem withError (h : Gains library s t) (d : Diagnostic) : Gains library s (t.withError d) :=
  ⟨h.file, h.dependencies⟩

theorem accumulates : Accumulates (Gains library) := ⟨refl, trans, withError⟩

/-- Dependencies that are appended are gained. -/
theorem of_append (ds : List Dependency) (hfile : t.resource.file = s.resource.file)
    (hds : t.resource.dependencies = s.resource.dependencies ++ ds)
    (h : ∀ d ∈ ds, d.Faithful library s.resource.file.version) : Gains library s t := by
  refine ⟨hfile, fun d hd => ?_⟩
  rw [hds, List.mem_append] at hd
  exact hd.imp_right (h d)

/-- A state that differs in other things has gained nothing. -/
theorem of_eq (hfile : t.resource.file = s.resource.file)
    (hds : t.resource.dependencies = s.resource.dependencies) : Gains library s t :=
  of_append [] hfile (by rw [hds, List.append_nil]) (List.forall_mem_nil _)

end Gains

theorem OnlyJournal.gains (h : OnlyJournal s t) : Gains library s t := by
  obtain ⟨j, rfl⟩ := h
  exact .of_eq rfl rfl

theorem withNotes_gains (s : Evaluation) (path : String) (notes : List Note) :
    Gains library s (s.withNotes path notes) := by
  rw [withNotes_eq]
  exact .of_eq rfl rfl

/-- What a directive reads is what the library holds. -/
theorem readText_of_record {ctx : Context} {target : String}
    {found : Except Error (Descriptor × String)}
    (h : (s.record (.nest target)).readText ctx target = (found, t)) :
    ctx.library.readText target s.resource.file.version = found := by
  have hfound : (ctx.library.askText s.stack target s.resource.file.version
      (s.record (.nest target)).journal).1 = found := congrArg Prod.fst h
  rw [Library.askText_fst] at hfound
  exact hfound

/-! ## Documents -/

/-- Whether statements that are evaluated with levels below them gain faithful dependencies. -/
def Gaining (library : Library) (visit : Visit) : Prop :=
  ∀ (s : Evaluation) (node : Node), Gains library s (visit s node)

theorem Gaining.foldl {visit : Visit} (h : Gaining library visit) (nodes : List Node)
    (s : Evaluation) : Gains library s (nodes.foldl visit s) :=
  Gains.accumulates.foldl (fun node _ s => h s node) s

theorem Gaining.run {visit : Visit} (h : Gaining library visit) (document : Document)
    (s : Evaluation) : Gains library s (s.run visit document) := by
  have hkeep : Gaining library (keep visit) := fun s node =>
    (h s { node with origin := s.current }).trans (.of_eq rfl rfl)
  exact (withNotes_gains s s.current document.notes).trans (hkeep.foldl document.nodes _)

variable (hlibrary : library.Steady)
include hlibrary

/-- **A document that is compiled inside another one has faithful dependencies** at the version of
the other one, and its own text is what the library holds. -/
theorem compileNested_faithful (hdeeper : ∀ visit, deeper = some visit → Gaining library visit)
    {target text : String} {nested : Resource}
    (h : (s.compileNested ⟨library, options⟩ deeper target).1 = .ok (nested, text)) :
    library.readText target s.resource.file.version = .ok (nested.file, text) ∧
      ∀ d ∈ nested.dependencies, d.Faithful library s.resource.file.version := by
  have hcases := s.compileNested_cases ⟨library, options⟩ deeper target
  generalize s.compileNested ⟨library, options⟩ deeper target = r at hcases h
  cases hcases with
  | refused | unread | unparsed => cases h
  | @compiled visit file _ j document hvisit _ hread =>
    cases h
    have hread := readText_of_record hread
    have hrun := (hdeeper visit hvisit).run document (start file s.stack j)
    refine ⟨hrun.file ▸ hread, fun d hd => ?_⟩
    rw [← (hlibrary.readText_again hread).1]
    exact (hrun.dependencies d hd).resolve_left List.not_mem_nil

/-! ## Values -/

theorem bindVariables_gains (hdeeper : ∀ visit, deeper = some visit → Gaining library visit)
    (s : Evaluation) (raw : String) (line : Nat) :
    Gains library s (s.bindVariables ⟨library, options⟩ deeper raw line).2 := by
  have hjournal : OnlyJournal s
      (s.compileNested ⟨library, options⟩ deeper (Path.resolve s.current raw)).2 :=
    compileNested_onlyJournal s _
  unfold bindVariables
  dsimp only
  rcases hcompiled : s.compileNested ⟨library, options⟩ deeper (Path.resolve s.current raw) with
    ⟨e | ⟨nested, text⟩, t⟩
  · rw [hcompiled] at hjournal
    exact hjournal.gains
  · rw [hcompiled] at hjournal
    obtain ⟨j, rfl⟩ := hjournal
    obtain ⟨hread, hnested⟩ := compileNested_faithful hlibrary hdeeper (congrArg Prod.fst hcompiled)
    have hbound := hlibrary.faithful hread s.assigning line
    refine .of_append (nested.dependencies ++ [⟨s.assigning, line, text, nested.file.path⟩])
      rfl ?_ (List.forall_mem_append.mpr ⟨hnested, List.forall_mem_singleton.mpr hbound⟩)
    simp only [Resource.absorb, Resource.withDependency, List.append_assoc]

theorem resolveAtom_gains (hdeeper : ∀ visit, deeper = some visit → Gaining library visit)
    (s : Evaluation) (line : Nat) (a : Atom) :
    Gains library s (s.resolveAtom ⟨library, options⟩ deeper line a).2 := by
  cases a with
  | dictionary path => exact bindVariables_gains hlibrary hdeeper s path line
  | _ => exact (resolveAtom_onlyJournal s line (by simp)).gains

/-! ## Statements -/

theorem visitAssignment_gains (hdeeper : ∀ visit, deeper = some visit → Gaining library visit)
    (s : Evaluation) (key : String) (v : Value) :
    Gains library s (s.visitAssignment ⟨library, options⟩ deeper key v) := by
  have hvalue : Gains library { s with assigning := some key }
      (resolve ⟨library, options⟩ deeper v { s with assigning := some key }).2 :=
    Gains.accumulates.resolve (fun line a s _ => resolveAtom_gains hlibrary hdeeper s line a) v _
      v.forall_trivial
  obtain ⟨vars, own, errors, heq⟩ := s.visitAssignment_eq ⟨library, options⟩ deeper key v
  rw [heq]
  exact ⟨hvalue.file, hvalue.dependencies⟩

/-- A document that is included is a dependency, whether or not it parses. -/
theorem withInclusion_gains {target text : String} {file : Descriptor} (j : Journal)
    (hread : library.readText target s.resource.file.version = .ok (file, text)) (line : Nat) :
    Gains library s ({ s with journal := j }.withInclusion file text line) := by
  obtain ⟨included, heq⟩ := { s with journal := j }.withInclusion_eq file text line
  rw [heq]
  exact .of_append _ rfl rfl (List.forall_mem_singleton.mpr (hlibrary.faithful hread _ _))

theorem visitInclusion_gains (hdeeper : ∀ visit, deeper = some visit → Gaining library visit)
    (s : Evaluation) (raw : String) (line : Nat) :
    Gains library s (s.visitInclusion ⟨library, options⟩ deeper raw line) := by
  unfold visitInclusion
  have hcases := s.openInclusion_cases ⟨library, options⟩ deeper raw line
  generalize s.openInclusion ⟨library, options⟩ deeper raw line = r at hcases
  cases hcases with
  | refused | unread => exact .of_eq rfl rfl
  | @unparsed file text j _ _ hread =>
    exact (withInclusion_gains hlibrary j (readText_of_record hread) line).withError _
  | @included visit file text j document hvisit _ hread =>
    have hbefore := withInclusion_gains hlibrary j (readText_of_record hread) line
    have hnoted : Gains library ({ s with journal := j }.withInclusion file text line)
        (Inclusion.inside ⟨visit, file, document,
          { s with journal := j }.withInclusion file text line⟩) :=
      (withNotes_gains _ file.path document.notes).trans (.of_eq rfl rfl)
    have hnodes := (hdeeper visit hvisit).foldl document.nodes (Inclusion.inside ⟨visit, file,
      document, { s with journal := j }.withInclusion file text line⟩)
    exact ((hbefore.trans hnoted).trans hnodes).trans (.of_eq rfl rfl)

theorem visitExtension_gains (hdeeper : ∀ visit, deeper = some visit → Gaining library visit)
    (s : Evaluation) (raw : String) (line : Nat) :
    Gains library s (s.visitExtension ⟨library, options⟩ deeper raw line) := by
  have hjournal : OnlyJournal s
      (s.compileNested ⟨library, options⟩ deeper (Path.resolve s.current raw)).2 :=
    compileNested_onlyJournal s _
  unfold visitExtension
  dsimp only
  rcases hcompiled : s.compileNested ⟨library, options⟩ deeper (Path.resolve s.current raw) with
    ⟨e | ⟨parent, text⟩, t⟩
  · rw [hcompiled] at hjournal
    exact hjournal.gains.withError _
  · rw [hcompiled] at hjournal
    obtain ⟨j, rfl⟩ := hjournal
    exact .of_append _ rfl rfl
      (compileNested_faithful hlibrary hdeeper (congrArg Prod.fst hcompiled)).2

theorem gaining_visitWith (hdeeper : ∀ visit, deeper = some visit → Gaining library visit) :
    Gaining library fun s node => s.visitWith ⟨library, options⟩ deeper node := by
  intro s node
  show Gains library s (s.visitWith ⟨library, options⟩ deeper node)
  unfold visitWith
  cases node.statement with
  | comment => exact .refl s
  | assignment key value => exact visitAssignment_gains hlibrary hdeeper s key value
  | inclusion path => exact visitInclusion_gains hlibrary hdeeper s path node.line
  | extension path => exact visitExtension_gains hlibrary hdeeper s path node.line

/-- **A statement gains faithful dependencies only**, however many levels there are below it. -/
theorem gaining_visit : ∀ levels, Gaining library (visit ⟨library, options⟩ levels)
  | 0 => gaining_visitWith hlibrary fun _ h => by cases h
  | levels + 1 => gaining_visitWith hlibrary fun _ h => by
    cases h
    exact gaining_visit levels

end Evaluation

/-! ## Compilations -/

namespace Context

variable {library : Library} {options : Options}

theorem compileText_dependencies (h : library.Steady) {file : Descriptor} {text : String}
    {journal : Journal} {r : Resource}
    (hr : (compileText ⟨library, options⟩ file text journal).1 = .ok r) :
    ∀ d ∈ r.dependencies, d.Faithful library file.version := by
  unfold compileText at hr
  dsimp only at hr
  cases hparsed : Document.ofScannedText options text with
  | error e =>
    rw [hparsed] at hr
    cases hr
  | ok document =>
    rw [hparsed] at hr
    cases hr
    have hvisit : Evaluation.Gaining library
        (Evaluation.visit ⟨library, options⟩ (options.maxDepth - 1)) :=
      Evaluation.gaining_visit h _
    have hrun := hvisit.run document (Evaluation.start file [] journal)
    exact fun d hd => (hrun.dependencies d hd).resolve_left List.not_mem_nil

/-- **Every dependency of a compilation can be read again**: there is a file at its path that has
this path, and the text that was recorded, at the version of the request. This holds of what was
included, whether or not it parsed, of what was bound to a key, and of all that was taken over from
nested documents. -/
theorem outcome_dependencies (h : library.Stored) (options : Options) (request : Request)
    (journal : Journal) {r : Resource}
    (hr : (outcome ⟨library, options⟩ request journal).1 = .ok r) :
    ∀ d ∈ r.dependencies, ∃ file,
      library.readText d.path request.version = .ok (file, d.content) ∧ file.path = d.path := by
  cases request with
  | text file text => exact compileText_dependencies h.steady hr
  | path path version =>
    have hcompile := compile_eq ⟨library, options⟩ path version journal
    dsimp only [outcome] at hr
    cases hread : library.readText path version with
    | error e =>
      rw [hread] at hcompile
      cases hr.symm.trans hcompile
    | ok found =>
      obtain ⟨file, text⟩ := found
      rw [hread] at hcompile
      obtain ⟨j, hcompile⟩ := hcompile
      have hversion := (h.steady.readText_again hread).1
      subst hversion
      exact compileText_dependencies h.steady (hcompile.symm.trans hr)

/-- A file that includes one that does not parse, and binds the variables of one that includes a
fourth. -/
def depending : Memory :=
  ⟨"r", [⟨"/a", Memory.latest, "@include ./x/../b\ny = [@extends c]".toUTF8⟩,
    ⟨"/b", Memory.latest, "x = [".toUTF8⟩, ⟨"/c", Memory.latest, "@include d".toUTF8⟩,
    ⟨"/d", Memory.latest, "z = 1".toUTF8⟩]⟩

/-- All three can be read again, at a version that none of them was written at. -/
theorem outcome_dependencies_unparsed : ∃ r : Resource,
    (outcome ⟨depending.library, {}⟩ (.path "/a" "v") (.empty 0)).1 = .ok r ∧
    r.dependencies = [⟨none, 1, "x = [", "/b"⟩, ⟨none, 1, "z = 1", "/d"⟩,
      ⟨some "y", 2, "@include d", "/c"⟩] ∧
    ∀ d ∈ r.dependencies, ∃ file,
      depending.library.readText d.path "v" = .ok (file, d.content) ∧ file.path = d.path := by
  have hrun : (outcome ⟨depending.library, {}⟩ (.path "/a" "v") (.empty 0)).1.toOption.map
      Resource.dependencies = some [⟨none, 1, "x = [", "/b"⟩, ⟨none, 1, "z = 1", "/d"⟩,
        ⟨some "y", 2, "@include d", "/c"⟩] := by
    decide +kernel
  rcases houtcome : outcome ⟨depending.library, {}⟩ (.path "/a" "v") (.empty 0) with ⟨e | r, j⟩
  · rw [houtcome] at hrun
    cases hrun
  · rw [houtcome] at hrun
    have hfaithful := outcome_dependencies (.memory depending) {} (.path "/a" "v") (.empty 0)
      (congrArg Prod.fst houtcome)
    exact ⟨r, rfl, Option.some.inj hrun, hfaithful⟩

end Context

end Courseware
