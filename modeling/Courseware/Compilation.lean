/-
Compiling documents.

A document compiles to a resource unless it cannot be read or parsed. All that
goes wrong afterwards is recorded in the resource. The document itself counts
as one of the files that may be open inside one another, so there are
`maxDepth - 1` levels below it.
-/
import Courseware.Evaluation.Basic

namespace Courseware.Context

/-- **The resource of a text**, compiled as if it stood at a file. -/
def compileText (ctx : Context) (file : Descriptor) (text : String) (journal : Journal) :
    Except Error Resource × Journal :=
  match Document.ofScannedText ctx.options text with
  | .error e => (.error e, journal)
  | .ok document =>
    let visit := Evaluation.visit ctx (ctx.options.maxDepth - 1)
    let s := (Evaluation.start file [] journal).run visit document
    (.ok s.resource, s.journal)

/-- **The resource of the document at a path and a version.** -/
def compile (ctx : Context) (path version : String) (journal : Journal) :
    Except Error Resource × Journal :=
  match ctx.library.askText [] path version journal with
  | (.error e, journal) => (.error e, journal)
  | (.ok (file, text), journal) => ctx.compileText file text journal

end Courseware.Context
