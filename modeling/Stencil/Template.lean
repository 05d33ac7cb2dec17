import Stencil.Import
import Stencil.MetaBlock
import Stencil.Render

/-! A template from source to text: settings are read, the rest is cut into tokens and read as a
program, imports are put in front of it, and the whole is rendered. -/
namespace Stencil

/-- A result of reading source, with the file recorded at a fault. -/
def inFile {κ α : Type} (cause : κ → Cause) (file : Text) (r : Except (Fault κ) α) : Action α :=
  match r with
  | .ok a => pure a
  | .error f => Action.fail (cause f.cause) ⟨f.position, some file⟩

/-- The program of a source before its imports are resolved, and the configuration it is under. -/
def read (source : Text) (c : Config) : Action (List Node × Config) := do
  let (source, c) ← preprocess source c
  let tokens ← inFile .lex c.fileName (tokenize c.delimiters source)
  let program ← inFile .parse c.fileName (parse c.delimiters tokens)
  pure (program, c)

/-- Records the file of a program and resolves its imports. What they bring in stands in front, in
the order of the imports, and the imports are gone. -/
def resolveImports (host : Host) (c : Config)
    (nested : Text → Config → List Text → Action (List Node)) (chain : List Text)
    (program : List Node) : Action (List Node) := do
  let stamped := program.map (Node.stamp c.fileName)
  let imported ← (stamped.flatMap Node.uses).mapM fun u => u.resolve host c nested chain
  pure (imported.flatten ++ (stamped.filter (!·.isUse)).map Node.withoutUses)

/-- The program of content that is imported, in which imports nest at most as deep as is said. -/
def compileImport (host : Host) : Nat → Text → Config → List Text → Action (List Node)
  | 0, _, _, _ => throw .exhausted
  | depth + 1, source, c, chain => do
    let (program, c) ← read source c
    resolveImports host c (compileImport host depth) chain program

/-- Resolves the imports of a program under its configuration. -/
def analyze (host : Host) (c : Config) (program : List Node) : Action (List Node) :=
  resolveImports host c (compileImport host (host.nesting + 1))
    [importKey c.filePath c.fileName] program

/-- The program of a source and the configuration it is under. -/
def compile (host : Host) (source : Text) (c : Config) : Action (List Node × Config) := do
  let (program, c) ← read source c
  pure (← analyze host c program, c)

/-- The text of a program. -/
def interpret (steps : Nat) (host : Host) (c : Config) (program : List Node) : Action Text :=
  ExceptT.mk fun journal =>
    let (result, s) := (program.mapM (visit host c steps)).run.run ⟨.initial, journal⟩
    match result with
    | .ok texts => (.ok texts.flatten, s.journal)
    | .error (.failed f) =>
      (.error (.failed { f with location := f.location.stamp c.fileName }), s.journal)
    | .error .exhausted => (.error .exhausted, s.journal)

/-- The text of a template. -/
def render (steps : Nat) (host : Host) (source : Text) (c : Config) : Action Text := do
  let (program, c) ← compile host source c
  interpret steps host c program

end Stencil
