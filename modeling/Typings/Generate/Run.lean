import Typings.Config.Settings
import Typings.Generate.Fault
import Typings.Model.Json
import Typings.Render.Declarations

namespace Typings

structure Surroundings where
  tool : Tool
  download : Download
  cacheDirectory : Option Path

structure Report where
  results : CompileResults := {}
  /-- What stayed unknown, with its grammar. -/
  unresolved : List (String × Unresolved) := []
deriving DecidableEq, Repr, Inhabited

abbrev RunM := FilesM RunFault

namespace RunM

def during {α : Type} (what : String) (step : RunM α) : RunM α := FilesM.within (·.during what) step

def write (path : Path) (text : String) : RunM Unit :=
  during ("writing " ++ path.text) (FilesM.change (fun fault => { cause := .write fault }) (·.writeText path text))

end RunM

def patchParser (options : RecoveryOptions) (parser : Path) : RunM Unit := do
  match patchContextExports (← get) options parser with
  | .ok (_, t) => set t
  | .error fault => throw (.ofRecovery fault)

/--
Recover the declarations of a grammar and write them beside its modules. Without a parser nothing is
written.
-/
def writeDeclarations (directory : Path) (grammar : String) (settings : Settings) :
    RunM (List Path × List Unresolved) := do
  let options := settings.recoveryOptions
  let parser := directory.child (grammar ++ "Parser.js")
  if !(← get).isFile parser then return ([], [])
  patchParser options parser
  let t ← get
  let artifacts := GrammarArtifacts.discover t directory grammar options
  let model ← FilesM.within .ofRecovery (FilesM.look fun t => recoverGrammar t artifacts options)
  let declarations := (renderGrammar model).map fun file => (directory.child file.fileName, file.contents)
  let models := if settings.emitModel
    then [(directory.child (grammar ++ ".model.json"), model.toJson.pretty)] else []
  (declarations ++ models).forM fun (path, text) => RunM.write path text
  return ((declarations ++ models).map (·.1), model.unresolved)

def FileTree.currentDirectory (t : FileTree) : Path := FileTree.pathOf t.workingDirectory

/-- The compiler of the settings, else the cached one of the version that is asked for or installed. -/
def resolveJar (outside : Surroundings) (settings : Settings) : RunM Path := do
  let t ← get
  match settings.antlrJar with
  | some jar => if t.isFile jar then return jar else throw (.ofFetch (.missingJar jar))
  | none =>
    let version := settings.antlrVersion.getD
      ((runtimeVersion? t t.currentDirectory).getD defaultVersion)
    match outside.cacheDirectory with
    | none => throw (.ofFetch .noCacheDirectory)
    | some directory =>
      let cache : JarCache := { root := directory.child "stubgen", checksum := settings.antlrSha256 }
      RunM.during ("obtaining ANTLR " ++ version)
        (FilesM.within .ofFetch (cache.ensure outside.download version))

def generateGrammar (outside : Surroundings) (settings : Settings) (compiler : Compiler) (report : Report)
    (grammarFile : Path) : RunM Report := do
  let compiled ← RunM.during ("compiling " ++ grammarFile.text)
    (FilesM.within .ofCompile (compiler.compile outside.tool grammarFile))
  let results := report.results.add compiled.grammar compiled.files
  if settings.language.emitsDeclarations then
    let (files, unresolved) ← RunM.during ("writing declarations for " ++ compiled.grammar)
      (writeDeclarations compiler.outputDir compiled.grammar settings)
    return {
      results := results.add compiled.grammar files
      unresolved := report.unresolved ++ unresolved.map (compiled.grammar, ·) }
  else return { report with results }

/-- Compile grammar files in order. All of them must be there before the first is compiled. -/
def generate (outside : Surroundings) (settings : Settings) (grammarFiles : List Path) : RunM Report := do
  grammarFiles.forM fun file => FilesM.within .ofCompile (FilesM.look (checkGrammarFile · file))
  let jar ← resolveJar outside settings
  let compiler : Compiler :=
    { jar, language := settings.language, listener := settings.listener, visitor := settings.visitor
      outputDir := (← get).currentDirectory.join settings.outputDir }
  grammarFiles.foldlM (generateGrammar outside settings compiler) {}

end Typings
