import Typings.Compile.Language
import Typings.Compile.Output
import Typings.Files.Write
import Typings.Text.Character

namespace Typings

/-- A program, its arguments, and the directory it is started in when that is not the current one. -/
structure Invocation where
  program : String
  arguments : List String
  directory : Option Path
deriving DecidableEq, Repr, Inhabited

def Invocation.line (i : Invocation) : String := " ".intercalate (i.program :: i.arguments)

structure ToolExit where
  code : Nat
  stderr : String
deriving DecidableEq, Repr, Inhabited

/-- Starting a program: how it ended and the files it left, or why it did not start. -/
abbrev Tool := Invocation → FileTree → Except IoFault (ToolExit × FileTree)

inductive CompileFault
  | missingGrammar (path : Path)
  | notAFile (path : Path)
  | spawn (fault : IoFault)
  | failed (command : String) (code : Nat) (stderr : String)
  | io (path : Path) (fault : IoFault)
deriving DecidableEq, Repr, Inhabited

namespace CompileFault

def message : CompileFault → String
  | missingGrammar path => "The file " ++ path.text ++ " doesn't exist."
  | notAFile path => path.text ++ " is not a file."
  | spawn fault => "failed to run java: " ++ fault.message
  | failed command code stderr =>
    command ++ " failed (exit status: " ++ toString code ++ "):\n" ++ stderr
  | io path fault => "IO error on " ++ path.text ++ ": " ++ fault.message

def chain (fault : CompileFault) : List String :=
  fault.message :: match fault with
    | spawn cause | io _ cause => [cause.message]
    | _ => []

end CompileFault

def checkGrammarFile (t : FileTree) (path : Path) : Except CompileFault Unit :=
  if !t.has path then .error (.missingGrammar path)
  else if !t.isFile path then .error (.notAFile path)
  else .ok ()

def generatedFiles (t : FileTree) (directory : Path) (base : String) (listener visitor : Bool) :
    Except CompileFault (List String) :=
  match t.names directory with
  | .ok names => .ok (generatedNames base listener visitor names)
  | .error fault => .error (.io directory fault)

/-- Steps that may change files and fail; what was changed before a failure stays. -/
abbrev FilesM (ε : Type) := ExceptT ε (StateM FileTree)

namespace FilesM

def look {ε α : Type} (step : FileTree → Except ε α) : FilesM ε α := do
  match step (← get) with
  | .ok a => return a
  | .error fault => throw fault

def change {ε δ : Type} (wrap : ε → δ) (step : FileTree → Except ε FileTree) : FilesM δ Unit := do
  match step (← get) with
  | .ok t => set t
  | .error fault => throw (wrap fault)

/-- The same step with its fault told differently. -/
def within {ε δ α : Type} (wrap : ε → δ) (step : FilesM ε α) : FilesM δ α :=
  ExceptT.mk (Except.mapError wrap <$> step.run)

end FilesM

structure CompileOutput where
  grammar : String
  files : List Path
deriving DecidableEq, Repr, Inhabited

structure Compiler where
  jar : Path
  language : Language
  listener : Bool
  visitor : Bool
  /-- Where generated files go; absolute, since the compiler starts in the directory of a grammar. -/
  outputDir : Path
deriving DecidableEq, Repr, Inhabited

namespace Compiler

def arguments (c : Compiler) (grammarFile : Path) : List String :=
  ["-jar", c.jar.text, "-Dlanguage=" ++ c.language.target,
    if c.listener then "-listener" else "-no-listener",
    if c.visitor then "-visitor" else "-no-visitor",
    "-lib", ".", "-o", c.outputDir.text, grammarFile.fileName?.getD ""]

def invocation (c : Compiler) (grammarFile : Path) : Invocation :=
  { program := "java"
    arguments := c.arguments grammarFile
    directory := grammarFile.parent?.filter (!·.text.isEmpty) }

def compile (c : Compiler) (tool : Tool) (grammarFile : Path) : FilesM CompileFault CompileOutput := do
  FilesM.look (checkGrammarFile · grammarFile)
  FilesM.change (.io c.outputDir) (·.makeDirectories c.outputDir)
  let invocation := c.invocation grammarFile
  match tool invocation (← get) with
  | .error fault => throw (.spawn fault)
  | .ok (ended, t) =>
    set t
    if ended.code ≠ 0 then
      throw (.failed invocation.line ended.code (String.ofList (trimEnd ended.stderr.toList)))
    let base := baseName grammarFile
    let names ← FilesM.look (generatedFiles · c.outputDir base c.listener c.visitor)
    return { grammar := grammarName names base, files := names.map c.outputDir.child }

end Compiler

end Typings
