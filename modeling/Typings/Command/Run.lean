import Typings.Command.Arguments
import Typings.Generate.Run

namespace Typings

structure Outcome where
  exit : Nat
  stdout : String := ""
  stderr : String := ""
deriving DecidableEq, Repr, Inhabited

def versionText : String := "stubgen 0.2.0\n"

def usageLine : String := "Usage: stubgen [OPTIONS] <GRAMMARS>..."

def helpText : String := "\n".intercalate [
  "Compile ANTLR grammars and generate TypeScript declarations",
  "",
  usageLine,
  "",
  "Arguments:",
  "  <GRAMMARS>...  Grammar files (.g4)",
  "",
  "Options:",
  "  -o, --output-dir <DIR>         Output directory (default: current directory)",
  "  -l, --language <LANGUAGE>      Target: ts, typescript, js, javascript, py3, python3, go (default: typescript)",
  "      --listener                 Generate parse tree listener (default)",
  "      --no-listener              Don't generate parse tree listener",
  "      --visitor                  Generate parse tree visitor (default)",
  "      --no-visitor               Don't generate parse tree visitor",
  "      --jar <PATH>               ANTLR tool jar to use instead of the cached download",
  "      --antlr-version <VERSION>  ANTLR version to download (default: the installed antlr4 runtime's)",
  "      --config <FILE>            Config file (default: ./stubgen.toml if present)",
  "      --emit-model               Also write the recovered model as <Grammar>.model.json",
  "      --color <WHEN>             Colored output [possible values: auto, always, never]",
  "  -v, --verbose...               More logging (-v info, -vv debug, -vvv trace)",
  "  -h, --help                     Print help",
  "  -V, --version                  Print version",
  ""]

def ArgumentStop.outcome : ArgumentStop → Outcome
  | usage => { exit := 2, stderr := usageLine ++ "\n\nFor more information, try '--help'.\n" }
  | version => { exit := 0, stdout := versionText }
  | help => { exit := 0, stdout := helpText }

def startText (grammars : List Path) : String :=
  "Compiling " ++ ", ".intercalate (grammars.map (·.text)) ++ "...\n"

def generatedLine (colored : Bool) (p : Path) : String :=
  "Generated " ++ Style.path.apply colored p.text ++ "\n"

def warningLine (colored : Bool) (grammar : String) (u : Unresolved) : String :=
  Style.warning.apply colored "warning" ++ ": " ++ grammar ++ ": type of " ++ u.className ++ "." ++ u.field ++
    " could not be recovered, declared as unknown\n"

def errorLine (colored : Bool) (message : String) : String :=
  Style.error.apply colored "Error" ++ ": " ++ message ++ "\n"

def Report.outcome (r : Report) (colored : Bool) (start : String) : Outcome :=
  { exit := 0
    stdout := start ++ String.join ((r.results.groups.flatMap (·.2)).map (generatedLine colored))
    stderr := String.join (r.unresolved.map fun (grammar, u) => warningLine colored grammar u) }

def failureOutcome (colored : Bool) (start message : String) : Outcome :=
  { exit := 1, stdout := start, stderr := errorLine colored message }

def CommandLine.settings (c : CommandLine) (t : FileTree) : Except String Settings := do
  let told := fun (chain : List String) => ": ".intercalate chain
  let file ← (ConfigFile.discover t c.config).mapError fun fault =>
    told ("loading configuration" :: fault.chain)
  (Settings.resolve file c.overrides).mapError fun fault => told fault.chain

def CommandLine.execute (c : CommandLine) (outside : Surroundings) (terminal : Terminal) :
    StateM FileTree Outcome := do
  let colored := terminal.usesColor c.color
  match c.settings (← get) with
  | .error message => return failureOutcome colored "" message
  | .ok settings =>
    let start := startText c.grammars
    match ← (generate outside settings c.grammars).run with
    | .ok report => return report.outcome colored start
    | .error fault => return failureOutcome colored start fault.message

def runCommand (outside : Surroundings) (terminal : Terminal) (args : List String) :
    StateM FileTree Outcome :=
  match CommandLine.ofArguments args with
  | .ok c => c.execute outside terminal
  | .error reason => return reason.outcome

end Typings
