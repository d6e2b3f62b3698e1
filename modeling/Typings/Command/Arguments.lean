import Typings.Command.Styled
import Typings.Config.Settings

namespace Typings

structure CommandLine where
  grammars : List Path := []
  overrides : Overrides := {}
  config : Option Path := none
  color : Option ColorChoice := none
deriving DecidableEq, Repr, Inhabited

inductive ArgumentStop
  | usage
  | version
  | help
deriving DecidableEq, Repr, Inhabited

/-- What an option does. Options that do not go with those before are refused. -/
inductive OptionAction
  | switch (set : CommandLine → Option CommandLine)
  | value (set : String → CommandLine → Option CommandLine)
  | stop (reason : ArgumentStop)

namespace CommandLine

/-- A value for something that has none yet. -/
def once {α : Type} (old : Option α) (new : α) : Option (Option α) :=
  if old.isSome then none else some (some new)

/-- A switch may follow its opposite, and not itself. -/
def turn (old : Option Bool) (new : Bool) : Option (Option Bool) :=
  if old = some new then none else some (some new)

def path? (s : String) : Option Path := if s.isEmpty then none else some ⟨s⟩

def setOutputDir (s : String) (c : CommandLine) : Option CommandLine := do
  return { c with overrides.outputDir := ← once c.overrides.outputDir (← path? s) }

def setLanguage (s : String) (c : CommandLine) : Option CommandLine := do
  return { c with overrides.language := ← once c.overrides.language s }

def setListener (on : Bool) (c : CommandLine) : Option CommandLine := do
  return { c with overrides.listener := ← turn c.overrides.listener on }

def setVisitor (on : Bool) (c : CommandLine) : Option CommandLine := do
  return { c with overrides.visitor := ← turn c.overrides.visitor on }

def setJar (s : String) (c : CommandLine) : Option CommandLine := do
  return { c with overrides.antlrJar := ← once c.overrides.antlrJar (← path? s) }

def setVersion (s : String) (c : CommandLine) : Option CommandLine := do
  return { c with overrides.antlrVersion := ← once c.overrides.antlrVersion s }

def setConfig (s : String) (c : CommandLine) : Option CommandLine := do
  return { c with config := ← once c.config (← path? s) }

def setEmitModel (c : CommandLine) : Option CommandLine :=
  if c.overrides.emitModel then none else some { c with overrides.emitModel := true }

def setColor (s : String) (c : CommandLine) : Option CommandLine := do
  return { c with color := ← once c.color (← ColorChoice.ofName? s) }

def addGrammar (s : String) (c : CommandLine) : Option CommandLine := do
  return { c with grammars := c.grammars ++ [← path? s] }

end CommandLine

namespace OptionAction

open CommandLine

/-- More messages; there are none. -/
def verbose : OptionAction := switch some

def ofLong? : String → Option OptionAction
  | "output-dir" => some (value setOutputDir)
  | "language" => some (value setLanguage)
  | "listener" => some (switch (setListener true))
  | "no-listener" => some (switch (setListener false))
  | "visitor" => some (switch (setVisitor true))
  | "no-visitor" => some (switch (setVisitor false))
  | "jar" => some (value setJar)
  | "antlr-version" => some (value setVersion)
  | "config" => some (value setConfig)
  | "emit-model" => some (switch setEmitModel)
  | "color" => some (value setColor)
  | "verbose" => some verbose
  | "help" => some (stop .help)
  | "version" => some (stop .version)
  | _ => none

def ofShort? : Char → Option OptionAction
  | 'o' => some (value setOutputDir)
  | 'l' => some (value setLanguage)
  | 'v' => some verbose
  | 'h' => some (stop .help)
  | 'V' => some (stop .version)
  | _ => none

end OptionAction

namespace CommandLine

/-- An argument that is read as options, and never as the value of one. -/
def isOption (arg : String) : Bool := arg.startsWith "-" && arg != "-"

def accept (result : Option CommandLine) : Except ArgumentStop CommandLine :=
  match result with
  | some c => .ok c
  | none => .error .usage

/-- The value that an option waits for. -/
abbrev Pending := Option (String → CommandLine → Option CommandLine)

/-- An option with two dashes, from the character after them. -/
def long (arg : List Char) (c : CommandLine) : Except ArgumentStop (CommandLine × Pending) := do
  let name := String.ofList (arg.takeWhile (· != '='))
  let attached := (arg.dropWhile (· != '=')).tail?
  match OptionAction.ofLong? name, attached with
  | some (.value set), some v => return (← accept (set (String.ofList v) c), none)
  | some (.value set), none => return (c, some set)
  | some (.switch set), none => return (← accept (set c), none)
  | some (.stop reason), none => throw reason
  | _, _ => throw .usage

/-- Options of one letter, from the character after the dash. The rest after one with a value is its value. -/
def short (c : CommandLine) : List Char → Except ArgumentStop (CommandLine × Pending)
  | [] => .ok (c, none)
  | letter :: rest =>
    match OptionAction.ofShort? letter with
    | some (.switch set) => do short (← accept (set c)) rest
    | some (.stop reason) => .error reason
    | some (.value set) =>
      match rest with
      | [] => .ok (c, some set)
      | '=' :: v => do return (← accept (set (String.ofList v) c), none)
      | v => do return (← accept (set (String.ofList v) c), none)
    | none => .error .usage

def options (arg : String) (c : CommandLine) : Except ArgumentStop (CommandLine × Pending) :=
  match arg.toList with
  | '-' :: '-' :: rest => long rest c
  | _ :: rest => short c rest
  | [] => .error .usage

/-- Read arguments from left to right; the first thing that stops them counts. -/
def read (c : CommandLine) (pending : Pending) : List String → Except ArgumentStop CommandLine
  | [] => if pending.isSome || c.grammars.isEmpty then .error .usage else .ok c
  | arg :: rest =>
    match pending with
    | some set =>
      if isOption arg then .error .usage
      else do read (← accept (set arg c)) none rest
    | none =>
      if arg == "--" then do
        let c ← accept (rest.foldlM (fun c s => c.addGrammar s) c)
        if c.grammars.isEmpty then .error .usage else .ok c
      else if isOption arg then
        match options arg c with
        | .ok (c, pending) => read c pending rest
        | .error reason => .error reason
      else do read (← accept (c.addGrammar arg)) none rest

def ofArguments (args : List String) : Except ArgumentStop CommandLine := read {} none args

end CommandLine

end Typings
