import Typings.Config.File
import Typings.Recover.Grammar

namespace Typings

/-- Values of the command line; those not given are left to the configuration file. -/
structure Overrides where
  language : Option String := none
  outputDir : Option Path := none
  listener : Option Bool := none
  visitor : Option Bool := none
  antlrJar : Option Path := none
  antlrVersion : Option String := none
  emitModel : Bool := false
deriving DecidableEq, Repr, Inhabited

structure Settings where
  language : Language := .typeScript
  outputDir : Path := ⟨"."⟩
  listener : Bool := true
  visitor : Bool := true
  antlrJar : Option Path := none
  antlrVersion : Option String := none
  antlrSha256 : Option String := none
  hostModules : List String := ({} : HostModules).names
  emitModel : Bool := false
deriving DecidableEq, Repr, Inhabited

namespace Settings

def languageOf (name : Option String) : Except ConfigFault Language :=
  match name with
  | none => .ok .typeScript
  | some name =>
    match Language.ofName? name with
    | some language => .ok language
    | none => .error (.invalid (.language name))

def resolve (file : ConfigFile) (overrides : Overrides) : Except ConfigFault Settings := do
  return {
    language := ← languageOf (overrides.language <|> file.language)
    outputDir := (overrides.outputDir <|> file.outputDir).getD ⟨"."⟩
    listener := (overrides.listener <|> file.listener).getD true
    visitor := (overrides.visitor <|> file.visitor).getD true
    antlrJar := overrides.antlrJar <|> file.antlrJar
    antlrVersion := overrides.antlrVersion <|> file.antlrVersion
    antlrSha256 := file.antlrSha256.map fun s => String.ofList (s.toList.map Char.toLower)
    hostModules := file.hostModules.getD ({} : HostModules).names
    emitModel := overrides.emitModel || file.emitModel.getD false }

def recoveryOptions (s : Settings) : RecoveryOptions :=
  { listener := s.listener, visitor := s.visitor, hosts := ⟨s.hostModules⟩ }

end Settings

end Typings
