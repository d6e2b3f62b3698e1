import Typings.Compile.Language
import Typings.Files.Tree
import Typings.Text.Character
import Typings.Toml.Read

namespace Typings

open Toml (TomlValue)

inductive ConfigReason
  | language (name : String)
  | emptyVersion
  | checksum (text : String)
  | emptyHostModule
deriving DecidableEq, Repr, Inhabited

def ConfigReason.message : ConfigReason → String
  | language name => Language.unsupportedMessage name
  | emptyVersion => "antlr_version is empty"
  | checksum text => "antlr_sha256 must be 64 hex digits, got '" ++ text ++ "'"
  | emptyHostModule => "host_modules contains an empty name"

inductive ConfigFault
  | unreadable (path : Path) (fault : IoFault)
  | malformed
  | invalid (reason : ConfigReason)
deriving DecidableEq, Repr, Inhabited

namespace ConfigFault

def message : ConfigFault → String
  | unreadable path fault => "Failed to read " ++ path.text ++ ": " ++ fault.message
  | malformed => "Failed to parse config"
  | invalid reason => "Invalid config: " ++ reason.message

def chain (fault : ConfigFault) : List String :=
  fault.message :: match fault with
    | unreadable _ cause => [cause.message]
    | _ => []

end ConfigFault

/-- The values of a configuration file; every one may be missing. -/
structure ConfigFile where
  language : Option String := none
  outputDir : Option Path := none
  listener : Option Bool := none
  visitor : Option Bool := none
  antlrJar : Option Path := none
  antlrVersion : Option String := none
  /-- The SHA-256 digest that a downloaded compiler must have, in hexadecimal. -/
  antlrSha256 : Option String := none
  hostModules : Option (List String) := none
  emitModel : Option Bool := none
deriving DecidableEq, Repr, Inhabited

namespace ConfigFile

/-- The file with one more value; keys that it does not know, and values of other kinds, are refused. -/
def set? (c : ConfigFile) : String × TomlValue → Option ConfigFile
  | ("language", .string s) => some { c with language := some s }
  | ("output_dir", .string s) => some { c with outputDir := some ⟨s⟩ }
  | ("listener", .boolean b) => some { c with listener := some b }
  | ("visitor", .boolean b) => some { c with visitor := some b }
  | ("antlr_jar", .string s) => some { c with antlrJar := some ⟨s⟩ }
  | ("antlr_version", .string s) => some { c with antlrVersion := some s }
  | ("antlr_sha256", .string s) => some { c with antlrSha256 := some s }
  | ("host_modules", .strings items) => some { c with hostModules := some items }
  | ("emit_model", .boolean b) => some { c with emitModel := some b }
  | _ => none

def entries (c : ConfigFile) : List (String × TomlValue) :=
  (c.language.map fun s => ("language", TomlValue.string s)).toList ++
    (c.outputDir.map fun p => ("output_dir", TomlValue.string p.text)).toList ++
    (c.listener.map fun b => ("listener", TomlValue.boolean b)).toList ++
    (c.visitor.map fun b => ("visitor", TomlValue.boolean b)).toList ++
    (c.antlrJar.map fun p => ("antlr_jar", TomlValue.string p.text)).toList ++
    (c.antlrVersion.map fun s => ("antlr_version", TomlValue.string s)).toList ++
    (c.antlrSha256.map fun s => ("antlr_sha256", TomlValue.string s)).toList ++
    (c.hostModules.map fun items => ("host_modules", TomlValue.strings items)).toList ++
    (c.emitModel.map fun b => ("emit_model", TomlValue.boolean b)).toList

def isBlankText (s : String) : Bool := s.toList.all isBlank

def isChecksum (s : String) : Bool := s.utf8ByteSize == 64 && s.toList.all isHexDigit

/-- What is wrong with the values, the first of the reasons in this order. -/
def reasons (c : ConfigFile) : List ConfigReason :=
  (c.language.toList.filter fun name => (Language.ofName? name).isNone).map .language ++
    (c.antlrVersion.toList.filter isBlankText).map (fun _ => .emptyVersion) ++
    (c.antlrSha256.toList.filter (!isChecksum ·)).map .checksum ++
    (c.hostModules.toList.filter (·.any isBlankText)).map fun _ => .emptyHostModule

def validate (c : ConfigFile) : Except ConfigFault Unit :=
  match c.reasons with
  | [] => .ok ()
  | reason :: _ => .error (.invalid reason)

def ofText (text : String) : Except ConfigFault ConfigFile :=
  match (Toml.read? text).bind fun entries => entries.foldlM set? {} with
  | none => .error .malformed
  | some c => do
    c.validate
    return c

def ofFile (t : FileTree) (path : Path) : Except ConfigFault ConfigFile := do
  ofText (← (t.readText path).mapError (.unreadable path))

def fileName : String := "stubgen.toml"

/-- The file that is asked for, else that of the working directory, else no values. -/
def discover (t : FileTree) : Option Path → Except ConfigFault ConfigFile
  | some path => ofFile t path
  | none => if t.isFile ⟨fileName⟩ then ofFile t ⟨fileName⟩ else .ok {}

end ConfigFile

end Typings
