namespace Typings

inductive ColorChoice
  | auto | always | never
deriving DecidableEq, Repr, Inhabited

def ColorChoice.ofName? : String → Option ColorChoice
  | "auto" => some auto
  | "always" => some always
  | "never" => some never
  | _ => none

structure Terminal where
  term : Option String := none
  noColor : Bool := false
deriving DecidableEq, Repr, Inhabited

/-- Whether colours are used: never against the environment, else as chosen, else on a known terminal. -/
def Terminal.usesColor (t : Terminal) (choice : Option ColorChoice) : Bool :=
  !t.noColor && match choice with
    | some .always => true
    | some .never => false
    | _ => t.term.any (· != "dumb")

structure Style where
  color : Nat
  bold : Bool := false
  underlined : Bool := false
deriving DecidableEq, Repr, Inhabited

namespace Style

def path : Style := { color := 4, underlined := true }

def warning : Style := { color := 3, bold := true }

def error : Style := { color := 1, bold := true }

def sequence (code : String) : String := "\x1b[" ++ code ++ "m"

def apply (style : Style) (on : Bool) (text : String) : String :=
  if on then
    sequence "0" ++ (if style.bold then sequence "1" else "") ++
      (if style.underlined then sequence "4" else "") ++ sequence ("3" ++ toString style.color) ++
      text ++ sequence "0"
  else text

end Style

end Typings
