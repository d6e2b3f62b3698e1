import Typings.Compile.Jar
import Typings.Recover.Grammar

namespace Typings

def LoadFault.chain (fault : LoadFault) : List String :=
  fault.message :: match fault with
    | .io _ cause => [cause.message]
    | _ => []

def RecoveryFault.chain (fault : RecoveryFault) : List String :=
  match fault with
  | .load cause => cause.chain
  | .update _ cause => [fault.message, cause.message]
  | _ => [fault.message]

inductive RunCause
  | compile (fault : CompileFault)
  | recovery (fault : RecoveryFault)
  | fetch (fault : FetchFault)
  | write (fault : IoFault)
deriving DecidableEq, Repr, Inhabited

def RunCause.chain : RunCause → List String
  | compile fault => fault.chain
  | recovery fault => fault.chain
  | fetch fault => fault.chain
  | write fault => [fault.message]

/-- A cause, and what was being done, from the outside in. -/
structure RunFault where
  doing : List String := []
  cause : RunCause
deriving DecidableEq, Repr, Inhabited

namespace RunFault

def message (fault : RunFault) : String := ": ".intercalate (fault.doing ++ fault.cause.chain)

/-- The fault as it is seen by one that was doing more. -/
def during (what : String) (fault : RunFault) : RunFault := { fault with doing := what :: fault.doing }

def ofCompile (fault : CompileFault) : RunFault := { cause := .compile fault }

def ofRecovery (fault : RecoveryFault) : RunFault := { cause := .recovery fault }

def ofFetch (fault : FetchFault) : RunFault := { cause := .fetch fault }

end RunFault

end Typings
