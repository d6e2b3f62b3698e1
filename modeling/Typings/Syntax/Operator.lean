import Typings.Token.Basic

namespace Typings

inductive UnaryOp
  | not | negate | plus | bitNot | typeof | void | delete
deriving DecidableEq, Repr, Inhabited

inductive UpdateOp
  | increment | decrement
deriving DecidableEq, Repr, Inhabited

inductive BinaryOp
  | add | subtract | multiply | divide | modulo | exponent
  | equal | notEqual | strictEqual | strictNotEqual
  | less | lessEqual | greater | greaterEqual
  | bitAnd | bitOr | bitXor | shiftLeft | shiftRight | unsignedShiftRight
  | instanceOf | isIn
deriving DecidableEq, Repr, Inhabited

inductive LogicalOp
  | and | or | nullish
deriving DecidableEq, Repr, Inhabited

/-- An operator between two operands; the logical ones may skip the second. -/
inductive InfixOp
  | binary (op : BinaryOp)
  | logical (op : LogicalOp)
deriving DecidableEq, Repr, Inhabited

inductive AssignOp
  | assign
  | compound (op : BinaryOp)
  | logical (op : LogicalOp)
deriving DecidableEq, Repr, Inhabited

namespace InfixOp

/-- A larger number binds tighter. -/
def precedence : InfixOp → Nat
  | logical .nullish => 3
  | logical .or => 4
  | logical .and => 5
  | binary .bitOr => 6
  | binary .bitXor => 7
  | binary .bitAnd => 8
  | binary .equal | binary .notEqual | binary .strictEqual | binary .strictNotEqual => 9
  | binary .less | binary .lessEqual | binary .greater | binary .greaterEqual
  | binary .instanceOf | binary .isIn => 10
  | binary .shiftLeft | binary .shiftRight | binary .unsignedShiftRight => 11
  | binary .add | binary .subtract => 12
  | binary .multiply | binary .divide | binary .modulo => 13
  | binary .exponent => 14

def isRightAssociative (op : InfixOp) : Bool := op == .binary .exponent

def ofToken? : Token → Option InfixOp
  | .punct p => match p with
    | .questionQuestion => some (logical .nullish)
    | .pipePipe => some (logical .or)
    | .ampAmp => some (logical .and)
    | .pipe => some (binary .bitOr)
    | .caret => some (binary .bitXor)
    | .amp => some (binary .bitAnd)
    | .equalEqual => some (binary .equal)
    | .bangEqual => some (binary .notEqual)
    | .equalEqualEqual => some (binary .strictEqual)
    | .bangEqualEqual => some (binary .strictNotEqual)
    | .less => some (binary .less)
    | .lessEqual => some (binary .lessEqual)
    | .greater => some (binary .greater)
    | .greaterEqual => some (binary .greaterEqual)
    | .lessLess => some (binary .shiftLeft)
    | .greaterGreater => some (binary .shiftRight)
    | .greaterGreaterGreater => some (binary .unsignedShiftRight)
    | .plus => some (binary .add)
    | .minus => some (binary .subtract)
    | .star => some (binary .multiply)
    | .slash => some (binary .divide)
    | .percent => some (binary .modulo)
    | .starStar => some (binary .exponent)
    | _ => none
  | .keyword .kwInstanceof => some (binary .instanceOf)
  | .keyword .kwIn => some (binary .isIn)
  | _ => none

end InfixOp

namespace AssignOp

def ofToken? : Token → Option AssignOp
  | .punct p => match p with
    | .equal => some assign
    | .plusEqual => some (compound .add)
    | .minusEqual => some (compound .subtract)
    | .starEqual => some (compound .multiply)
    | .slashEqual => some (compound .divide)
    | .percentEqual => some (compound .modulo)
    | .ampEqual => some (compound .bitAnd)
    | .pipeEqual => some (compound .bitOr)
    | .caretEqual => some (compound .bitXor)
    | .lessLessEqual => some (compound .shiftLeft)
    | .greaterGreaterEqual => some (compound .shiftRight)
    | .greaterGreaterGreaterEqual => some (compound .unsignedShiftRight)
    | .ampAmpEqual => some (logical .and)
    | .pipePipeEqual => some (logical .or)
    | .questionQuestionEqual => some (logical .nullish)
    | _ => none
  | _ => none

end AssignOp

def UnaryOp.ofToken? : Token → Option UnaryOp
  | .punct .bang => some .not
  | .punct .minus => some .negate
  | .punct .plus => some .plus
  | .punct .tilde => some .bitNot
  | .keyword .kwTypeof => some .typeof
  | .keyword .kwVoid => some .void
  | .keyword .kwDelete => some .delete
  | _ => none

def UpdateOp.ofToken? : Token → Option UpdateOp
  | .punct .plusPlus => some .increment
  | .punct .minusMinus => some .decrement
  | _ => none

end Typings
