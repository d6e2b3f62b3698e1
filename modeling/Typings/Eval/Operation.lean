import Typings.Eval.Access

namespace Typings

def wordValue (n : Int) : Value := .number (floatOfInt n)

def bitwise (op : Nat → Nat → Nat) (x y : Float) : Value :=
  wordValue (signedWord (op (floatToWord x) (floatToWord y)))

/-- How two values are ordered: texts by their characters, all else as numbers. NaN has no order. -/
def Store.order (s : Store) (a b : Value) : Option (Option Ordering) :=
  match a, b with
  | .string x, .string y => some (some (compare x y))
  | _, _ => do
    let x ← s.number? a
    let y ← s.number? b
    return if x < y then some .lt else if x == y then some .eq else if y < x then some .gt else none

namespace EvalM

/-- The value of an operator other than `typeof` and `delete`. -/
def unary (op : UnaryOp) (v : Value) : EvalM Value := do
  match op with
  | .not => return .boolean (!v.isTruthy)
  | .negate => return .number (-(← numberOf v))
  | .plus => return .number (← numberOf v)
  | .bitNot => return wordValue (-(signedWord (floatToWord (← numberOf v))) - 1)
  | .typeof => return .string v.typeName
  | .void => return .undefined
  | .delete => return .boolean true

def isInstance (v target : Value) : EvalM Bool := do
  let s ← get
  match target with
  | .classOf c =>
    match v with
    | .object r => return (s.object r).class?.any (s.descendsFrom · c)
    | _ => return false
  | .function _ | .host .. => return false
  | _ => fail (.noInstancesOf (← textOf target))

def arithmetic (a b : Value) (f : Float → Float → Value) : EvalM Value :=
  return f (← numberOf a) (← numberOf b)

def equality (a b : Value) (test : Bool → Bool) : EvalM Value :=
  return .boolean (test (← converted [a, b] (·.looseEquals a b)))

/-- The result of a test of the order; without an order it fails. -/
def ordered (a b : Value) (test : Ordering → Bool) : EvalM Value :=
  return .boolean ((← converted [a, b] (·.order a b)).any test)

def binary (op : BinaryOp) (a b : Value) : EvalM Value := do
  match op with
  | .add =>
    if a.isNumeric && b.isNumeric then arithmetic a b fun x y => .number (x + y)
    else return .string ((← textOf a) ++ (← textOf b))
  | .subtract => arithmetic a b fun x y => .number (x - y)
  | .multiply => arithmetic a b fun x y => .number (x * y)
  | .divide => arithmetic a b fun x y => .number (x / y)
  | .modulo => arithmetic a b fun x y => .number (floatRemainder x y)
  | .exponent => arithmetic a b fun x y => .number (x.pow y)
  | .equal => equality a b id
  | .notEqual => equality a b (!·)
  | .strictEqual => return .boolean (a.strictEquals b)
  | .strictNotEqual => return .boolean (!a.strictEquals b)
  | .less => ordered a b (·.isLT)
  | .lessEqual => ordered a b (·.isLE)
  | .greater => ordered a b (·.isGT)
  | .greaterEqual => ordered a b (·.isGE)
  | .bitAnd => arithmetic a b (bitwise Nat.land)
  | .bitOr => arithmetic a b (bitwise Nat.lor)
  | .bitXor => arithmetic a b (bitwise Nat.xor)
  | .shiftLeft =>
    arithmetic a b fun x y =>
      wordValue (signedWord (floatToWord x * Nat.pow 2 (floatToWord y % 32) % Nat.pow 2 32))
  | .shiftRight =>
    arithmetic a b fun x y =>
      wordValue ((signedWord (floatToWord x)).fdiv (Nat.pow 2 (floatToWord y % 32)))
  | .unsignedShiftRight =>
    arithmetic a b fun x y =>
      wordValue (floatToWord x / Nat.pow 2 (floatToWord y % 32) : Nat)
  | .instanceOf => return .boolean (← isInstance a b)
  | .isIn => return .boolean (← hasProperty b (← textOf a))

/-- Whether the left operand of a logical operator is the result. -/
def decides (op : LogicalOp) (v : Value) : Bool :=
  match op with
  | .and => !v.isTruthy
  | .or => v.isTruthy
  | .nullish => !v.isNullish

end EvalM

end Typings
