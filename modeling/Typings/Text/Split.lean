namespace Typings

/-- The pieces between the separators; there is always at least one. -/
def splitChars (sep : Char) : List Char → List (List Char)
  | [] => [[]]
  | c :: cs =>
    if c == sep then [] :: splitChars sep cs
    else match splitChars sep cs with
      | [] => [[c]]
      | p :: ps => (c :: p) :: ps

/-- Without one carriage return at the end. -/
def dropReturn (line : List Char) : List Char :=
  match line.reverse with
  | '\r' :: rest => rest.reverse
  | _ => line

/--
The lines of a text: each ends with a line feed, which may follow a carriage return. Text after the
last line feed is a line only when it is not empty, and keeps its carriage return.
-/
def linesOf (cs : List Char) : List (List Char) :=
  match (splitChars '\n' cs).reverse with
  | [] => []
  | last :: before =>
    let full := before.reverse.map dropReturn
    if last.isEmpty then full else full ++ [last]

def startsWithAny (parts : List (List Char)) (cs : List Char) : Bool := parts.any (·.isPrefixOf cs)

def containsAny (parts : List (List Char)) : List Char → Bool
  | [] => startsWithAny parts []
  | c :: cs => startsWithAny parts (c :: cs) || containsAny parts cs

/-- What stands before the first of some texts; all of it when none is there. -/
def beforeAny (parts : List (List Char)) : List Char → List Char
  | [] => []
  | c :: cs => if startsWithAny parts (c :: cs) then [] else c :: beforeAny parts cs

end Typings
