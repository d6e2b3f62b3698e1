namespace Typings

/-- A JSON value. A number is kept as it is written; the fields of an object are in order. -/
inductive JsonValue
  | null
  | boolean (b : Bool)
  | number (text : String)
  | string (s : String)
  | array (items : List JsonValue)
  | object (fields : List (String × JsonValue))
deriving Inhabited

namespace JsonValue

def hexDigit (n : Nat) : Char := (Nat.digitChar n)

def escapeChar (c : Char) : List Char :=
  if c == '"' || c == '\\' then ['\\', c]
  else if c == '\n' then ['\\', 'n']
  else if c == '\r' then ['\\', 'r']
  else if c == '\t' then ['\\', 't']
  else if c == '\x08' then ['\\', 'b']
  else if c == '\x0c' then ['\\', 'f']
  else if c.toNat < 0x20 then ['\\', 'u', '0', '0', hexDigit (c.toNat / 16), hexDigit (c.toNat % 16)]
  else [c]

def quote (s : String) : String := String.ofList ('"' :: s.toList.flatMap escapeChar ++ ['"'])

/-- Lines one step further in, between two brackets; nothing between them when there is no item. -/
def bracket (opening closing indent : String) (items : List String) : String :=
  if items.isEmpty then opening ++ closing
  else
    let inner := indent ++ "  "
    opening ++ "\n" ++ ",\n".intercalate (items.map (inner ++ ·)) ++ "\n" ++ indent ++ closing

mutual

def prettyAt (indent : String) : JsonValue → String
  | null => "null"
  | boolean b => if b then "true" else "false"
  | number text => text
  | string s => quote s
  | array items => bracket "[" "]" indent (prettyItems (indent ++ "  ") items)
  | object fields => bracket "\x7b" "\x7d" indent (prettyFields (indent ++ "  ") fields)

def prettyItems (indent : String) : List JsonValue → List String
  | [] => []
  | v :: vs => prettyAt indent v :: prettyItems indent vs

def prettyFields (indent : String) : List (String × JsonValue) → List String
  | [] => []
  | (key, v) :: fields => (quote key ++ ": " ++ prettyAt indent v) :: prettyFields indent fields

end

def pretty (v : JsonValue) : String := v.prettyAt ""

def ofOption {α : Type} (f : α → JsonValue) : Option α → JsonValue
  | some a => f a
  | none => null

def strings (items : List String) : JsonValue := array (items.map string)

end JsonValue

end Typings
