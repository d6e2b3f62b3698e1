import Typings.Decimal.Shortest
import Typings.Source.Span

namespace Typings

inductive Keyword
  | kwFunction | kwClass | kwLet | kwConst | kwVar
  | kwIf | kwElse | kwSwitch | kwCase | kwDefault | kwFor | kwWhile | kwDo | kwBreak | kwContinue
  | kwReturn | kwTry | kwCatch | kwFinally | kwThrow
  | kwImport | kwExport
  | kwNew | kwThis | kwSuper | kwExtends
  | kwTypeof | kwInstanceof | kwVoid | kwDelete | kwIn
  | kwDebugger | kwTrue | kwFalse | kwNull
deriving DecidableEq, Repr, Inhabited

namespace Keyword

def text : Keyword → String
  | kwFunction => "function" | kwClass => "class" | kwLet => "let" | kwConst => "const"
  | kwVar => "var" | kwIf => "if" | kwElse => "else" | kwSwitch => "switch" | kwCase => "case"
  | kwDefault => "default" | kwFor => "for" | kwWhile => "while" | kwDo => "do"
  | kwBreak => "break" | kwContinue => "continue" | kwReturn => "return" | kwTry => "try"
  | kwCatch => "catch" | kwFinally => "finally" | kwThrow => "throw" | kwImport => "import"
  | kwExport => "export" | kwNew => "new" | kwThis => "this" | kwSuper => "super"
  | kwExtends => "extends" | kwTypeof => "typeof" | kwInstanceof => "instanceof"
  | kwVoid => "void" | kwDelete => "delete" | kwIn => "in" | kwDebugger => "debugger"
  | kwTrue => "true" | kwFalse => "false" | kwNull => "null"

def all : List Keyword :=
  [kwFunction, kwClass, kwLet, kwConst, kwVar, kwIf, kwElse, kwSwitch, kwCase, kwDefault, kwFor,
    kwWhile, kwDo, kwBreak, kwContinue, kwReturn, kwTry, kwCatch, kwFinally, kwThrow, kwImport,
    kwExport, kwNew, kwThis, kwSuper, kwExtends, kwTypeof, kwInstanceof, kwVoid, kwDelete, kwIn,
    kwDebugger, kwTrue, kwFalse, kwNull]

def ofText? (s : String) : Option Keyword := all.find? (·.text == s)

theorem mem_all (k : Keyword) : k ∈ all := by cases k <;> decide

end Keyword

inductive Punct
  | plus | minus | star | slash | percent | starStar
  | plusPlus | minusMinus | bang | tilde
  | equalEqual | bangEqual | equalEqualEqual | bangEqualEqual
  | less | lessEqual | greater | greaterEqual
  | ampAmp | pipePipe | questionQuestion
  | amp | pipe | caret | lessLess | greaterGreater | greaterGreaterGreater
  | equal | plusEqual | minusEqual | starEqual | slashEqual | percentEqual | ampEqual | pipeEqual
  | caretEqual | lessLessEqual | greaterGreaterEqual | greaterGreaterGreaterEqual | ampAmpEqual
  | pipePipeEqual | questionQuestionEqual
  | question | questionDot | dotDotDot | dot | colon | arrow | hash
  | leftParen | rightParen | leftBrace | rightBrace | leftBracket | rightBracket
  | semicolon | comma
deriving DecidableEq, Repr, Inhabited

namespace Punct

def text : Punct → String
  | plus => "+" | minus => "-" | star => "*" | slash => "/" | percent => "%" | starStar => "**"
  | plusPlus => "++" | minusMinus => "--" | bang => "!" | tilde => "~"
  | equalEqual => "==" | bangEqual => "!=" | equalEqualEqual => "===" | bangEqualEqual => "!=="
  | less => "<" | lessEqual => "<=" | greater => ">" | greaterEqual => ">="
  | ampAmp => "&&" | pipePipe => "||" | questionQuestion => "??"
  | amp => "&" | pipe => "|" | caret => "^" | lessLess => "<<" | greaterGreater => ">>"
  | greaterGreaterGreater => ">>>"
  | equal => "=" | plusEqual => "+=" | minusEqual => "-=" | starEqual => "*=" | slashEqual => "/="
  | percentEqual => "%=" | ampEqual => "&=" | pipeEqual => "|=" | caretEqual => "^="
  | lessLessEqual => "<<=" | greaterGreaterEqual => ">>=" | greaterGreaterGreaterEqual => ">>>="
  | ampAmpEqual => "&&=" | pipePipeEqual => "||=" | questionQuestionEqual => "??="
  | question => "?" | questionDot => "?." | dotDotDot => "..." | dot => "." | colon => ":"
  | arrow => "=>" | hash => "#"
  | leftParen => "(" | rightParen => ")" | leftBrace => "\x7b" | rightBrace => "\x7d"
  | leftBracket => "[" | rightBracket => "]" | semicolon => ";" | comma => ","

def all : List Punct :=
  [plus, minus, star, slash, percent, starStar, plusPlus, minusMinus, bang, tilde, equalEqual,
    bangEqual, equalEqualEqual, bangEqualEqual, less, lessEqual, greater, greaterEqual, ampAmp,
    pipePipe, questionQuestion, amp, pipe, caret, lessLess, greaterGreater, greaterGreaterGreater,
    equal, plusEqual, minusEqual, starEqual, slashEqual, percentEqual, ampEqual, pipeEqual,
    caretEqual, lessLessEqual, greaterGreaterEqual, greaterGreaterGreaterEqual, ampAmpEqual,
    pipePipeEqual, questionQuestionEqual, question, questionDot, dotDotDot, dot, colon, arrow, hash,
    leftParen, rightParen, leftBrace, rightBrace, leftBracket, rightBracket, semicolon, comma]

def ofChars? (cs : List Char) : Option Punct := all.find? (·.text.toList == cs)

def longest? (cs : List Char) : Option Punct :=
  [4, 3, 2, 1].findSome? fun n => ofChars? (cs.take n)

/-- Whether the punctuator assigns: `=`, or an operator joined with it. -/
def isAssignment : Punct → Bool
  | equal | plusEqual | minusEqual | starEqual | slashEqual | percentEqual | ampEqual | pipeEqual
  | caretEqual | lessLessEqual | greaterGreaterEqual | greaterGreaterGreaterEqual | ampAmpEqual
  | pipePipeEqual | questionQuestionEqual => true
  | _ => false

theorem mem_all (p : Punct) : p ∈ all := by cases p <;> decide

end Punct

mutual

inductive Token
  | keyword (k : Keyword)
  | punct (p : Punct)
  | number (value : Float)
  | string (cooked : String)
  | template (parts : List TemplatePart)
  | identifier (name : String)
  | eof

/-- A piece of a template literal: cooked text, or the tokens of a substitution. -/
inductive TemplatePart
  | text (cooked : String)
  | substitution (tokens : List (Token × Span))

end

instance : Inhabited Token := ⟨.eof⟩

abbrev Lexeme := Token × Span

namespace Token

def keywordText? : Token → Option String
  | keyword k => some k.text
  | _ => none

def isKeyword : Token → Bool
  | keyword _ => true
  | _ => false

def isAssignment : Token → Bool
  | punct p => p.isAssignment
  | _ => false

def isPunct (t : Token) (p : Punct) : Bool :=
  match t with
  | punct q => q == p
  | _ => false

def isWord (t : Token) (k : Keyword) : Bool :=
  match t with
  | keyword l => l == k
  | _ => false

def isEof : Token → Bool
  | eof => true
  | _ => false

def name? : Token → Option String
  | identifier n => some n
  | _ => none

def text : Token → String
  | keyword k => k.text
  | punct p => p.text
  | number x => numberText x
  | string _ => "<string>"
  | template _ => "`...`"
  | identifier n => n
  | eof => "EOF"

end Token

end Typings
