/-! The kinds of token and the reserved words. Which kind a token is of can be told from its
text alone: a symbol has a kind of its own, a reserved word is a keyword, a text that starts
with a digit is a number, and any other is an identifier. -/

namespace Scriptlet

inductive Keyword
  | declare | ifWord | whileWord | breakWord | continueWord | andWord | orWord | notWord
  deriving DecidableEq

namespace Keyword

def all : List Keyword :=
  [declare, ifWord, whileWord, breakWord, continueWord, andWord, orWord, notWord]

def text : Keyword → String
  | declare => "declare"
  | ifWord => "if"
  | whileWord => "while"
  | breakWord => "break"
  | continueWord => "continue"
  | andWord => "and"
  | orWord => "or"
  | notWord => "not"

def name : Keyword → String
  | declare => "Declare"
  | ifWord => "If"
  | whileWord => "While"
  | breakWord => "Break"
  | continueWord => "Continue"
  | andWord => "And"
  | orWord => "Or"
  | notWord => "Not"

def ofText? (text : String) : Option Keyword := all.find? (·.text = text)

theorem ofText?_eq_some_iff {text : String} {k : Keyword} :
    ofText? text = some k ↔ k.text = text := by
  constructor
  · intro h
    simpa using List.find?_some h
  · rintro rfl
    cases k <;> rfl

end Keyword

inductive TokenKind
  | leftParen | rightParen | leftBrace | rightBrace | comma | semicolon | slash | star | caret
  | plus | plusPlus | minus | minusMinus | equal | equalEqual | arrow | bangEqual
  | greater | greaterEqual | less | lessEqual
  | identifier | number | keyword
  | endOfInput
  deriving DecidableEq

namespace TokenKind

def name : TokenKind → String
  | leftParen => "LeftParen"
  | rightParen => "RightParen"
  | leftBrace => "LeftBrace"
  | rightBrace => "RightBrace"
  | comma => "Comma"
  | semicolon => "Semicolon"
  | slash => "Slash"
  | star => "Star"
  | caret => "Caret"
  | plus => "Plus"
  | plusPlus => "PlusPlus"
  | minus => "Minus"
  | minusMinus => "MinusMinus"
  | equal => "Equal"
  | equalEqual => "EqualEqual"
  | arrow => "Arrow"
  | bangEqual => "BangEqual"
  | greater => "Greater"
  | greaterEqual => "GreaterEqual"
  | less => "Less"
  | lessEqual => "LessEqual"
  | identifier => "Identifier"
  | number => "Number"
  | keyword => "Keyword"
  | endOfInput => "EndOfInput"

def all : List TokenKind :=
  [leftParen, rightParen, leftBrace, rightBrace, comma, semicolon, slash, star, caret,
    plus, plusPlus, minus, minusMinus, equal, equalEqual, arrow, bangEqual,
    greater, greaterEqual, less, lessEqual, identifier, number, keyword, endOfInput]

def ofName? (name : String) : Option TokenKind := all.find? (·.name = name)

def ofSymbol? : List Char → Option TokenKind
  | ['('] => some leftParen
  | [')'] => some rightParen
  | ['\x7b'] => some leftBrace
  | ['\x7d'] => some rightBrace
  | [','] => some comma
  | [';'] => some semicolon
  | ['/'] => some slash
  | ['*'] => some star
  | ['^'] => some caret
  | ['+'] => some plus
  | ['+', '+'] => some plusPlus
  | ['-'] => some minus
  | ['-', '-'] => some minusMinus
  | ['='] => some equal
  | ['=', '='] => some equalEqual
  | ['=', '>'] => some arrow
  | ['!', '='] => some bangEqual
  | ['>'] => some greater
  | ['>', '='] => some greaterEqual
  | ['<'] => some less
  | ['<', '='] => some lessEqual
  | _ => none

def ofText (text : List Char) : TokenKind :=
  match ofSymbol? text with
  | some kind => kind
  | none =>
    if (Keyword.ofText? (String.ofList text)).isSome then keyword
    else if text.head?.any Char.isDigit then number
    else identifier

end TokenKind
end Scriptlet
