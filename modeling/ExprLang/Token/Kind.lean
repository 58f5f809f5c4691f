/-!
# Kinds of tokens

The closed set of token categories: punctuation, operators, the three open classes (names,
strings, numbers), the reserved words, and the mark at the end of the source text. The parser
looks at kinds only.
-/

namespace ExprLang

/-- The category of a token. -/
inductive Kind where
  | leftParen | rightParen | leftBrace | rightBrace
  | comma | dot | minus | plus | semicolon | slash | star
  | bang | bangEqual | equal | equalEqual
  | greater | greaterEqual | less | lessEqual
  | identifier | string | number
  | andWord | classWord | elseWord | falseWord | funWord | forWord | ifWord | nilWord
  | orWord | printWord | returnWord | superWord | thisWord | trueWord | varWord | whileWord
  | eof
deriving DecidableEq, Repr

namespace Kind

/-- Every kind, in the order of the definition. -/
def all : List Kind :=
  [leftParen, rightParen, leftBrace, rightBrace, comma, dot, minus, plus, semicolon, slash, star,
    bang, bangEqual, equal, equalEqual, greater, greaterEqual, less, lessEqual,
    identifier, string, number,
    andWord, classWord, elseWord, falseWord, funWord, forWord, ifWord, nilWord,
    orWord, printWord, returnWord, superWord, thisWord, trueWord, varWord, whileWord, eof]

/-- The name of a kind in listings. -/
def name : Kind → String
  | leftParen => "LEFT_PAREN"
  | rightParen => "RIGHT_PAREN"
  | leftBrace => "LEFT_BRACE"
  | rightBrace => "RIGHT_BRACE"
  | comma => "COMMA"
  | dot => "DOT"
  | minus => "MINUS"
  | plus => "PLUS"
  | semicolon => "SEMICOLON"
  | slash => "SLASH"
  | star => "STAR"
  | bang => "BANG"
  | bangEqual => "BANG_EQUAL"
  | equal => "EQUAL"
  | equalEqual => "EQUAL_EQUAL"
  | greater => "GREATER"
  | greaterEqual => "GREATER_EQUAL"
  | less => "LESS"
  | lessEqual => "LESS_EQUAL"
  | identifier => "IDENTIFIER"
  | string => "STRING"
  | number => "NUMBER"
  | andWord => "AND"
  | classWord => "CLASS"
  | elseWord => "ELSE"
  | falseWord => "FALSE"
  | funWord => "FUN"
  | forWord => "FOR"
  | ifWord => "IF"
  | nilWord => "NIL"
  | orWord => "OR"
  | printWord => "PRINT"
  | returnWord => "RETURN"
  | superWord => "SUPER"
  | thisWord => "THIS"
  | trueWord => "TRUE"
  | varWord => "VAR"
  | whileWord => "WHILE"
  | eof => "EOF"

/-- The spelling of a reserved word. The nil literal has two letters `l` at its end. -/
def wordSpelling? : Kind → Option String
  | andWord => some "and"
  | classWord => some "class"
  | elseWord => some "else"
  | falseWord => some "false"
  | funWord => some "fun"
  | forWord => some "for"
  | ifWord => some "if"
  | nilWord => some "nill"
  | orWord => some "or"
  | printWord => some "print"
  | returnWord => some "return"
  | superWord => some "super"
  | thisWord => some "this"
  | trueWord => some "true"
  | varWord => some "var"
  | whileWord => some "while"
  | _ => none

/-- The kind of the reserved word with this spelling, if there is one. -/
def keyword? (text : String) : Option Kind :=
  all.find? fun kind => kind.wordSpelling? == some text

/-- The kind of the token that one character of punctuation or an operator forms by itself. -/
def ofChar? : Char → Option Kind
  | '(' => some leftParen
  | ')' => some rightParen
  | '{' => some leftBrace
  | '}' => some rightBrace
  | ',' => some comma
  | '.' => some dot
  | '-' => some minus
  | '+' => some plus
  | ';' => some semicolon
  | '/' => some slash
  | '*' => some star
  | '!' => some bang
  | '=' => some equal
  | '>' => some greater
  | '<' => some less
  | _ => none

/-- The kind of the operator that an equals sign completes, if it completes one. -/
def withEqual? : Kind → Option Kind
  | bang => some bangEqual
  | equal => some equalEqual
  | greater => some greaterEqual
  | less => some lessEqual
  | _ => none

/-- Whether a token of this kind begins a declaration or statement; skipping stops there. -/
def beginsStatement : Kind → Bool
  | classWord | funWord | varWord | forWord | ifWord | whileWord | printWord | returnWord => true
  | _ => false

end Kind

end ExprLang
