import Qemu.Json.QObject

namespace Qemu.Json

open Lib

/-!
# The lexer (`json-lexer.c`)

* `jsonLexer` — the table of the states.
* `jsonLexerFeedChar`, `jsonLexerFeed` — the lexer takes characters, and hands the tokens it finds
  to a callback.
-/

/-- The states of `json_lexer`. -/
inductive LexState
  | error
  | inDoneString
  | inDqUcode3
  | inDqUcode2
  | inDqUcode1
  | inDqUcode0
  | inDqStringEscape
  | inDqString
  | inSqUcode3
  | inSqUcode2
  | inSqUcode1
  | inSqUcode0
  | inSqStringEscape
  | inSqString
  | inZero
  | inDigits
  | inDigit
  | inExpE
  | inMantissa
  | inMantissaDigits
  | inNonzeroNumber
  | inNegNonzeroNumber
  | inKeyword
  | inEscape
  | inEscapeL
  | inEscapeLl
  | inEscapeI
  | inEscapeI6
  | inEscapeI64
  | inEscapeDone
  | inWhitespace
  | inOperatorDone
  | inStart
deriving DecidableEq

/-- `JSONTokenType` -/
inductive JSONTokenType
  | operator
  | integer
  | float
  | keyword
  | string
  | escape
deriving DecidableEq

/-- An element of the table: a state, or a value above the states. -/
inductive LexEntry
  | state (s : LexState)
  | token (type : JSONTokenType)
  | skip
deriving DecidableEq

/-- `'0' ... '9'` -/
def isDigit (b : Byte) : Bool := ascii '0' ≤ b && b ≤ ascii '9'

/-- `'a' ... 'z'` -/
def isLower (b : Byte) : Bool := ascii 'a' ≤ b && b ≤ ascii 'z'

/-- `'1' ... '9'` -/
def isNonzeroDigit (b : Byte) : Bool := ascii '1' ≤ b && b ≤ ascii '9'

/-- `qemu_isxdigit`. -/
def isXdigit (b : Byte) : Bool :=
  isDigit b || (ascii 'a' ≤ b && b ≤ ascii 'f') || (ascii 'A' ≤ b && b ≤ ascii 'F')

/-- The characters that `IN_WHITESPACE` takes. -/
def isWhitespace (b : Byte) : Bool := b == ascii ' ' || b == 9 || b == 13 || b == 10

/-- The characters that are tokens of their own. -/
def isOperator (b : Byte) : Bool :=
  b == ascii '{' || b == ascii '}' || b == ascii '[' || b == ascii ']' || b == ascii ',' ||
    b == ascii ':'

/-- `TERMINAL`. -/
def terminal (e : LexEntry) (b : Byte) : LexEntry := if b ≤ 0x7F then e else .state .error

/-- A state on some characters, an error on the others. -/
def onlyIf (c : Bool) (s : LexState) : LexEntry := if c then .state s else .state .error

/-- What may follow a backslash in a string. -/
def escaped (inString ucode0 : LexState) (b : Byte) : LexEntry :=
  if b == ascii 'u' then .state ucode0
  else onlyIf (b == ascii 'b' || b == ascii 'f' || b == ascii 'n' || b == ascii 'r' ||
    b == ascii 't' || b == 0x27 || b == quote) inString

/-- A character of a string with these delimiters. -/
def inside (inString stringEscape : LexState) (delimiter b : Byte) : LexEntry :=
  if b == backslash then .state stringEscape
  else if b == delimiter then .state .inDoneString
  else onlyIf (b != 0) inString

/-- The table `json_lexer`: the next state, with the characters a token ends at. -/
def jsonLexer (s : LexState) (b : Byte) : LexEntry :=
  match s with
  | .error => .state .error
  | .inDoneString => terminal (.token .string) b
  | .inDqUcode3 => onlyIf (isXdigit b) .inDqString
  | .inDqUcode2 => onlyIf (isXdigit b) .inDqUcode3
  | .inDqUcode1 => onlyIf (isXdigit b) .inDqUcode2
  | .inDqUcode0 => onlyIf (isXdigit b) .inDqUcode1
  | .inDqStringEscape => escaped .inDqString .inDqUcode0 b
  | .inDqString => inside .inDqString .inDqStringEscape quote b
  | .inSqUcode3 => onlyIf (isXdigit b) .inSqString
  | .inSqUcode2 => onlyIf (isXdigit b) .inSqUcode3
  | .inSqUcode1 => onlyIf (isXdigit b) .inSqUcode2
  | .inSqUcode0 => onlyIf (isXdigit b) .inSqUcode1
  | .inSqStringEscape => escaped .inSqString .inSqUcode0 b
  | .inSqString => inside .inSqString .inSqStringEscape 0x27 b
  | .inZero =>
    if isDigit b then .state .error
    else if b == ascii '.' then .state .inMantissa
    else terminal (.token .integer) b
  | .inDigits => if isDigit b then .state .inDigits else terminal (.token .float) b
  | .inDigit => onlyIf (isDigit b) .inDigits
  | .inExpE =>
    if b == ascii '-' || b == ascii '+' then .state .inDigit else onlyIf (isDigit b) .inDigits
  | .inMantissaDigits =>
    if isDigit b then .state .inMantissaDigits
    else if b == ascii 'e' || b == ascii 'E' then .state .inExpE
    else terminal (.token .float) b
  | .inMantissa => onlyIf (isDigit b) .inMantissaDigits
  | .inNonzeroNumber =>
    if isDigit b then .state .inNonzeroNumber
    else if b == ascii 'e' || b == ascii 'E' then .state .inExpE
    else if b == ascii '.' then .state .inMantissa
    else terminal (.token .integer) b
  | .inNegNonzeroNumber =>
    if b == ascii '0' then .state .inZero else onlyIf (isNonzeroDigit b) .inNonzeroNumber
  | .inKeyword => if isLower b then .state .inKeyword else terminal (.token .keyword) b
  | .inWhitespace => if isWhitespace b then .state .inWhitespace else terminal .skip b
  | .inOperatorDone => terminal (.token .operator) b
  | .inEscapeDone => terminal (.token .escape) b
  | .inEscapeLl => onlyIf (b == ascii 'd') .inEscapeDone
  | .inEscapeL =>
    if b == ascii 'l' then .state .inEscapeLl else onlyIf (b == ascii 'd') .inEscapeDone
  | .inEscapeI64 => onlyIf (b == ascii 'd') .inEscapeDone
  | .inEscapeI6 => onlyIf (b == ascii '4') .inEscapeI64
  | .inEscapeI => onlyIf (b == ascii '6') .inEscapeI6
  | .inEscape =>
    if b == ascii 'l' then .state .inEscapeL
    else if b == ascii 'I' then .state .inEscapeI
    else onlyIf (b == ascii 'd' || b == ascii 'i' || b == ascii 'p' || b == ascii 's' ||
      b == ascii 'f') .inEscapeDone
  | .inStart =>
    if b == quote then .state .inDqString
    else if b == 0x27 then .state .inSqString
    else if b == ascii '0' then .state .inZero
    else if isNonzeroDigit b then .state .inNonzeroNumber
    else if b == ascii '-' then .state .inNegNonzeroNumber
    else if isOperator b then .state .inOperatorDone
    else if isLower b then .state .inKeyword
    else if b == ascii '%' then .state .inEscape
    else onlyIf (isWhitespace b) .inWhitespace

/-- The state and the characters of the token that was begun. -/
structure JSONLexer where
  state : LexState
  token : List Byte

/-- `json_lexer_init`. -/
def jsonLexerInit : JSONLexer := ⟨.inStart, []⟩

/-- The state after a token: that of its own first character. -/
def startState (ch : Byte) : LexState :=
  match jsonLexer .inStart ch with
  | .state s => s
  | _ => .error

/-- `ch` as a C string. -/
def charString (ch : Byte) : List Byte := if ch = 0 then [] else [ch]

/-- What a call of the lexer returns: whether there was an error, the lexer, and the state of the
callback. -/
structure Fed (σ : Type) where
  failed : Bool
  lexer : JSONLexer
  state : σ

section

variable {σ : Type} (emit : σ → JSONTokenType → List Byte → σ)

/-- `json_lexer_feed_char` -/
def jsonLexerFeedChar (lexer : JSONLexer) (s : σ) (ch : Byte) : Fed σ :=
  match jsonLexer lexer.state ch with
  | .token type => ⟨false, ⟨startState ch, charString ch⟩, emit s type lexer.token⟩
  | .skip => ⟨false, ⟨startState ch, charString ch⟩, s⟩
  | .state .error => ⟨true, ⟨.error, lexer.token⟩, s⟩
  | .state next => ⟨false, ⟨next, lexer.token ++ charString ch⟩, s⟩

/-- `json_lexer_feed` -/
def jsonLexerFeed (lexer : JSONLexer) (s : σ) : List Byte → Fed σ
  | [] => ⟨false, lexer, s⟩
  | ch :: rest =>
    let r := jsonLexerFeedChar emit lexer s ch
    if r.failed then r else jsonLexerFeed r.lexer r.state rest

/-- `json_lexer_flush`. -/
def jsonLexerFlush (lexer : JSONLexer) (s : σ) : Fed σ := jsonLexerFeedChar emit lexer s 0

end

end Qemu.Json
