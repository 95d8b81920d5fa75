import Qemu.Json.Lexer

namespace Qemu.Json

open Lib

/-!
# Values of one token (`json-parser.c`, `json-streamer.c`)

* `qstringFromEscapedStr` — the string that a token stands for.
* `parseKeyword`, `parseLiteral` — a value of one token.
* `JSONMessageParser` — tokens are collected until the brackets are balanced.
-/

/-- What the parser reads of a token. -/
structure JSONToken where
  type : JSONTokenType
  token : List Byte
deriving DecidableEq

/-! ### Strings -/

/-- Bits of a character under the mark of a byte. -/
def marked (mark : Byte) (bits : Nat) : Byte := mark ||| BitVec.ofNat 8 bits

/-- `wchar_to_utf8` -/
def wcharToUtf8 (wchar : Nat) : List Byte :=
  if wchar ≤ 0x7F then [BitVec.ofNat 8 (wchar &&& 0x7F)]
  else if wchar ≤ 0x7FF then
    [marked 0xC0 (wchar >>> 6 &&& 0x1F), marked 0x80 (wchar &&& 0x3F)]
  else
    [marked 0xE0 (wchar >>> 12 &&& 0x0F), marked 0x80 (wchar >>> 6 &&& 0x3F),
      marked 0x80 (wchar &&& 0x3F)]

/-- `hex2decimal` -/
def hex2decimal (ch : Byte) : Nat :=
  if isDigit ch then ch.toNat - 48
  else if ascii 'a' ≤ ch && ch ≤ ascii 'f' then 10 + (ch.toNat - 97)
  else 10 + (ch.toNat - 65)

/-- `unicode_char` of four digits. -/
def unicodeChar (h₀ h₁ h₂ h₃ : Byte) : Nat :=
  hex2decimal h₀ <<< 12 ||| (hex2decimal h₁ <<< 8 ||| (hex2decimal h₂ <<< 4 ||| hex2decimal h₃))

/-- The C string in front of the first NUL. -/
def cString (buffer : List Byte) : List Byte := buffer.takeWhile (· != 0)

/-- The character that one behind a backslash stands for. -/
def unescapeByte (b : Byte) : Option Byte :=
  if b = quote then some quote
  else if b = 0x27 then some 0x27
  else if b = backslash then some backslash
  else if b = ascii '/' then some (ascii '/')
  else if b = ascii 'b' then some 8
  else if b = ascii 'n' then some 10
  else if b = ascii 'r' then some 13
  else if b = ascii 't' then some 9
  else none

/-- The loop of `qstring_from_escaped_str`, up to the delimiter. -/
def unescape (delimiter : Byte) : List Byte → Option (List Byte)
  | [] => some []
  | b :: rest =>
    if b = delimiter then some []
    else if b = backslash then
      match rest with
      | [] => none
      | e :: rest =>
        if e = ascii 'u' then
          match rest with
          | h₀ :: h₁ :: h₂ :: h₃ :: rest =>
            if isXdigit h₀ && isXdigit h₁ && isXdigit h₂ && isXdigit h₃ then
              (unescape delimiter rest).map
                (cString (wcharToUtf8 (unicodeChar h₀ h₁ h₂ h₃)) ++ ·)
            else none
          | _ => none
        else
          match unescapeByte e with
          | none => none
          | some c => (unescape delimiter rest).map (c :: ·)
    else (unescape delimiter rest).map (b :: ·)

/-- `qstring_from_escaped_str` -/
def qstringFromEscapedStr (token : List Byte) : Option (List Byte) :=
  match token with
  | [] => none
  | q :: rest => unescape (if q = quote then quote else 0x27) rest

/-! ### Numbers -/

/-- The digits at the front of a string. -/
def digitsValue (l : List Byte) : Nat :=
  (l.takeWhile isDigit).foldl (fun n b => 10 * n + (b.toNat - 48)) 0

/-- A number that is cut off at the bounds of `long long`. -/
def saturate (v : Int) : BitVec 64 := BitVec.ofInt 64 (max (-2 ^ 63) (min v (2 ^ 63 - 1)))

/-- `strtoll` of a token of digits that may have a sign. -/
def strtoll (l : List Byte) : BitVec 64 :=
  match l with
  | [] => 0
  | b :: rest =>
    if b = ascii '-' then saturate (-digitsValue rest) else saturate (digitsValue (b :: rest))

/-! ### Values -/

/-- Why there is no answer: a `NULL` token was looked at, or the fuel is used up. -/
inductive Stop
  | segfault
  | fuel

/-- `none` is `NULL`. -/
abbrev Parsed (α : Type) := Except Stop (Option (α × List JSONToken))

/-- What happens if the first token is this operator, with the tokens behind it, or not. -/
def ifOperator {α : Type} (op : Byte) (tokens : List JSONToken)
    (yes : List JSONToken → Parsed α) (no : Parsed α) : Parsed α :=
  match tokens with
  | [] => .error .segfault
  | t :: rest => if t.type = .operator ∧ t.token = [op] then yes rest else no

/-- What happens after something was parsed; `NULL` stays `NULL`. -/
def andThen {α β : Type} (r : Parsed α) (next : α → List JSONToken → Parsed β) : Parsed β :=
  match r with
  | .error e => .error e
  | .ok none => .ok none
  | .ok (some (a, tokens)) => next a tokens

/-- `token_is_keyword`. -/
def tokenIsKeyword (t : JSONToken) (value : List Byte) : Bool :=
  t.type == .keyword && t.token == value

/-- `parse_keyword` -/
def parseKeyword (tokens : List JSONToken) : Parsed QObject :=
  match tokens with
  | [] => .error .segfault
  | t :: rest =>
    if tokenIsKeyword t [ascii 't', ascii 'r', ascii 'u', ascii 'e'] then
      .ok (some (.qbool true, rest))
    else if tokenIsKeyword t [ascii 'f', ascii 'a', ascii 'l', ascii 's', ascii 'e'] then
      .ok (some (.qbool false, rest))
    else .ok none

/-- `parse_literal` -/
def parseLiteral (libc : Libc) (tokens : List JSONToken) : Parsed QObject :=
  match tokens with
  | [] => .error .segfault
  | t :: rest =>
    match t.type with
    | .string => .ok ((qstringFromEscapedStr t.token).map fun s => (.qstring s, rest))
    | .integer => .ok (some (.qint (strtoll t.token), rest))
    | .float => .ok (some (.qfloat (libc.strtod t.token), rest))
    | _ => .ok none

/-- The alternative that is tried after one that gave `NULL`. -/
def orElse (r : Parsed QObject) (next : Parsed QObject) : Parsed QObject :=
  match r with
  | .ok none => next
  | r => r

/-! ### The streamer -/

/-- The streamer, and the `result` of `parse_json`. -/
structure JSONMessageParser where
  braceCount : Int
  bracketCount : Int
  tokens : List JSONToken
  result : Except Stop (Option QObject)

/-- `json_message_parser_init` -/
def jsonMessageParserInit : JSONMessageParser := ⟨0, 0, [], .ok none⟩

/-- The counts after a token. -/
def JSONMessageParser.countToken (p : JSONMessageParser) (t : JSONToken) : JSONMessageParser :=
  if t.type = .operator then
    let ch := t.token.headD 0
    if ch = ascii '{' then { p with braceCount := p.braceCount + 1 }
    else if ch = ascii '}' then { p with braceCount := p.braceCount - 1 }
    else if ch = ascii '[' then { p with bracketCount := p.bracketCount + 1 }
    else if ch = ascii ']' then { p with bracketCount := p.bracketCount - 1 }
    else p
  else p

end Qemu.Json
