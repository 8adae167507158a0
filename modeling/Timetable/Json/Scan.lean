import Timetable.Json.Value
import Timetable.Text.Scan

namespace Timetable.Json

inductive Token where
  | beginArray | endArray | beginObject | endObject | comma | colon
  | null
  | bool (value : Bool)
  | number (value : Numeral)
  | string (value : WrittenText)
  deriving Repr

/-- The digits at the front of a text, of which there must be one. -/
def someDigits? (cs : List Char) : Option (List Char × List Char) :=
  match cs.span Char.isDigit with
  | ([], _) => none
  | (ds, rest) => some (ds, rest)

/-- The digits before the point; a leading zero stands alone. -/
def wholePart? : List Char → Option (List Char × List Char)
  | '0' :: rest => some (['0'], rest)
  | cs => someDigits? cs

def fraction? : List Char → Option (List Char × List Char)
  | '.' :: rest => someDigits? rest
  | cs => some ([], cs)

/-- The sign of an exponent: whether it is negative. -/
def exponentSign : List Char → Bool × List Char
  | '-' :: rest => (true, rest)
  | '+' :: rest => (false, rest)
  | cs => (false, cs)

/-- The power of ten that a rest of a number states, none when it states none. -/
def exponent? : List Char → Option (Option Int)
  | [] => some none
  | e :: cs =>
    let (negative, cs) := exponentSign cs
    match someDigits? cs with
    | some (ds, []) =>
      let n : Int := Text.decimal ds
      if e = 'e' ∨ e = 'E' then some (some (if negative then -n else n)) else none
    | _ => none

def numberSign : List Char → Bool × List Char
  | '-' :: cs => (true, cs)
  | cs => (false, cs)

/-- A number without leading zeros, with an optional fraction and exponent. -/
def numeral? (cs : List Char) : Option Numeral := do
  let (negative, cs) := numberSign cs
  let (whole, cs) ← wholePart? cs
  let (fraction, cs) ← fraction? cs
  let exponent ← exponent? cs
  some
    { negative
      significand := Text.decimal (whole ++ fraction)
      exponent := exponent.getD 0 - fraction.length
      whole := fraction.isEmpty && exponent.isNone }

def word? (cs : List Char) : Option Token :=
  if cs = "null".toList then some .null
  else if cs = "true".toList then some (.bool true)
  else if cs = "false".toList then some (.bool false)
  else (numeral? cs).map .number

/-- Joins the halves of each surrogate pair; none when a half stands alone. -/
def joinPairs : List Nat → Option (List Char)
  | [] => some []
  | [u] => if u < 0xD800 || 0xDFFF < u then some [Char.ofNat u] else none
  | u :: v :: rest =>
    if 0xD800 ≤ u && u ≤ 0xDBFF then
      if 0xDC00 ≤ v && v ≤ 0xDFFF then
        (joinPairs rest).map (Char.ofNat (0x10000 + (u - 0xD800) * 0x400 + (v - 0xDC00)) :: ·)
      else none
    else if 0xDC00 ≤ u && u ≤ 0xDFFF then none
    else (joinPairs (v :: rest)).map (Char.ofNat u :: ·)

/-- The text of a string, from its code units in reverse. -/
def textOf (units : List Nat) : WrittenText := (joinPairs units.reverse).map String.ofList

def escaped? : Char → Option Char
  | '"' => some '"'
  | '\\' => some '\\'
  | '/' => some '/'
  | 'b' => some '\x08'
  | 'f' => some '\x0c'
  | 'n' => some '\n'
  | 'r' => some '\r'
  | 't' => some '\t'
  | _ => none

def hexDigit? (c : Char) : Option Nat :=
  if c.isDigit then some (c.toNat - '0'.toNat)
  else if 'a' ≤ c ∧ c ≤ 'f' then some (c.toNat - 'a'.toNat + 10)
  else if 'A' ≤ c ∧ c ≤ 'F' then some (c.toNat - 'A'.toNat + 10)
  else none

/-- Where the scanner stands. What it has read of a word or a string is kept in reverse. -/
inductive ScanMode where
  | between
  | word (read : List Char)
  | string (read : List Nat)
  | backslash (read : List Nat)
  /-- Within a four-digit escape, of which `left` digits are to come. -/
  | hex (read : List Nat) (left value : Nat)

structure Scanner where
  mode : ScanMode
  /-- The tokens read, in reverse. -/
  tokens : List Token

namespace Scanner

def start : Scanner := ⟨.between, []⟩

def mark? : Char → Option Token
  | '[' => some .beginArray
  | ']' => some .endArray
  | '\x7b' => some .beginObject
  | '\x7d' => some .endObject
  | ',' => some .comma
  | ':' => some .colon
  | _ => none

def isSpace (c : Char) : Bool := c = ' ' || c = '\t' || c = '\n' || c = '\r'

/-- One character outside strings. -/
def outside (tokens : List Token) (c : Char) : Scanner :=
  if isSpace c then ⟨.between, tokens⟩
  else if c = '"' then ⟨.string [], tokens⟩
  else
    match mark? c with
    | some t => ⟨.between, t :: tokens⟩
    | none => ⟨.word [c], tokens⟩

def endsWord (c : Char) : Bool := isSpace c || c = '"' || (mark? c).isSome

def step (s : Scanner) (c : Char) : Option Scanner :=
  match s.mode with
  | .between => some (outside s.tokens c)
  | .word read =>
    if endsWord c then (word? read.reverse).map fun t => outside (t :: s.tokens) c
    else some { s with mode := .word (c :: read) }
  | .string read =>
    if c = '"' then some ⟨.between, .string (textOf read) :: s.tokens⟩
    else if c = '\\' then some { s with mode := .backslash read }
    else if c.toNat < 0x20 then none
    else some { s with mode := .string (c.toNat :: read) }
  | .backslash read =>
    if c = 'u' then some { s with mode := .hex read 4 0 }
    else (escaped? c).map fun e => { s with mode := .string (e.toNat :: read) }
  | .hex read left value =>
    (hexDigit? c).map fun d =>
      if left ≤ 1 then { s with mode := .string ((16 * value + d) :: read) }
      else { s with mode := .hex read (left - 1) (16 * value + d) }

/-- The tokens, if the text may end here. -/
def finish (s : Scanner) : Option (List Token) :=
  match s.mode with
  | .between => some s.tokens.reverse
  | .word read => (word? read.reverse).map fun t => (t :: s.tokens).reverse
  | _ => none

end Scanner

def tokens? (cs : List Char) : Option (List Token) :=
  (cs.foldlM Scanner.step Scanner.start).bind Scanner.finish

end Timetable.Json
