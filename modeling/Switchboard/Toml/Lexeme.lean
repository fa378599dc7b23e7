import Switchboard.Scientific
import Switchboard.Text.Hexadecimal
import Switchboard.Text.Numeral
import Switchboard.Calendar
import Switchboard.Document

/-!
# Switchboard.Toml.Lexeme

The parts of a TOML text: blanks, comments, strings, numbers and dates.

1. Every reader takes a list of characters and gives what it read together
   with the characters after it, or nothing.
2. A key has less than eighty parts.
3. Whole numbers have 64 bits with a sign. Underscores may stand between two
   digits only. Other numbers must not be too great; written as a word or with
   a minus, infinity is a number too.
4. Dates and times must exist; a second may be the sixtieth.
-/

namespace Switchboard.Toml

open Text (hexValue? scalar?)

/-! ## blanks and comments -/

/-- Spaces and tabs. -/
def isSpace (c : Char) : Bool := c == ' ' || c == '\t'

/-- The text from its first character that is no space. -/
def skipSpace (cs : List Char) : List Char := cs.dropWhile isSpace

/-- The text after a line break. -/
def afterBreak? : List Char → Option (List Char)
  | '\n' :: cs => some cs
  | '\r' :: '\n' :: cs => some cs
  | _ => none

/-- A tab or a character that is no control character. -/
def isPlain (c : Char) : Bool := c == '\t' || (0x20 ≤ c.toNat && c.toNat != 0x7f)

/-- The text after a comment, if one begins here. -/
def skipComment : List Char → List Char
  | '#' :: cs => cs.dropWhile isPlain
  | cs => cs

/-- The text after the end of a line, which may hold spaces and a comment. -/
def afterLine? (cs : List Char) : Option (List Char) :=
  match skipComment (skipSpace cs) with
  | [] => some []
  | rest => afterBreak? rest

/-- The text after spaces, comments and line breaks; every comment ends with
a line break. -/
def skipLines (fuel : Nat) (cs : List Char) : List Char :=
  match fuel with
  | 0 => cs
  | fuel + 1 =>
    let cs := skipSpace cs
    match afterBreak? (skipComment cs) with
    | some rest => skipLines fuel rest
    | none => cs

/-! ## strings -/

/-- The character that a letter stands for after a backslash. -/
def escape? : Char → Option Char
  | 'b' => some '\x08'
  | 't' => some '\t'
  | 'n' => some '\n'
  | 'f' => some '\x0c'
  | 'r' => some '\r'
  | '"' => some '"'
  | '\\' => some '\\'
  | _ => none

/-- Put a character in front of what was read. -/
def cons (c : Char) (r : Option (List Char × List Char)) : Option (List Char × List Char) :=
  r.map fun (cs, rest) => (c :: cs, rest)

/-- The rest of a string between quotes. -/
def basic : List Char → Option (List Char × List Char)
  | [] => none
  | '"' :: rest => some ([], rest)
  | '\\' :: 'u' :: a :: b :: c :: d :: rest =>
    (scalar? [a, b, c, d]).bind fun x => cons x (basic rest)
  | '\\' :: 'U' :: a :: b :: c :: d :: e :: f :: g :: h :: rest =>
    (scalar? [a, b, c, d, e, f, g, h]).bind fun x => cons x (basic rest)
  | '\\' :: e :: rest => (escape? e).bind fun x => cons x (basic rest)
  | c :: rest => if isPlain c && c != '\\' then cons c (basic rest) else none

/-- The rest of a string between apostrophes. -/
def literal : List Char → Option (List Char × List Char)
  | [] => none
  | '\'' :: rest => some ([], rest)
  | c :: rest => if isPlain c then cons c (literal rest) else none

/-- Whether a backslash here ends a line, so that the blanks after it are
left out. -/
def continuesLine (cs : List Char) : Bool := (afterBreak? (skipSpace cs)).isSome

/-- The rest of a string of several lines between triple quotes. While
`skipping`, blanks and line breaks are left out. -/
def longBasic (skipping : Bool) : List Char → Option (List Char × List Char)
  | [] => none
  | '"' :: '"' :: '"' :: '"' :: '"' :: rest => some (['"', '"'], rest)
  | '"' :: '"' :: '"' :: '"' :: rest => some (['"'], rest)
  | '"' :: '"' :: '"' :: rest => some ([], rest)
  | '\\' :: 'u' :: a :: b :: c :: d :: rest =>
    (scalar? [a, b, c, d]).bind fun x => cons x (longBasic false rest)
  | '\\' :: 'U' :: a :: b :: c :: d :: e :: f :: g :: h :: rest =>
    (scalar? [a, b, c, d, e, f, g, h]).bind fun x => cons x (longBasic false rest)
  | '\\' :: e :: rest =>
    if continuesLine (e :: rest) then longBasic true (e :: rest)
    else (escape? e).bind fun x => cons x (longBasic false rest)
  | '\r' :: '\n' :: rest =>
    if skipping then longBasic true rest else cons '\n' (longBasic false rest)
  | c :: rest =>
    if skipping && (isSpace c || c == '\n') then longBasic true rest
    else if c == '\n' || (isPlain c && c != '\\') then cons c (longBasic false rest)
    else none

/-- The rest of a string of several lines between triple apostrophes. -/
def longLiteral : List Char → Option (List Char × List Char)
  | [] => none
  | '\'' :: '\'' :: '\'' :: '\'' :: '\'' :: rest => some (['\'', '\''], rest)
  | '\'' :: '\'' :: '\'' :: '\'' :: rest => some (['\''], rest)
  | '\'' :: '\'' :: '\'' :: rest => some ([], rest)
  | '\r' :: '\n' :: rest => cons '\n' (longLiteral rest)
  | c :: rest => if c == '\n' || isPlain c then cons c (longLiteral rest) else none

/-- The text after one line break, if there is one. -/
def dropBreak (cs : List Char) : List Char := (afterBreak? cs).getD cs

/-- A string of any form. -/
def string? : List Char → Option (String × List Char)
  | '"' :: '"' :: '"' :: rest =>
    (longBasic false (dropBreak rest)).map fun (cs, rest) => (String.ofList cs, rest)
  | '\'' :: '\'' :: '\'' :: rest =>
    (longLiteral (dropBreak rest)).map fun (cs, rest) => (String.ofList cs, rest)
  | '"' :: rest => (basic rest).map fun (cs, rest) => (String.ofList cs, rest)
  | '\'' :: rest => (literal rest).map fun (cs, rest) => (String.ofList cs, rest)
  | _ => none

/-! ## keys -/

/-- Characters of a key without quotes. -/
def isBareKey (c : Char) : Bool := c.isAlphanum || c == '_' || c == '-'

/-- One part of a key: a word, or a string of one line. -/
def keyPart? : List Char → Option (String × List Char)
  | '"' :: rest => (basic rest).map fun (cs, rest) => (String.ofList cs, rest)
  | '\'' :: rest => (literal rest).map fun (cs, rest) => (String.ofList cs, rest)
  | cs =>
    let word := cs.takeWhile isBareKey
    if word.isEmpty then none else some (String.ofList word, cs.dropWhile isBareKey)

/-- At most `limit` parts with points, and perhaps spaces, between them. -/
def keyParts? (limit : Nat) (cs : List Char) : Option (List String × List Char) :=
  match limit with
  | 0 => none
  | limit + 1 => do
    let (part, rest) ← keyPart? (skipSpace cs)
    match skipSpace rest with
    | '.' :: more =>
      let (parts, rest) ← keyParts? limit more
      return (part :: parts, rest)
    | rest => return ([part], rest)

/-- Keys have fewer parts than this, and values nest less deep. -/
def nestingLimit : Nat := 80

/-- A key. -/
def key? (cs : List Char) : Option (List String × List Char) := keyParts? (nestingLimit - 1) cs

/-! ## numbers -/

/-- The digits of a group, without the underscores between them. -/
def digits? (isDigit : Char → Bool) : List Char → Option (List Char)
  | [] => none
  | [c] => if isDigit c then some [c] else none
  | c :: '_' :: d :: rest =>
    if isDigit c then (digits? isDigit (d :: rest)).map (c :: ·) else none
  | c :: rest => if isDigit c then (digits? isDigit rest).map (c :: ·) else none

/-- A number with a base of its own. -/
def based? (base : Nat) (cs : List Char) : Option Nat := do
  let isDigitOf := fun c => (hexValue? c).any (· < base)
  let ds ← digits? isDigitOf cs
  let values ← ds.mapM hexValue?
  return values.foldl (fun n d => base * n + d) 0

/-- A whole number in base ten, without a nought in front. -/
def decimal? (cs : List Char) : Option Nat := do
  let ds ← digits? Char.isDigit cs
  if ds.length > 1 ∧ ds.head? = some '0' then none else some (Text.value ds)

/-- Sign of a number: whether it is negative, and the characters after it. -/
def sign : List Char → Bool × List Char
  | '-' :: cs => (true, cs)
  | '+' :: cs => (false, cs)
  | cs => (false, cs)

/-- A number that fits into 64 bits with a sign. -/
def word? (n : Int) : Option Int :=
  if -9223372036854775808 ≤ n ∧ n < 9223372036854775808 then some n else none

/-- A whole number. -/
def integer? (cs : List Char) : Option Int :=
  match cs with
  | '0' :: 'x' :: ds => (based? 16 ds).bind fun n => word? n
  | '0' :: 'o' :: ds => (based? 8 ds).bind fun n => word? n
  | '0' :: 'b' :: ds => (based? 2 ds).bind fun n => word? n
  | _ =>
    let (negative, ds) := sign cs
    (decimal? ds).bind fun n => word? (if negative then -(n : Int) else n)

/-- Whether an exponent is written well: a sign and digits. -/
def isExponent (cs : List Char) : Bool := (digits? Char.isDigit (sign cs).2).isSome

/-- Whether a number is above the greatest that can be held. -/
def isTooGreat (cs : List Char) : Bool :=
  (Scientific.parse? (cs.filter (· != '_'))).any fun n => !n.negative && n.rounded?.isNone

/-- Whether a number with a point or an exponent is written well. -/
def isReal (cs : List Char) : Bool :=
  let body := (sign cs).2
  if body == ['i', 'n', 'f'] || body == ['n', 'a', 'n'] then true
  else if isTooGreat cs then false
  else
    let isMark := fun c => c == 'e' || c == 'E'
    let mantissa := body.takeWhile (!isMark ·)
    let exponent := body.dropWhile (!isMark ·)
    let whole := mantissa.takeWhile (· != '.')
    let fraction := mantissa.dropWhile (· != '.')
    (decimal? whole).isSome && !(fraction.isEmpty && exponent.isEmpty) &&
      (fraction.isEmpty || (digits? Char.isDigit fraction.tail).isSome) &&
      (exponent.isEmpty || isExponent exponent.tail)

/-! ## dates -/

/-- A number of two digits. -/
def pair? : List Char → Option (Nat × List Char)
  | a :: b :: rest => if a.isDigit && b.isDigit then some (Text.value [a, b], rest) else none
  | _ => none

/-- The text after an expected character. -/
def expect? (c : Char) : List Char → Option (List Char)
  | d :: rest => if d == c then some rest else none
  | [] => none

/-- The text after a date. -/
def afterDate? (cs : List Char) : Option (List Char) := do
  let (century, cs) ← pair? cs
  let (year, cs) ← pair? cs
  let (month, cs) ← pair? (← expect? '-' cs)
  let (day, cs) ← pair? (← expect? '-' cs)
  if (Date.mk (100 * century + year) month day).isValid then some cs else none

/-- The text after the fraction of a second, if one begins here. -/
def afterFraction? : List Char → Option (List Char)
  | '.' :: cs =>
    if (cs.takeWhile Char.isDigit).isEmpty then none else some (cs.dropWhile Char.isDigit)
  | cs => some cs

/-- The text after a time of day. -/
def afterTime? (cs : List Char) : Option (List Char) := do
  let (hour, cs) ← pair? cs
  let (minute, cs) ← pair? (← expect? ':' cs)
  let (second, cs) ← pair? (← expect? ':' cs)
  if hour < 24 ∧ minute < 60 ∧ second ≤ 60 then afterFraction? cs else none

/-- The text after an offset from universal time, if one begins here. -/
def afterOffset? : List Char → Option (List Char)
  | [] => some []
  | c :: cs =>
    if c == 'Z' || c == 'z' then some cs
    else if c == '+' || c == '-' then do
      let (hour, cs) ← pair? cs
      let (minute, cs) ← pair? (← expect? ':' cs)
      if hour < 24 ∧ minute < 60 then some cs else none
    else none

/-- Whether a text is a date, a time, or both with a mark between them. -/
def isMoment (cs : List Char) : Bool :=
  match afterDate? cs with
  | some [] => true
  | some (mark :: rest) =>
    (mark == 'T' || mark == 't' || mark == ' ') &&
      (((afterTime? rest).bind afterOffset?) == some [])
  | none => afterTime? cs == some []

/-! ## words -/

/-- Characters of numbers, dates and the words for truth. -/
def isWordChar (c : Char) : Bool :=
  c.isAlphanum || c == '+' || c == '-' || c == '_' || c == '.' || c == ':'

/-- The value that a word stands for. -/
def word (cs : List Char) : Option Document :=
  if cs == ['t', 'r', 'u', 'e'] then some (.bool true)
  else if cs == ['f', 'a', 'l', 's', 'e'] then some (.bool false)
  else match integer? cs with
    | some n => some (.integer n)
    | none => if isReal cs then some .real else if isMoment cs then some .moment else none

/-- A value without quotes. After a date one space may come before a time. -/
def scalarValue? (cs : List Char) : Option (Document × List Char) :=
  let first := cs.takeWhile isWordChar
  let rest := cs.dropWhile isWordChar
  match rest with
  | ' ' :: c :: more =>
    if c.isDigit && afterDate? first == some [] then
      let time := (c :: more).takeWhile isWordChar
      (word (first ++ ' ' :: time)).map fun d => (d, (c :: more).dropWhile isWordChar)
    else (word first).map fun d => (d, rest)
  | _ => (word first).map fun d => (d, rest)

end Switchboard.Toml
