import Cosy.Lib.ByteMemory

/-!
# Common definitions

The types and the text helpers of `common.hpp`. Command lines and location specifications are lists
of characters; what the debugger prints is kept as structured messages instead (`Cosy.State`).
-/

namespace Cosy

open ByteMemory

abbrev Address : Type := BitVec 64

abbrev Byte : Type := BitVec 8

/-- A thread or process number, a C++ `pid_t`. -/
abbrev Tid : Type := Int

abbrev Text : Type := List Char

/-- `std::isspace` in the C locale. -/
def isSpace (ch : Char) : Bool :=
  ch = ' ' || ch = '\t' || ch = '\n' || ch = Char.ofNat 11 || ch = Char.ofNat 12 || ch = '\r'

def isTrimmed (ch : Char) : Bool := ch = ' ' || ch = '\t' || ch = '\r' || ch = '\n'

def trim (value : Text) : Text :=
  ((value.dropWhile isTrimmed).reverse.dropWhile isTrimmed).reverse

def singleQuote : Char := Char.ofNat 39

def doubleQuote : Char := Char.ofNat 34

/-- The loop of `words`: `current` is the word read so far and `quote` the quote that is open. -/
def wordsFrom (current : Text) (quote : Option Char) : Text → List Text
  | [] => if current = [] then [] else [current]
  | ch :: rest =>
      if (ch = singleQuote || ch = doubleQuote) && (quote = none || quote = some ch) then
        if quote = none then wordsFrom current (some ch) rest
        else wordsFrom current none rest
      else if isSpace ch && quote = none then
        if current = [] then wordsFrom [] quote rest
        else current :: wordsFrom [] quote rest
      else
        wordsFrom (current ++ [ch]) quote rest

def words (value : Text) : List Text := wordsFrom [] none value

/-- The value of a digit as `std::from_chars` reads it, either case. -/
def digitValue (base : Nat) (ch : Char) : Option Nat :=
  let code := ch.toNat
  let value :=
    if 48 ≤ code && code ≤ 57 then code - 48
    else if 97 ≤ code && code ≤ 122 then code - 97 + 10
    else if 65 ≤ code && code ≤ 90 then code - 65 + 10
    else base
  if value < base then some value else none

def numeral (base : Nat) (digits : List Nat) : Nat :=
  digits.foldl (fun value digit => value * base + digit) 0

/-- The digits at the front of a text and what follows them. -/
def leadingDigits (base : Nat) : Text → List Nat × Text
  | [] => ([], [])
  | ch :: rest =>
      match digitValue base ch with
      | some digit => (digit :: (leadingDigits base rest).1, (leadingDigits base rest).2)
      | none => ([], ch :: rest)

/-- `std::from_chars` for an unsigned 64-bit value: no sign, no blanks, no prefix. -/
def fromChars (base : Nat) (text : Text) : Option (Address × Text) :=
  let (digits, rest) := leadingDigits base text
  if digits = [] then none
  else if numeral base digits < 2 ^ 64 then some (BitVec.ofNat 64 (numeral base digits), rest)
  else none

def parseAddress (text : Text) : Option Address :=
  let (base, digits) :=
    match text with
    | '0' :: 'x' :: rest => (16, rest)
    | '0' :: 'X' :: rest => (16, rest)
    | _ => (10, text)
  match fromChars base digits with
  | some (value, []) => some value
  | _ => none

def hexDigits : List Char :=
  ['0', '1', '2', '3', '4', '5', '6', '7', '8', '9', 'a', 'b', 'c', 'd', 'e', 'f']

/-- The loop of `hex` over the `n` lowest nibbles. -/
def hexFrom (value : Address) (began : Bool) : Nat → Text
  | 0 => []
  | n + 1 =>
      let nibble := ((value >>> (4 * n)) &&& 0xf#64).toNat
      if nibble ≠ 0 || began || n = 0 then hexDigits.getD nibble '0' :: hexFrom value true n
      else hexFrom value began n

def hex (value : Address) : Text := '0' :: 'x' :: hexFrom value false 16

/-- `std::stoi`: leading blanks, an optional sign, then digits; what follows them is ignored. The
result is `none` where the C++ function throws. -/
def stoi (text : Text) : Option Int :=
  let (negative, rest) :=
    match text.dropWhile isSpace with
    | '-' :: rest => (true, rest)
    | '+' :: rest => (false, rest)
    | rest => (false, rest)
  let digits := (leadingDigits 10 rest).1
  if digits = [] then none
  else
    let value : Int := if negative then -(numeral 10 digits : Int) else numeral 10 digits
    if -(2 ^ 31) ≤ value && value < 2 ^ 31 then some value else none

example : parseAddress ['0', 'X', 'f', 'F'] = some 255#64 := by decide

example : hex 4096#64 = ['0', 'x', '1', '0', '0', '0'] := by decide

end Cosy
