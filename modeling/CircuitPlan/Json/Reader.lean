import CircuitPlan.Json

/-!
# Reading JSON

The strict grammar: blanks are space, tab, line feed and carriage return; there are no comments,
no trailing commas and no text after the value.
-/

namespace CircuitPlan.Json

def isBlank (c : Char) : Bool := c == ' ' || c == '\t' || c == '\n' || c == '\r'

def skipBlanks (cs : List Char) : List Char := cs.dropWhile isBlank

def hexDigit? (c : Char) : Option Nat :=
  if c.isDigit then some (c.toNat - '0'.toNat)
  else if 'a' ≤ c ∧ c ≤ 'f' then some (c.toNat - 'a'.toNat + 10)
  else if 'A' ≤ c ∧ c ≤ 'F' then some (c.toNat - 'A'.toNat + 10)
  else none

def hexWord? (a b c d : Char) : Option Nat := do
  return 4096 * (← hexDigit? a) + 256 * (← hexDigit? b) + 16 * (← hexDigit? c) + (← hexDigit? d)

def escape? (c : Char) : Option Nat :=
  match c with
  | '"' => some 0x22
  | '\\' => some 0x5c
  | '/' => some 0x2f
  | 'b' => some 0x08
  | 'f' => some 0x0c
  | 'n' => some 0x0a
  | 'r' => some 0x0d
  | 't' => some 0x09
  | _ => none

def units? : List Char → Option (List Nat × List Char)
  | [] => none
  | '"' :: rest => some ([], rest)
  | '\\' :: 'u' :: a :: b :: c :: d :: rest => do
      let unit ← hexWord? a b c d
      let (units, rest) ← units? rest
      return (unit :: units, rest)
  | '\\' :: c :: rest => do
      let unit ← escape? c
      let (units, rest) ← units? rest
      return (unit :: units, rest)
  | c :: rest => do
      if c.toNat < 0x20 || c == '\\' then none
      else
        let (units, rest) ← units? rest
        return (c.toNat :: units, rest)

def joinSurrogates : List Nat → List Nat
  | high :: low :: rest =>
      if 0xd800 ≤ high ∧ high < 0xdc00 ∧ 0xdc00 ≤ low ∧ low < 0xe000 then
        (0x10000 + 0x400 * (high - 0xd800) + (low - 0xdc00)) :: joinSurrogates rest
      else high :: joinSurrogates (low :: rest)
  | units => units

def text? (cs : List Char) : Option (List Nat × List Char) :=
  (units? cs).map fun (units, rest) => (joinSurrogates units, rest)

/-- A numeral: no superfluous zero in front, and digits on both sides of a point. -/
def numeral? (cs : List Char) : Option (Decimal.Numeral × List Char) := do
  let (negative, cs) := match cs with
    | '-' :: rest => (true, rest)
    | rest => (false, rest)
  let (whole, cs) ← match Decimal.leadingDigits cs with
    | ([], _) => none
    | (0 :: _ :: _, _) => none
    | found => some found
  let (fraction, cs) ← match cs with
    | '.' :: rest =>
        match Decimal.leadingDigits rest with
        | ([], _) => none
        | (digits, rest) => some (some digits, rest)
    | rest => some (none, rest)
  let (exponent, cs) ← Decimal.readExponent cs
  return (⟨negative, whole, fraction, exponent⟩, cs)

mutual

/-- A value and the text after it. The first argument bounds the number of nested calls. -/
def value? : Nat → List Char → Option (Json × List Char)
  | 0, _ => none
  | fuel + 1, cs =>
      match skipBlanks cs with
      | 'n' :: 'u' :: 'l' :: 'l' :: rest => some (.null, rest)
      | 't' :: 'r' :: 'u' :: 'e' :: rest => some (.bool true, rest)
      | 'f' :: 'a' :: 'l' :: 's' :: 'e' :: rest => some (.bool false, rest)
      | '"' :: rest => (text? rest).map fun (points, rest) => (.text points, rest)
      | '[' :: rest =>
          match skipBlanks rest with
          | ']' :: rest => some (.array [], rest)
          | rest => (items? fuel rest).map fun (items, rest) => (.array items, rest)
      | '\x7b' :: rest =>
          match skipBlanks rest with
          | '\x7d' :: rest => some (.object [], rest)
          | rest => (members? fuel rest).map fun (members, rest) => (.object members, rest)
      | rest => (numeral? rest).map fun (numeral, rest) => (.number numeral, rest)

def items? : Nat → List Char → Option (List Json × List Char)
  | 0, _ => none
  | fuel + 1, cs => do
      let (item, rest) ← value? fuel cs
      match skipBlanks rest with
      | ',' :: rest =>
          let (items, rest) ← items? fuel rest
          return (item :: items, rest)
      | ']' :: rest => return ([item], rest)
      | _ => none

def members? : Nat → List Char → Option (List (List Nat × Json) × List Char)
  | 0, _ => none
  | fuel + 1, cs => do
      let (name, rest) ← match skipBlanks cs with
        | '"' :: rest => text? rest
        | _ => none
      let (value, rest) ← match skipBlanks rest with
        | ':' :: rest => value? fuel rest
        | _ => none
      match skipBlanks rest with
      | ',' :: rest =>
          let (members, rest) ← members? fuel rest
          return ((name, value) :: members, rest)
      | '\x7d' :: rest => return ([(name, value)], rest)
      | _ => none

end

/-- The value written by a whole text. A nested call reads at least every second time a character,
so the bound is never met. -/
def ofText? (text : String) : Option Json := do
  let cs := text.toList
  let (value, rest) ← value? (2 * cs.length + 2) cs
  if skipBlanks rest = [] then return value else none

end CircuitPlan.Json
