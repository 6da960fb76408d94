import Descent.Decimal.Style
import Descent.Json.Basic

namespace Descent.Json

/-- Whole numbers keep a point, and small or large numbers have an exponent; a tie goes to the even
digit. -/
def floatStyle : Decimal.Style := ⟨.even, fun e => -5 ≤ e && e ≤ 15, true, true⟩

def floatChars (x : Float) : List Char :=
  match Decimal.Exact.ofFloat x with
  | .finite negative m q => floatStyle.write negative m q
  | _ => "null".toList

/-- One character inside a string. -/
def escapeChar (c : Char) : List Char :=
  if c = '"' ∨ c = '\\' then ['\\', c]
  else if c = '\x08' then ['\\', 'b']
  else if c = '\x0c' then ['\\', 'f']
  else if c = '\n' then ['\\', 'n']
  else if c = '\r' then ['\\', 'r']
  else if c = '\t' then ['\\', 't']
  else if c.toNat < 32 then
    '\\' :: 'u' :: '0' :: '0' :: Nat.digitChar (c.toNat/16) :: [Nat.digitChar (c.toNat%16)]
  else [c]

def stringChars (s : String) : List Char := '"' :: s.toList.flatMap escapeChar ++ ['"']

mutual

def compactChars : Json → List Char
  | .null => "null".toList
  | .bool b => (if b then "true" else "false").toList
  | .int n => Decimal.integer n
  | .float x => floatChars x
  | .string s => stringChars s
  | .array [] => ['[', ']']
  | .array (j :: js) => '[' :: j.compactChars ++ compactItems js ++ [']']
  | .object [] => ['\x7b', '\x7d']
  | .object ((k, j) :: ms) =>
    '\x7b' :: stringChars k ++ ':' :: j.compactChars ++ compactMembers ms ++ ['\x7d']

def compactItems : List Json → List Char
  | [] => []
  | j :: js => ',' :: j.compactChars ++ compactItems js

def compactMembers : List (String × Json) → List Char
  | [] => []
  | (k, j) :: ms => ',' :: stringChars k ++ ':' :: j.compactChars ++ compactMembers ms

end

/-- A new line, two blanks deep for each level. -/
def newLine (level : Nat) : List Char := '\n' :: List.replicate (2*level) ' '

mutual

def prettyChars (level : Nat) : Json → List Char
  | .array (j :: js) =>
    '[' :: newLine (level+1) ++ j.prettyChars (level+1) ++ prettyItems (level+1) js
      ++ newLine level ++ [']']
  | .object ((k, j) :: ms) =>
    '\x7b' :: newLine (level+1) ++ stringChars k ++ ':' :: ' ' :: j.prettyChars (level+1)
      ++ prettyMembers (level+1) ms ++ newLine level ++ ['\x7d']
  | .array [] => ['[', ']']
  | .object [] => ['\x7b', '\x7d']
  | .null => compactChars .null
  | .bool b => compactChars (.bool b)
  | .int n => compactChars (.int n)
  | .float x => compactChars (.float x)
  | .string s => compactChars (.string s)

def prettyItems (level : Nat) : List Json → List Char
  | [] => []
  | j :: js => ',' :: newLine level ++ j.prettyChars level ++ prettyItems level js

def prettyMembers (level : Nat) : List (String × Json) → List Char
  | [] => []
  | (k, j) :: ms =>
    ',' :: newLine level ++ stringChars k ++ ':' :: ' ' :: j.prettyChars level ++
      prettyMembers level ms

end

/-- The document on one line, without blanks. -/
def compact (j : Json) : String := String.ofList j.compactChars

/-- The document with one item or member a line. -/
def pretty (j : Json) : String := String.ofList (j.prettyChars 0)

end Descent.Json
