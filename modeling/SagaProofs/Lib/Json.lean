/-
JSON values as a dynamically typed program sees them: truth, property access, the pair of
functions that read and write them, and the grammar of ECMA-404 as one such pair.
-/
import Mathlib.Algebra.Ring.Int.Defs
import Mathlib.Data.List.Basic
import Mathlib.Data.String.Basic

/-- A JSON value; the number `mantissa / 10 ^ scale` keeps its exact decimal value. -/
inductive Json
  | null
  | bool (b : Bool)
  | num (mantissa : ℤ) (scale : ℕ)
  | str (s : String)
  | arr (items : List Json)
  | obj (fields : List (String × Json))

/-- `JSON.parse`, `none` where it throws, and `JSON.stringify`. -/
structure JSON where
  parse : String → Option Json
  stringify : Json → String

namespace Json

/-- The truth of a value: `null`, `false`, zero and the empty string are false. -/
def truthy : Json → Bool
  | .null => false
  | .bool b => b
  | .num mantissa _ => mantissa ≠ 0
  | .str s => s ≠ ""
  | .arr _ => true
  | .obj _ => true

/-- The value of an own field of an object. -/
def field : Json → String → Option Json
  | .obj fields, name => fields.lookup name
  | _, _ => none

/-- `value.name`: `none` where the access throws (on `null`), `some none` for `undefined`. -/
def get : Json → String → Option (Option Json)
  | .null, _ => none
  | value, name => some (value.field name)

/-! ## Reading -/

/-- A reader of the front of a text: what it read and the rest. -/
abbrev Reader (α : Type) := List Char → Option (α × List Char)

def skipSpace (cs : List Char) : List Char := cs.dropWhile (· ∈ [' ', '\t', '\n', '\r'])

/-- The rest of the text after a token and the white space around it. -/
def expect (c : Char) (cs : List Char) : Option (List Char) :=
  match skipSpace cs with
  | d :: rest => if c = d then some rest else none
  | [] => none

def hexValue (c : Char) : Option ℕ :=
  if c.isDigit then some (c.toNat - 48)
  else if 'a' ≤ c ∧ c ≤ 'f' then some (c.toNat - 87)
  else if 'A' ≤ c ∧ c ≤ 'F' then some (c.toNat - 55)
  else none

def hex4 (a b c d : Char) : Option ℕ := do
  let a ← hexValue a
  let b ← hexValue b
  let c ← hexValue c
  let d ← hexValue d
  return ((a * 16 + b) * 16 + c) * 16 + d

def simpleEscape : Char → Option Char
  | '"' => some '"'
  | '\\' => some '\\'
  | '/' => some '/'
  | 'b' => some '\x08'
  | 'f' => some '\x0c'
  | 'n' => some '\n'
  | 'r' => some '\r'
  | 't' => some '\t'
  | _ => none

/-- The characters of a string up to its closing quote. -/
def readChars : ℕ → Reader (List Char)
  | 0, _ => none
  | _ + 1, [] => none
  | _ + 1, '"' :: rest => some ([], rest)
  | n + 1, '\\' :: 'u' :: a :: b :: c :: d :: rest => do
    let hi ← hex4 a b c d
    match rest with
    | '\\' :: 'u' :: a' :: b' :: c' :: d' :: rest' =>
      match hex4 a' b' c' d' with
      | some lo =>
        if 0xD800 ≤ hi ∧ hi < 0xDC00 ∧ 0xDC00 ≤ lo ∧ lo < 0xE000 then
          let (s, tail) ← readChars n rest'
          return (Char.ofNat (0x10000 + (hi - 0xD800) * 0x400 + (lo - 0xDC00)) :: s, tail)
        else
          let (s, tail) ← readChars n rest
          return (Char.ofNat hi :: s, tail)
      | none => none
    | _ =>
      let (s, tail) ← readChars n rest
      return (Char.ofNat hi :: s, tail)
  | n + 1, '\\' :: e :: rest => do
    let c ← simpleEscape e
    let (s, tail) ← readChars n rest
    return (c :: s, tail)
  | n + 1, c :: rest =>
    if c.toNat < 0x20 then none
    else do
      let (s, tail) ← readChars n rest
      return (c :: s, tail)

def digits (cs : List Char) : List Char × List Char := cs.span Char.isDigit

def decimal (ds : List Char) : ℕ := ds.foldl (fun n c => n * 10 + (c.toNat - 48)) 0

/-- Trailing zeros of a fraction carry no value. -/
def normalize : ℤ → ℕ → Json
  | mantissa, 0 => .num mantissa 0
  | mantissa, scale + 1 => if mantissa % 10 = 0 then normalize (mantissa / 10) scale else .num mantissa (scale + 1)

def readExponent : List Char → Option (ℤ × List Char)
  | c :: rest =>
    if c = 'e' ∨ c = 'E' then
      let (sign, rest) := match rest with
        | '-' :: r => ((-1 : ℤ), r)
        | '+' :: r => (1, r)
        | r => (1, r)
      match digits rest with
      | ([], _) => none
      | (ds, tail) => some (sign * decimal ds, tail)
    else some (0, c :: rest)
  | [] => some (0, [])

/-- A number after its sign. -/
def readNumber (negative : Bool) : Reader Json := fun cs => do
  let (int, rest) := digits cs
  if int = [] ∨ (int.head? = some '0' ∧ int.length ≠ 1) then none
  else
    let (frac, rest) ← match rest with
      | '.' :: r =>
        match digits r with
        | ([], _) => none
        | (ds, tail) => some (ds, tail)
      | r => some ([], r)
    let (e, rest) ← readExponent rest
    let mantissa : ℤ := (if negative then -1 else 1) * decimal (int ++ frac)
    let scale : ℤ := frac.length - e
    return (if 0 ≤ scale then normalize mantissa scale.toNat else normalize (mantissa * 10 ^ (-scale).toNat) 0, rest)

def readItems (value : Reader Json) : ℕ → Reader (List Json)
  | 0, _ => none
  | n + 1, cs => do
    let (v, rest) ← value cs
    match skipSpace rest with
    | ',' :: rest =>
      let (vs, tail) ← readItems value n rest
      return (v :: vs, tail)
    | ']' :: rest => return ([v], rest)
    | _ => none

/-- A member before the others: of two with one name the later counts, at the place of the earlier. -/
def insertField (name : String) (v : Json) (fields : List (String × Json)) : List (String × Json) :=
  match fields.lookup name with
  | some w => (name, w) :: fields.filter (·.1 ≠ name)
  | none => (name, v) :: fields

def readMembers (value : Reader Json) : ℕ → Reader (List (String × Json))
  | 0, _ => none
  | n + 1, cs => do
    let rest ← expect '"' cs
    let (name, rest) ← readChars rest.length rest
    let rest ← expect ':' rest
    let (v, rest) ← value rest
    match skipSpace rest with
    | ',' :: rest =>
      let (fields, tail) ← readMembers value n rest
      return (insertField (String.ofList name) v fields, tail)
    | '}' :: rest => return ([(String.ofList name, v)], rest)
    | _ => none

/-- A value nested at most `n` deep. -/
def readValue : ℕ → Reader Json
  | 0, _ => none
  | n + 1, cs =>
    match skipSpace cs with
    | 'n' :: 'u' :: 'l' :: 'l' :: rest => some (.null, rest)
    | 't' :: 'r' :: 'u' :: 'e' :: rest => some (.bool true, rest)
    | 'f' :: 'a' :: 'l' :: 's' :: 'e' :: rest => some (.bool false, rest)
    | '"' :: rest => (readChars rest.length rest).map fun p => (.str (String.ofList p.1), p.2)
    | '[' :: rest =>
      match skipSpace rest with
      | ']' :: tail => some (.arr [], tail)
      | _ => (readItems (readValue n) rest.length rest).map fun p => (.arr p.1, p.2)
    | '{' :: rest =>
      match skipSpace rest with
      | '}' :: tail => some (.obj [], tail)
      | _ => (readMembers (readValue n) rest.length rest).map fun p => (.obj p.1, p.2)
    | '-' :: rest => readNumber true rest
    | rest => readNumber false rest

/-- A text that is one value and white space. -/
def read (text : String) : Option Json :=
  match readValue (text.toList.length + 1) text.toList with
  | some (v, rest) => if skipSpace rest = [] then some v else none
  | none => none

/-! ## Writing -/

def hexChar (n : ℕ) : Char := if n < 10 then Char.ofNat (48 + n) else Char.ofNat (87 + n)

def writeChar (c : Char) : List Char :=
  if c = '"' then ['\\', '"']
  else if c = '\\' then ['\\', '\\']
  else if c = '\x08' then ['\\', 'b']
  else if c = '\x0c' then ['\\', 'f']
  else if c = '\n' then ['\\', 'n']
  else if c = '\r' then ['\\', 'r']
  else if c = '\t' then ['\\', 't']
  else if c.toNat < 0x20 then ['\\', 'u', '0', '0', hexChar (c.toNat / 16), hexChar (c.toNat % 16)]
  else [c]

def writeString (s : String) : List Char := '"' :: s.toList.flatMap writeChar ++ ['"']

/-- The digits of `mantissa / 10 ^ scale` with a point before the last `scale` of them. -/
def writeNumber (mantissa : ℤ) (scale : ℕ) : List Char :=
  let ds := (Nat.toDigits 10 mantissa.natAbs)
  let ds := List.replicate (scale + 1 - ds.length) '0' ++ ds
  (if mantissa < 0 then ['-'] else []) ++ ds.take (ds.length - scale) ++
    (if scale = 0 then [] else '.' :: ds.drop (ds.length - scale))

mutual

def write : Json → List Char
  | .null => "null".toList
  | .bool true => "true".toList
  | .bool false => "false".toList
  | .num mantissa scale => writeNumber mantissa scale
  | .str s => writeString s
  | .arr items => '[' :: writeItems items ++ [']']
  | .obj fields => '{' :: writeFields fields ++ ['}']

def writeItems : List Json → List Char
  | [] => []
  | [v] => write v
  | v :: w :: vs => write v ++ ',' :: writeItems (w :: vs)

def writeFields : List (String × Json) → List Char
  | [] => []
  | [(name, v)] => writeString name ++ ':' :: write v
  | (name, v) :: f :: fs => writeString name ++ ':' :: write v ++ ',' :: writeFields (f :: fs)

end

end Json

/-- The JSON grammar of ECMA-404, read without bounds on numbers and written without white space. -/
def JSON.ecma404 : JSON := ⟨Json.read, fun v => String.ofList v.write⟩
