import Dataflow.Json

/-!
# Reading JSON text

Reading never fails: it gives a *draft*, the value as far as the text is JSON, with `broken` where
it stops being so.  Whoever reads a draft from front to back therefore meets the same things in the
same order as one who reads the text: what comes before the break can still be judged on its own.

Some texts are JSON and yet stand for no value: a number too large, or a string with half of a
surrogate pair.  In a draft they are `unreadable`, which matters only to a reader who wants the
value.
-/

namespace Dataflow

namespace Json

/-- A JSON value as far as its text could be read. -/
inductive Draft where
  | null
  | bool (b : Bool)
  | number (n : Number)
  | string (s : String)
  | array (items : List Draft)
  /-- The members as written; a name is missing if it has no value or if the text broke there. -/
  | object (members : List (Option String × Draft))
  /-- Well written, but without a value. -/
  | unreadable
  /-- The text stops being JSON here. -/
  | broken

namespace Draft

/-! ## Blanks, words and digits -/

/-- Blanks between the parts of a text. -/
def isBlank (c : Char) : Bool := c == ' ' || c == '\n' || c == '\t' || c == '\r'

/-- The text after its blanks. -/
def skipBlanks (cs : List Char) : List Char := cs.dropWhile isBlank

/-- The value of a decimal digit. -/
def digit (c : Char) : Nat := c.toNat - 48

/-- The digits that a text starts with, and the rest. -/
def takeDigits (cs : List Char) : List Nat × List Char :=
  ((cs.takeWhile Char.isDigit).map digit, cs.dropWhile Char.isDigit)

/-- The value of a hexadecimal digit. -/
def hexDigit? (c : Char) : Option Nat :=
  if c.isDigit then some (c.toNat - 48)
  else if 'a' ≤ c && c ≤ 'f' then some (c.toNat - 87)
  else if 'A' ≤ c && c ≤ 'F' then some (c.toNat - 55)
  else none

/-! ## Numbers -/

/-- The whole part: no digit, or a leading zero before another digit, is a mistake. -/
def readWhole? (cs : List Char) : Option (List Nat × List Char) :=
  match takeDigits cs with
  | ([], _) => none
  | (0 :: _ :: _, _) => none
  | (ds, rest) => some (ds, rest)

/-- The fraction, if there is a point; at least one digit has to follow it. -/
def readFraction? (cs : List Char) : Option (Option (List Nat) × List Char) :=
  match cs with
  | '.' :: rest =>
    match takeDigits rest with
    | ([], _) => none
    | (ds, rest) => some (some ds, rest)
  | _ => some (none, cs)

/-- The sign of an exponent: whether it is negative. -/
def readSign (cs : List Char) : Bool × List Char :=
  match cs with
  | '-' :: rest => (true, rest)
  | '+' :: rest => (false, rest)
  | _ => (false, cs)

/-- The exponent, if there is a mark; at least one digit has to follow it and its sign. -/
def readExponent? (cs : List Char) : Option (Option (Bool × List Nat) × List Char) :=
  match cs with
  | c :: rest =>
    if c = 'e' || c = 'E' then
      let (negative, rest) := readSign rest
      match takeDigits rest with
      | ([], _) => none
      | (ds, rest) => some (some (negative, ds), rest)
    else some (none, cs)
  | [] => some (none, cs)

/-- A number. -/
def readNumber? (cs : List Char) : Option (Draft × List Char) := do
  let (negative, cs) := match cs with
    | '-' :: rest => (true, rest)
    | _ => (false, cs)
  let (whole, cs) ← readWhole? cs
  let (fraction, cs) ← readFraction? cs
  let (exponent, cs) ← readExponent? cs
  match Number.ofParts? ⟨negative, whole, fraction, exponent⟩ with
  | some n => return (.number n, cs)
  | none => return (.unreadable, cs)

/-! ## Strings -/

/-- The code point of an escape of one letter. -/
def escape? : Char → Option Nat
  | '"' => some 0x22
  | '\\' => some 0x5c
  | '/' => some 0x2f
  | 'b' => some 0x08
  | 'f' => some 0x0c
  | 'n' => some 0x0a
  | 'r' => some 0x0d
  | 't' => some 0x09
  | _ => none

/-- The code points and halves of surrogate pairs up to the closing quote, and the text after it;
`none` if the string does not end, or holds a control or an escape that there is not. -/
def readUnits? (units : List Nat) : List Char → Option (List Nat × List Char)
  | [] => none
  | '"' :: rest => some (units.reverse, rest)
  | '\\' :: 'u' :: a :: b :: c :: d :: rest =>
    match hexDigit? a, hexDigit? b, hexDigit? c, hexDigit? d with
    | some a, some b, some c, some d =>
      readUnits? ((((a * 16 + b) * 16 + c) * 16 + d) :: units) rest
    | _, _, _, _ => none
  | '\\' :: c :: rest =>
    match escape? c with
    | some n => readUnits? (n :: units) rest
    | none => none
  | c :: rest => if c.toNat < 0x20 || c = '\\' then none else readUnits? (c.toNat :: units) rest

/-- Whether a unit is the first half of a pair. -/
def isHighHalf (n : Nat) : Bool := 0xd800 ≤ n && n ≤ 0xdbff

/-- Whether a unit is the second half of a pair. -/
def isLowHalf (n : Nat) : Bool := 0xdc00 ≤ n && n ≤ 0xdfff

/-- Joins the halves of pairs; a half that stands alone has no character. -/
def joinUnits? : List Nat → Option (List Char)
  | [] => some []
  | [n] => if isHighHalf n || isLowHalf n then none else some [Char.ofNat n]
  | n :: m :: rest =>
    if isHighHalf n && isLowHalf m then
      (joinUnits? rest).map (Char.ofNat ((n - 0xd800) * 0x400 + (m - 0xdc00) + 0x10000) :: ·)
    else if isHighHalf n || isLowHalf n then none
    else (joinUnits? (m :: rest)).map (Char.ofNat n :: ·)

/-- The string after an opening quote: its value, if it has one, and the text after it. -/
def readString? (cs : List Char) : Option (Option String × List Char) :=
  (readUnits? [] cs).map fun (units, rest) => ((joinUnits? units).map String.ofList, rest)

/-! ## Values

A reader answers the draft and the rest of the text, which is missing if the text broke.  Each call
takes at least one character or ends, so the length of the text bounds the depth of calls. -/

/-- What a word has to be, and the text after it. -/
def afterWord? (word cs : List Char) : Option (List Char) :=
  if word.isPrefixOf cs then some (cs.drop word.length) else none

/-- A draft that ends where a word does. -/
def wordDraft (word : String) (value : Draft) (cs : List Char) : Draft × Option (List Char) :=
  match afterWord? word.toList cs with
  | some rest => (value, some rest)
  | none => (.broken, none)

/-- The text after the comma that has to stand between two items. -/
def afterComma? (first : Bool) (cs : List Char) : Option (List Char) :=
  if first then some cs
  else match cs with
    | ',' :: rest => some rest
    | _ => none

mutual

/-- A value. -/
def readValue (fuel : Nat) (cs : List Char) : Draft × Option (List Char) :=
  match fuel with
  | 0 => (.broken, none)
  | fuel + 1 =>
    match skipBlanks cs with
    | [] => (.broken, none)
    | '"' :: rest =>
      match readString? rest with
      | some (some s, rest) => (.string s, some rest)
      | some (none, rest) => (.unreadable, some rest)
      | none => (.broken, none)
    | '[' :: rest =>
      let (items, rest) := readItems fuel true rest
      (.array items, rest)
    | '\x7b' :: rest =>
      let (members, rest) := readMembers fuel true rest
      (.object members, rest)
    | 'n' :: rest => wordDraft "ull" .null rest
    | 't' :: rest => wordDraft "rue" (.bool true) rest
    | 'f' :: rest => wordDraft "alse" (.bool false) rest
    | cs =>
      match readNumber? cs with
      | some (draft, rest) => (draft, some rest)
      | none => (.broken, none)

/-- The items of an array up to its end; `first` says that no comma is due. -/
def readItems (fuel : Nat) (first : Bool) (cs : List Char) : List Draft × Option (List Char) :=
  match fuel with
  | 0 => ([.broken], none)
  | fuel + 1 =>
    match skipBlanks cs with
    | ']' :: rest => ([], some rest)
    | cs =>
      match afterComma? first cs with
      | none => ([.broken], none)
      | some cs =>
        match readValue fuel cs with
        | (item, none) => ([item], none)
        | (item, some rest) =>
          let (items, rest) := readItems fuel false rest
          (item :: items, rest)

/-- The members of an object up to its end; `first` says that no comma is due. -/
def readMembers (fuel : Nat) (first : Bool) (cs : List Char) :
    List (Option String × Draft) × Option (List Char) :=
  match fuel with
  | 0 => ([(none, .broken)], none)
  | fuel + 1 =>
    match skipBlanks cs with
    | '\x7d' :: rest => ([], some rest)
    | cs =>
      match (afterComma? first cs).map skipBlanks with
      | some ('"' :: rest) =>
        match readString? rest with
        | none => ([(none, .broken)], none)
        | some (name, rest) =>
          match skipBlanks rest with
          | ':' :: rest =>
            match readValue fuel rest with
            | (value, none) => ([(name, value)], none)
            | (value, some rest) =>
              let (members, rest) := readMembers fuel false rest
              ((name, value) :: members, rest)
          | _ => ([(name, .broken)], none)
      | _ => ([(none, .broken)], none)

end

/-- The draft of a text, and whether the text is one JSON value and nothing more. -/
def ofText (text : String) : Draft × Bool :=
  let cs := text.toList
  let (draft, rest) := readValue (2 * cs.length + 4) cs
  match rest with
  | some rest => (draft, (skipBlanks rest).isEmpty)
  | none => (draft, false)

/-- The outside of a draft, unless it has no value. -/
def view? : Draft → Option (View Draft)
  | .null => some .null
  | .bool b => some (.bool b)
  | .number n => some (.number n)
  | .string s => some (.string s)
  | .array items => some (.array items)
  | .object _ => some .object
  | .unreadable => none
  | .broken => none

mutual

/-- The value of a draft that has one throughout. -/
def toJson? : Draft → Option Json
  | .null => some .null
  | .bool b => some (.bool b)
  | .number n => some (.number n)
  | .string s => some (.string s)
  | .array items => (itemsToJson? items).map .array
  | .object members => (membersToJson? members).map .object
  | .unreadable => none
  | .broken => none

/-- The values of the items. -/
def itemsToJson? : List Draft → Option (List Json)
  | [] => some []
  | item :: rest => do
    let item ← item.toJson?
    return item :: (← itemsToJson? rest)

/-- The names and values of the members. -/
def membersToJson? : List (Option String × Draft) → Option (List (String × Json))
  | [] => some []
  | (name, value) :: rest => do
    let name ← name
    let value ← value.toJson?
    return (name, value) :: (← membersToJson? rest)

end

end Draft

/-- The value of a text that is JSON. -/
def ofText? (text : String) : Option Json :=
  match Draft.ofText text with
  | (draft, true) => draft.toJson?
  | (_, false) => none

end Json

end Dataflow
