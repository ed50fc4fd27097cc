import Treewalk.Json.Basic
import Treewalk.Number.Decimal

/-! Reading JSON text, given as bytes.

Every function takes the bytes not yet read and gives back what is left. When reading stops, `Stop` says
how many bytes were left then; `Stop.toError` turns that into a line and a column. A string is read as
bytes first and has to be UTF-8 as a whole. Nesting is not limited: `readValue` and its two companions
recurse on a bound that `readText` takes from the length of the text: three steps for each byte. -/
namespace Treewalk.Json

inductive Complaint where
  | endInValue
  | endInList
  | endInObject
  | endInString
  | expectedValue
  | expectedWord
  | invalidNumber
  | numberOutOfRange
  | controlCharacter
  | invalidEscape
  | loneSurrogate
  | brokenSurrogatePair
  | invalidUnicode
  | expectedListSeparator
  | expectedObjectSeparator
  | expectedColon
  | trailingComma
  | keyNotString
  | trailingCharacters
deriving DecidableEq, Repr

def Complaint.text : Complaint → String
  | endInValue => "EOF while parsing a value"
  | endInList => "EOF while parsing a list"
  | endInObject => "EOF while parsing an object"
  | endInString => "EOF while parsing a string"
  | expectedValue => "expected value"
  | expectedWord => "expected ident"
  | invalidNumber => "invalid number"
  | numberOutOfRange => "number out of range"
  | controlCharacter => "control character (\\u0000-\\u001F) found while parsing a string"
  | invalidEscape => "invalid escape"
  | loneSurrogate => "lone leading surrogate in hex escape"
  | brokenSurrogatePair => "unexpected end of hex escape"
  | invalidUnicode => "invalid unicode code point"
  | expectedListSeparator => "expected `,` or `]`"
  | expectedObjectSeparator => "expected `,` or `\x7d`"
  | expectedColon => "expected `:`"
  | trailingComma => "trailing comma"
  | keyNotString => "key must be a string"
  | trailingCharacters => "trailing characters"

/-- A complaint and its place in the text. Lines count from one, columns from zero. -/
structure ReadError where
  complaint : Complaint
  line : Nat
  column : Nat
deriving DecidableEq, Repr

def ReadError.message (e : ReadError) : String :=
  e.complaint.text ++ " at line " ++ e.line.repr ++ " column " ++ e.column.repr

/-- Reading stopped with `unread` bytes left; the column is `back` places before that point. -/
structure Stop where
  complaint : Complaint
  unread : Nat
  back : Nat
deriving DecidableEq, Repr

def ascii (c : Char) : UInt8 := c.toUInt8

def Stop.toError (stop : Stop) (text : List UInt8) : ReadError :=
  let done := text.take (text.length - stop.unread)
  { complaint := stop.complaint
    line := 1 + done.count (ascii '\n')
    column := (done.reverse.takeWhile (· != ascii '\n')).length - stop.back }

def stopBefore {α : Type} (complaint : Complaint) (left : List UInt8) : Except Stop α :=
  .error ⟨complaint, left.length, 0⟩

/-- Stops behind the next byte, if there is one. -/
def stopAfter {α : Type} (complaint : Complaint) (left : List UInt8) : Except Stop α :=
  .error ⟨complaint, left.length - 1, 0⟩

def isBlank (b : UInt8) : Bool := b == ascii ' ' || b == ascii '\n' || b == ascii '\t' || b == ascii '\r'

def isDigit (b : UInt8) : Bool := decide (ascii '0' ≤ b) && decide (b ≤ ascii '9')

def skipBlanks (s : List UInt8) : List UInt8 := s.dropWhile isBlank

def readWord (value : Json) : List Char → List UInt8 → Except Stop (Json × List UInt8)
  | [], s => .ok (value, s)
  | _ :: _, [] => stopBefore .endInValue []
  | c :: letters, b :: s => if b = ascii c then readWord value letters s else stopBefore .expectedWord s

section Numbers

def digitValue (b : UInt8) : Nat := b.toNat - 48

def ofDigits (digits : List UInt8) : Nat := digits.foldl (fun n b => 10 * n + digitValue b) 0

/-- The digits behind the one that takes the number past a limit, if any does. -/
def digitsPast (limit : Nat) : Nat → List UInt8 → Option (List UInt8)
  | _, [] => none
  | n, b :: rest =>
      let n := 10 * n + digitValue b
      if limit < n then some rest else digitsPast limit n rest

/-- An exponent beyond this is not computed with. -/
def greatestDecimalExponent : Nat := 2147483647

def finishFloat (d : Number.Decimal) (s : List UInt8) : Except Stop (Json.Number × List UInt8) :=
  match d.toBinary64? with
  | some x => .ok (.float x, s)
  | none => stopBefore .numberOutOfRange s

/-- Reads an exponent behind its letter. One too great to compute with gives zero, unless the number would
be huge. -/
def readExponent (d : Number.Decimal) (s : List UInt8) : Except Stop (Json.Number × List UInt8) :=
  let (down, s) := match s with
    | [] => (false, s)
    | b :: rest => if b = ascii '-' then (true, rest) else if b = ascii '+' then (false, rest) else (false, s)
  match s with
  | [] => stopBefore .endInValue []
  | b :: rest =>
      if isDigit b then
        let written := s.takeWhile isDigit
        let rest := s.dropWhile isDigit
        match digitsPast greatestDecimalExponent 0 written with
        | some unread =>
            if d.significand ≠ 0 && !down then stopBefore .numberOutOfRange (unread ++ rest)
            else .ok (.float (.zero d.negative), rest)
        | none => finishFloat (d.shift (if down then -(ofDigits written : Int) else ofDigits written)) rest
      else stopBefore .invalidNumber rest

def isExponentMark (b : UInt8) : Bool := b == ascii 'e' || b == ascii 'E'

def readFraction (d : Number.Decimal) (s : List UInt8) : Except Stop (Json.Number × List UInt8) :=
  let places := s.takeWhile isDigit
  let rest := s.dropWhile isDigit
  if places.isEmpty then stopAfter (if s.isEmpty then .endInValue else .invalidNumber) s
  else
    let d := d.withPlaces (places.map digitValue)
    match rest with
    | b :: after => if isExponentMark b then readExponent d after else finishFloat d rest
    | [] => finishFloat d rest

/-- A number without point and exponent. It is an integer if it fits into 64 bits, unsigned or negative;
a negative zero is not an integer. -/
def finishInteger (d : Number.Decimal) (s : List UInt8) : Except Stop (Json.Number × List UInt8) :=
  let n := d.significand
  if d.exponent ≠ 0 then finishFloat d s
  else if d.negative then
    if 0 < n && n ≤ 9223372036854775808 then .ok (.integer (-(n : Int)), s) else finishFloat d s
  else .ok (.integer n, s)

/-- Reads a number behind its sign. A zero in front must be the whole integral part. -/
def readNumber (negative : Bool) (s : List UInt8) : Except Stop (Json.Number × List UInt8) :=
  match s with
  | [] => stopBefore .endInValue []
  | b :: rest =>
      if !isDigit b then stopBefore .invalidNumber rest
      else if b = ascii '0' && rest.head?.any isDigit then stopAfter .invalidNumber rest
      else
        let d := Number.Decimal.ofDigits negative ((s.takeWhile isDigit).map digitValue)
        match s.dropWhile isDigit with
        | [] => finishInteger d []
        | c :: after =>
            if c = ascii '.' then readFraction d after
            else if isExponentMark c then readExponent d after
            else finishInteger d (c :: after)

end Numbers

section Strings

def hexValue? (b : UInt8) : Option Nat :=
  if isDigit b then some (b.toNat - 48)
  else if ascii 'a' ≤ b && b ≤ ascii 'f' then some (b.toNat - 87)
  else if ascii 'A' ≤ b && b ≤ ascii 'F' then some (b.toNat - 55)
  else none

def hexFour? (a b c d : UInt8) : Option Nat := do
  let a ← hexValue? a
  let b ← hexValue? b
  let c ← hexValue? c
  let d ← hexValue? d
  return ((a * 16 + b) * 16 + c) * 16 + d

def readHexFour : List UInt8 → Except Stop (Nat × List UInt8)
  | a :: b :: c :: d :: rest =>
      match hexFour? a b c d with
      | some n => .ok (n, rest)
      | none => stopBefore .invalidEscape rest
  | _ => stopBefore .endInString []

def readJoint (c : Char) : List UInt8 → Except Stop (List UInt8)
  | [] => stopBefore .endInString []
  | b :: rest => if b = ascii c then .ok rest else stopBefore .brokenSurrogatePair rest

def isHighSurrogate (n : Nat) : Bool := decide (0xd800 ≤ n) && decide (n < 0xdc00)

def isLowSurrogate (n : Nat) : Bool := decide (0xdc00 ≤ n) && decide (n < 0xe000)

/-- Reads the code of a character behind the letter that announces it; a character beyond the first
plane is written as two codes. -/
def readCode (s : List UInt8) : Except Stop (List UInt8 × List UInt8) := do
  let (n, s) ← readHexFour s
  if isLowSurrogate n then stopBefore .loneSurrogate s
  else if isHighSurrogate n then
    let s ← readJoint '\\' s
    let s ← readJoint 'u' s
    let (m, s) ← readHexFour s
    if isLowSurrogate m then
      .ok (String.utf8EncodeChar (Char.ofNat (0x10000 + (n - 0xd800) * 0x400 + (m - 0xdc00))), s)
    else stopBefore .loneSurrogate s
  else .ok (String.utf8EncodeChar (Char.ofNat n), s)

def simpleEscape? (b : UInt8) : Option UInt8 :=
  if b = ascii '"' || b = ascii '\\' || b = ascii '/' then some b
  else if b = ascii 'b' then some 0x08
  else if b = ascii 'f' then some 0x0c
  else if b = ascii 'n' then some (ascii '\n')
  else if b = ascii 'r' then some (ascii '\r')
  else if b = ascii 't' then some (ascii '\t')
  else none

def readEscape : List UInt8 → Except Stop (List UInt8 × List UInt8)
  | [] => stopBefore .endInString []
  | b :: rest =>
      match simpleEscape? b with
      | some byte => .ok ([byte], rest)
      | none => if b = ascii 'u' then readCode rest else stopBefore .invalidEscape rest

theorem readHexFour_length {s rest : List UInt8} {n : Nat} (h : readHexFour s = .ok (n, rest)) :
    rest.length < s.length := by
  unfold readHexFour at h
  split at h
  · split at h
    · simp only [Except.ok.injEq, Prod.mk.injEq] at h
      simp only [← h.2, List.length_cons]
      omega
    · simp [stopBefore] at h
  · simp [stopBefore] at h

theorem readJoint_length {c : Char} {s rest : List UInt8} (h : readJoint c s = .ok rest) :
    rest.length < s.length := by
  unfold readJoint at h
  split at h
  · simp [stopBefore] at h
  · split at h
    · simp only [Except.ok.injEq] at h
      simp [← h]
    · simp [stopBefore] at h

theorem readCode_length {s bytes rest : List UInt8} (h : readCode s = .ok (bytes, rest)) :
    rest.length < s.length := by
  unfold readCode at h
  cases h₁ : readHexFour s with
  | error e => simp [h₁, bind, Except.bind] at h
  | ok first =>
    obtain ⟨n, s₁⟩ := first
    have l₁ := readHexFour_length h₁
    simp only [h₁, bind, Except.bind] at h
    split at h
    · simp [stopBefore] at h
    · split at h
      · cases h₂ : readJoint '\\' s₁ with
        | error e => simp [h₂] at h
        | ok s₂ =>
          have l₂ := readJoint_length h₂
          cases h₃ : readJoint 'u' s₂ with
          | error e => simp [h₂, h₃] at h
          | ok s₃ =>
            have l₃ := readJoint_length h₃
            cases h₄ : readHexFour s₃ with
            | error e => simp [h₂, h₃, h₄] at h
            | ok second =>
              obtain ⟨m, s₄⟩ := second
              have l₄ := readHexFour_length h₄
              simp only [h₂, h₃, h₄] at h
              split at h
              · simp only [Except.ok.injEq, Prod.mk.injEq] at h
                rw [← h.2]
                omega
              · simp [stopBefore] at h
      · simp only [Except.ok.injEq, Prod.mk.injEq] at h
        rw [← h.2]
        exact l₁

theorem readEscape_length {s bytes rest : List UInt8} (h : readEscape s = .ok (bytes, rest)) :
    rest.length < s.length := by
  unfold readEscape at h
  split at h
  · simp [stopBefore] at h
  · split at h
    · simp only [Except.ok.injEq, Prod.mk.injEq] at h
      simp [← h.2]
    · split at h
      · have := readCode_length h
        simp only [List.length_cons]
        omega
      · simp [stopBefore] at h

/-- Number of bytes at the front that are UTF-8, searched from place `i` on. -/
def validLength (bytes : ByteArray) (i : Nat) : Nat :=
  if _inside : i < bytes.size then
    match bytes.utf8DecodeChar? i with
    | some c => validLength bytes (i + c.utf8Size)
    | none => i
  else bytes.size
termination_by bytes.size - i
decreasing_by
  have := c.utf8Size_pos
  omega

def finishString (bytes : ByteArray) (s : List UInt8) : Except Stop (String × List UInt8) :=
  match String.fromUTF8? bytes with
  | some text => .ok (text, s)
  | none => .error ⟨.invalidUnicode, s.length, bytes.size - validLength bytes 0⟩

/-- Reads a string behind its opening quote, with the bytes read so far given backwards. -/
def readStringFrom (done : List UInt8) (s : List UInt8) : Except Stop (String × List UInt8) :=
  match s with
  | [] => stopBefore .endInString []
  | b :: rest =>
      if b = ascii '"' then finishString done.reverse.toByteArray rest
      else if b = ascii '\\' then
        match _read : readEscape rest with
        | .ok (bytes, left) => readStringFrom (bytes.reverse ++ done) left
        | .error stop => .error stop
      else if b < 0x20 then stopBefore .controlCharacter rest
      else readStringFrom (b :: done) rest
termination_by s.length
decreasing_by
  · have := readEscape_length _read
    simp only [List.length_cons]
    omega
  · simp

def readString (s : List UInt8) : Except Stop (String × List UInt8) := readStringFrom [] s

end Strings

mutual

def readValue : Nat → List UInt8 → Except Stop (Json × List UInt8)
  | 0, _ => stopBefore .endInValue []
  | bound + 1, s =>
      match skipBlanks s with
      | [] => stopAfter .endInValue []
      | b :: rest =>
          if b = ascii '"' then (readString rest).map fun (text, left) => (.string text, left)
          else if b = ascii '\x7b' then
            (readFields bound [] rest).map fun (fields, left) => (.object fields, left)
          else if b = ascii '[' then
            (readItems bound [] rest).map fun (items, left) => (.array items, left)
          else if b = ascii '-' then (readNumber true rest).map fun (n, left) => (.number n, left)
          else if isDigit b then (readNumber false (b :: rest)).map fun (n, left) => (.number n, left)
          else if b = ascii 'n' then readWord .null ['u', 'l', 'l'] rest
          else if b = ascii 't' then readWord (.bool true) ['r', 'u', 'e'] rest
          else if b = ascii 'f' then readWord (.bool false) ['a', 'l', 's', 'e'] rest
          else stopAfter .expectedValue (b :: rest)

def readItems : Nat → List Json → List UInt8 → Except Stop (List Json × List UInt8)
  | 0, _, _ => stopBefore .endInList []
  | bound + 1, done, s =>
      match skipBlanks s with
      | [] => stopAfter .endInList []
      | b :: rest =>
          if b = ascii ']' then .ok (done.reverse, rest)
          else if done.isEmpty then do
            let (v, left) ← readValue bound (b :: rest)
            readItems bound [v] left
          else if b = ascii ',' then
            match skipBlanks rest with
            | [] => stopAfter .endInValue []
            | c :: after =>
                if c = ascii ']' then stopAfter .trailingComma (c :: after)
                else do
                  let (v, left) ← readValue bound (c :: after)
                  readItems bound (v :: done) left
          else stopAfter .expectedListSeparator (b :: rest)

def readFields :
    Nat → List (String × Json) → List UInt8 → Except Stop (List (String × Json) × List UInt8)
  | 0, _, _ => stopBefore .endInObject []
  | bound + 1, done, s =>
      match skipBlanks s with
      | [] => stopAfter .endInObject []
      | b :: rest =>
          if b = ascii '\x7d' then .ok (done, rest)
          else if done.isEmpty then
            if b = ascii '"' then do
              let (key, v, left) ← readField bound rest
              readFields bound (setField key v done) left
            else stopAfter .keyNotString (b :: rest)
          else if b = ascii ',' then
            match skipBlanks rest with
            | [] => stopAfter .endInValue []
            | c :: after =>
                if c = ascii '\x7d' then stopAfter .trailingComma (c :: after)
                else if c = ascii '"' then do
                  let (key, v, left) ← readField bound after
                  readFields bound (setField key v done) left
                else stopAfter .keyNotString (c :: after)
          else stopAfter .expectedObjectSeparator (b :: rest)

def readField : Nat → List UInt8 → Except Stop (String × Json × List UInt8)
  | 0, _ => stopBefore .endInObject []
  | bound + 1, s => do
      let (key, left) ← readString s
      match skipBlanks left with
      | [] => stopAfter .endInObject []
      | b :: rest =>
          if b = ascii ':' then do
            let (v, left) ← readValue bound rest
            return (key, v, left)
          else stopAfter .expectedColon (b :: rest)

end

def readText (text : List UInt8) : Except Stop Json := do
  let (v, left) ← readValue (3 * text.length + 3) text
  match skipBlanks left with
  | [] => .ok v
  | b :: rest => stopAfter .trailingCharacters (b :: rest)

def read (bytes : ByteArray) : Except ReadError Json :=
  let text := bytes.data.toList
  match readText text with
  | .ok v => .ok v
  | .error stop => .error (stop.toError text)

end Treewalk.Json
