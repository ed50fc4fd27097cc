import Treewalk.Json.Basic

/-! The text of JSON values, on one line without blanks or indented by two blanks a level.

Fields are written in the order in which an object holds them. Each function puts its text in front of
the characters that follow, so that a whole document is written in one pass. -/
namespace Treewalk.Json

def hexDigit (n : Nat) : Char := Nat.digitChar n

/-- One character of a string: only quotes, backslashes and the lowest control characters are escaped. -/
def escapeOnto (c : Char) (rest : List Char) : List Char :=
  if c = '"' then '\\' :: '"' :: rest
  else if c = '\\' then '\\' :: '\\' :: rest
  else if c.toNat = 0x08 then '\\' :: 'b' :: rest
  else if c.toNat = 0x0c then '\\' :: 'f' :: rest
  else if c = '\n' then '\\' :: 'n' :: rest
  else if c = '\r' then '\\' :: 'r' :: rest
  else if c = '\t' then '\\' :: 't' :: rest
  else if c.toNat < 0x20 then
    '\\' :: 'u' :: '0' :: '0' :: hexDigit (c.toNat / 16) :: hexDigit (c.toNat % 16) :: rest
  else c :: rest

def stringOnto (s : String) (rest : List Char) : List Char :=
  '"' :: s.toList.foldr escapeOnto ('"' :: rest)

def Number.text : Number → String
  | .integer n => n.repr
  | .float x => x.text

def textOnto (s : String) (rest : List Char) : List Char := s.toList ++ rest

mutual

def compactOnto : Json → List Char → List Char
  | null, rest => textOnto "null" rest
  | bool b, rest => textOnto (if b then "true" else "false") rest
  | number n, rest => textOnto n.text rest
  | string s, rest => stringOnto s rest
  | array [], rest => '[' :: ']' :: rest
  | array (v :: items), rest => '[' :: compactOnto v (compactItemsOnto items (']' :: rest))
  | object [], rest => '\x7b' :: '\x7d' :: rest
  | object ((k, v) :: fields), rest =>
      '\x7b' :: stringOnto k (':' :: compactOnto v (compactFieldsOnto fields ('\x7d' :: rest)))

def compactItemsOnto : List Json → List Char → List Char
  | [], rest => rest
  | v :: items, rest => ',' :: compactOnto v (compactItemsOnto items rest)

def compactFieldsOnto : List (String × Json) → List Char → List Char
  | [], rest => rest
  | (k, v) :: fields, rest => ',' :: stringOnto k (':' :: compactOnto v (compactFieldsOnto fields rest))

end

def compact (v : Json) : String := String.ofList (compactOnto v [])

def newLineOnto (level : Nat) (rest : List Char) : List Char :=
  '\n' :: (List.replicate (2 * level) ' ' ++ rest)

mutual

/-- A value over several lines, inside `level` brackets. -/
def prettyOnto (level : Nat) : Json → List Char → List Char
  | null, rest => textOnto "null" rest
  | bool b, rest => textOnto (if b then "true" else "false") rest
  | number n, rest => textOnto n.text rest
  | string s, rest => stringOnto s rest
  | array [], rest => '[' :: ']' :: rest
  | array (v :: items), rest =>
      '[' :: newLineOnto (level + 1) (prettyOnto (level + 1) v
        (prettyItemsOnto (level + 1) items (newLineOnto level (']' :: rest))))
  | object [], rest => '\x7b' :: '\x7d' :: rest
  | object ((k, v) :: fields), rest =>
      '\x7b' :: newLineOnto (level + 1) (stringOnto k (':' :: ' ' :: prettyOnto (level + 1) v
        (prettyFieldsOnto (level + 1) fields (newLineOnto level ('\x7d' :: rest)))))

def prettyItemsOnto (level : Nat) : List Json → List Char → List Char
  | [], rest => rest
  | v :: items, rest => ',' :: newLineOnto level (prettyOnto level v (prettyItemsOnto level items rest))

def prettyFieldsOnto (level : Nat) : List (String × Json) → List Char → List Char
  | [], rest => rest
  | (k, v) :: fields, rest =>
      ',' :: newLineOnto level (stringOnto k (':' :: ' ' :: prettyOnto level v
        (prettyFieldsOnto level fields rest)))

end

/-- A value over several lines, indented by two blanks a level. -/
def pretty (v : Json) : String := String.ofList (prettyOnto 0 v [])

end Treewalk.Json
