import Dialogue.Json.Value

namespace Dialogue.Json

def escaped (c : Char) : List Char :=
  if c = '"' then ['\\', '"']
  else if c = '\\' then ['\\', '\\']
  else if c = '\n' then ['\\', 'n']
  else if c = '\r' then ['\\', 'r']
  else if c = '\t' then ['\\', 't']
  else if c = '\x08' then ['\\', 'b']
  else if c = '\x0c' then ['\\', 'f']
  else if c.toNat < 32 then
    ['\\', 'u', '0', '0', Nat.digitChar (c.toNat / 16), Nat.digitChar (c.toNat % 16)]
  else [c]

def quoted (text : String) : List Char :=
  '"' :: text.toList.flatMap escaped ++ ['"']

mutual

def written : Json → List Char
  | .null => ['n', 'u', 'l', 'l']
  | .bool true => ['t', 'r', 'u', 'e']
  | .bool false => ['f', 'a', 'l', 's', 'e']
  | .number spelling => spelling.toList
  | .string text => quoted text
  | .array [] => ['[', ']']
  | .array (x :: xs) => '[' :: written x ++ writtenItems xs ++ [']']
  | .object [] => ['\x7b', '\x7d']
  | .object ((k, v) :: rest) =>
    '\x7b' :: quoted k ++ ':' :: written v ++ writtenMembers rest ++ ['\x7d']

def writtenItems : List Json → List Char
  | [] => []
  | x :: xs => ',' :: written x ++ writtenItems xs

def writtenMembers : List (String × Json) → List Char
  | [] => []
  | (k, v) :: rest => ',' :: quoted k ++ ':' :: written v ++ writtenMembers rest

end

def compact (value : Json) : String := String.ofList value.written

/-- A string stands for its own text, and any other value for its compact text. -/
def plainText : Json → String
  | .string text => text
  | other => other.compact

@[simp] theorem plainText_string (text : String) : (Json.string text).plainText = text := rfl

end Dialogue.Json
