import SqlCompiler.Json.Basic
import SqlCompiler.Text.Utf8
/-!
# JSON text

The compact form: no blanks, and only quotes, backslashes and control characters escaped.
-/

namespace SqlCompiler.Json

def escapeChar (c : Char) : List Char :=
  if c = '"' then ['\\', '"']
  else if c = '\\' then ['\\', '\\']
  else if c = '\x08' then ['\\', 'b']
  else if c = '\x0c' then ['\\', 'f']
  else if c = '\n' then ['\\', 'n']
  else if c = '\r' then ['\\', 'r']
  else if c = '\t' then ['\\', 't']
  else if c.toNat < 0x20 then ['\\', 'u', '0', '0'] ++ Text.hexOctet c.toNat.toUInt8
  else [c]

def quoted (s : String) : List Char :=
  '"' :: (s.toList.flatMap escapeChar ++ ['"'])

mutual

def print : Json → List Char
  | null => "null".toList
  | bool b => if b then "true".toList else "false".toList
  | int n => (intText n).toList
  | float x => x.jsonText.toList
  | str s => quoted s
  | arr items => '[' :: (printItems items ++ [']'])
  | obj members => '\x7b' :: (printMembers members ++ ['\x7d'])

def printItems : List Json → List Char
  | [] => []
  | [item] => item.print
  | item :: items => item.print ++ ',' :: printItems items

def printMembers : List (String × Json) → List Char
  | [] => []
  | [(name, value)] => quoted name ++ ':' :: value.print
  | (name, value) :: members => quoted name ++ ':' :: (value.print ++ ',' :: printMembers members)

end

def text (j : Json) : String :=
  String.ofList j.print

end SqlCompiler.Json
