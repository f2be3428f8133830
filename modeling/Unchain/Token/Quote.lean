/-!
# Quoting

The literal of a string: its characters in double quotes, with a backslash before those that
cannot stand there.
-/

namespace Unchain.Token

/-- How a character is written in a string literal. -/
def quoteChar (c : Char) : List Char :=
  if c = '"' then ['\\', '"']
  else if c = '\\' then ['\\', '\\']
  else if c = '\n' then ['\\', 'n']
  else if c = '\r' then ['\\', 'r']
  else if c = '\t' then ['\\', 't']
  else [c]

/-- The literal of a string. -/
def quote (value : String) : String :=
  String.ofList ('"' :: value.toList.flatMap quoteChar ++ ['"'])

end Unchain.Token
