/-!
# Replacing text

Replaces every occurrence of a pattern, from the left and without overlaps.
-/

namespace Unchain.Text

/-- Passes over `skip` characters, then replaces every occurrence of `pattern`. -/
def replaceFrom (pattern new : List Char) : Nat → List Char → List Char
  | _, [] => []
  | skip + 1, _ :: rest => replaceFrom pattern new skip rest
  | 0, c :: rest =>
    if pattern.isPrefixOf (c :: rest) then
      new ++ replaceFrom pattern new (pattern.length - 1) rest
    else c :: replaceFrom pattern new 0 rest

/-- The text with every occurrence of the pattern replaced. -/
def replaceAll (pattern new text : String) : String :=
  String.ofList (replaceFrom pattern.toList new.toList 0 text.toList)

end Unchain.Text
