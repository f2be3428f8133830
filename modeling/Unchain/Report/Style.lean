import Unchain.Text.Replace

/-!
# Styles

Text in the colors of a terminal. A style lasts to the end of its text: where the text turns styles
off, the style is turned on again.
-/

namespace Unchain.Report

/-- How a text looks on a terminal. -/
inductive Style where
  | bold
  | boldRed
  | boldYellow
  | boldBlue
  | boldCyan
  | red
  | green
  | brightBlue
  deriving DecidableEq, Repr, Inhabited

/-- The parameters of the escape sequence that turns a style on. -/
def Style.parameters : Style → String
  | bold => "1"
  | boldRed => "1;31"
  | boldYellow => "1;33"
  | boldBlue => "1;34"
  | boldCyan => "1;36"
  | red => "31"
  | green => "32"
  | brightBlue => "94"

/-- The escape sequence that turns all styles off. -/
def styleEnd : String := "\x1b[0m"

/-- The escape sequence that turns a style on. -/
def Style.start (style : Style) : String := "\x1b[" ++ style.parameters ++ "m"

/-- A text in a style, or as it is if there are no colors. -/
def Style.apply (style : Style) (color : Bool) (text : String) : String :=
  if color then
    style.start ++ Text.replaceAll styleEnd (styleEnd ++ style.start) text ++ styleEnd
  else text

end Unchain.Report
