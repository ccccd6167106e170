import Mathlib.Data.List.Basic

/- The lines an editor makes of a text: a line ends at a carriage return, a line feed or the
   pair of both. Of texts put together with line feeds it makes at least one line each, and
   one more for every return within a text; a return at the end of a text and the line feed
   behind it are a pair. -/
namespace Porthop.Lines

def split : List Char → List (List Char)
  | [] => [[]]
  | c :: cs =>
    if c = '\n' then [] :: split cs
    else if c = '\r' then
      match cs with
      | '\n' :: cs => [] :: split cs
      | cs => [] :: split cs
    else
      match split cs with
      | [] => [[c]]
      | l :: ls => (c :: l) :: ls

def joined (texts : List (List Char)) : List Char := List.intercalate ['\n'] texts

/-- A text without the return at its end. -/
def lessReturn : List Char → List Char
  | [] => []
  | [c] => if c = '\r' then [] else [c]
  | c :: d :: t => c :: lessReturn (d :: t)

/-- The lines there are beyond one for each text. -/
def extra : List (List Char) → Nat
  | [] => 1
  | [t] => t.count '\r'
  | t :: ts => (lessReturn t).count '\r' + extra ts

end Porthop.Lines
