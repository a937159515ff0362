/-!
Quote characters, and the removal of one at each end of a text.
-/

namespace Ancestry.Text

def isQuote (c : Char) : Bool :=
  c == '\'' || c == '"'

def dropLeadingQuote : List Char → List Char
  | [] => []
  | c :: s => if isQuote c then s else c :: s

/-- Removes a quote that ends the text or its last line: a line break after the quote stays. -/
def dropTrailingQuote : List Char → List Char
  | [] => []
  | [c] => if isQuote c then [] else [c]
  | [c, '\n'] => if isQuote c then ['\n'] else [c, '\n']
  | c :: s => c :: dropTrailingQuote s

/-- Removes one quote at each end. The two need not be the same character. -/
def dropQuotes (s : List Char) : List Char :=
  dropTrailingQuote (dropLeadingQuote s)

end Ancestry.Text
