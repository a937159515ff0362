/-!
Lines of a text. Line breaks are written as a line feed, a return or both; reading makes them all
line feeds.
-/

namespace Ancestry.Text

/-- Writes every line break as a line feed. -/
def normalizeBreaks : List Char → List Char
  | [] => []
  | '\r' :: '\n' :: s => '\n' :: normalizeBreaks s
  | '\r' :: s => '\n' :: normalizeBreaks s
  | c :: s => c :: normalizeBreaks s

/-- The lines of a text without their line feeds. What follows the last line feed is a line only if
it is not empty. -/
def lines (s : List Char) : List (List Char) :=
  match s.foldr
      (fun c (rest : List Char × List (List Char)) =>
        if c = '\n' then ([], rest.1 :: rest.2) else (c :: rest.1, rest.2))
      ([], []) with
  | ([], []) => []
  | (first, rest) => if rest.getLast? = some [] then first :: rest.dropLast else first :: rest

end Ancestry.Text
