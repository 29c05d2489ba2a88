import MathMarkup.Text.Space

/-!
# Comma-separated rows

A field is quoted if it holds a comma, a quote or a line break, if it starts with a blank, or if it
is the mark that some readers take for the end of the data. Inside quotes a quote is written twice.
-/

namespace MathMarkup.Output.Csv

/-- Whether a field has to be quoted. -/
def needsQuotes (t : Text) : Bool :=
  match t with
  | [] => false
  | _ =>
    t == Text.ofString "\\."
      || (t.any fun b =>
        b == Text.byte ',' || b == Text.byte '"' || b == Text.byte '\n' || b == Text.byte '\r')
      || (t.chars.head?.any Text.isSpaceChar)

/-- A field of a row. -/
def field (t : Text) : Text :=
  if needsQuotes t then "\"" ++ Text.replaceByte (Text.byte '"') "\"\"" t ++ "\"" else t

/-- A row with its line break. -/
def row (fields : List Text) : Text := Text.join "," (fields.map field) ++ "\n"

end MathMarkup.Output.Csv
