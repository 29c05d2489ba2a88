import MathMarkup.Number.Fixed

/-!
# Progress

A bar that shows how many of a number of files have been done, on one line that is written over
again.
-/

namespace MathMarkup.Output

/-- How far a batch has come. -/
structure Progress where
  total : Int := 0
  current : Int := 0
deriving DecidableEq, Repr

namespace Progress

/-- The number of characters of the bar. -/
def barWidth : Nat := 40

/-- The percentage that has been done. -/
def percent (p : Progress) : Float := Float.ofInt p.current / Float.ofInt p.total * 100

/-- The number of filled characters. -/
def filled (p : Progress) : Nat := (Float.ofNat barWidth * p.percent / 100).toUInt64.toNat

/-- The bar. -/
def bar (p : Progress) : Text :=
  ((List.replicate p.filled (Text.ofString "█"))
    ++ (List.replicate (barWidth - p.filled) (Text.ofString "░"))).flatten

/-- No more than everything can be done. -/
def capped (p : Progress) : Progress := { p with current := min p.current p.total }

/-- The line for a batch that runs at a rate of files; nothing if there is nothing to do. -/
def line (p : Progress) (rate : Text) : Text :=
  if p.total = 0 then []
  else
    "\rProgress: [" ++ p.bar ++ "] " ++ Number.fixed 1 p.percent ++ "% (" ++ Text.ofInt p.current
      ++ "/" ++ Text.ofInt p.total ++ ") " ++ rate ++ " files/s"

/-- A rate of files after a number of seconds. -/
def rateText (p : Progress) (seconds : Float) : Text :=
  Number.fixed 1 (if seconds > 0 then Float.ofInt p.current / seconds else 0)

/-- Starts a batch. -/
def start (total : Int) : Progress := capped { total }

/-- A number of files have been done. -/
def update (p : Progress) (current : Int) : Progress :=
  if p.total = 0 then { p with current } else capped { p with current }

/-- All files have been done. -/
def finish (p : Progress) : Progress := { p with current := p.total }

/-- The line about an error. -/
def errorLine (message : Text) : Text := "\n✗ Error: " ++ message ++ "\n"

end Progress

end MathMarkup.Output
