import CallAtlas.Text.Columns

/-!
# Grids

A list of measured values as a table of two columns in a rounded box. A column
is as wide as its widest line, a row as high as its highest cell, and every
cell has a blank on each side.
-/

namespace CallAtlas.Console.Grid

/-- A cell by its lines. -/
abbrev Cell := List (List Char)

def cell (text : String) : Cell :=
  text.toList.splitOnP (· = '\n')

def width (column : List Cell) : Nat :=
  (column.map fun c => (c.map Text.columns).max?.getD 0).max?.getD 0

def fill (width : Nat) (line : List Char) : List Char :=
  line ++ List.replicate (width - Text.columns line) ' '

def rule (left middle right : Char) (m n : Nat) : List Char :=
  left :: List.replicate (m + 2) '─' ++ middle :: List.replicate (n + 2) '─' ++ [right]

def rowLine (m n : Nat) (row : Cell × Cell) (number : Nat) : List Char :=
  let piece (width : Nat) (cell : Cell) : List Char := fill width (cell[number]?.getD [])
  "│ ".toList ++ piece m row.1 ++ " │ ".toList ++ piece n row.2 ++ " │".toList

def rowLines (m n : Nat) (row : Cell × Cell) : List (List Char) :=
  (List.range (max row.1.length row.2.length)).map (rowLine m n row)

def boxLines (head : Cell × Cell) (rows : List (Cell × Cell)) : List (List Char) :=
  let m := width ((head :: rows).map Prod.fst)
  let n := width ((head :: rows).map Prod.snd)
  rule '╭' '┬' '╮' m n :: rowLines m n head ++
    rule '├' '┼' '┤' m n :: rows.flatMap (rowLines m n) ++ [rule '╰' '┴' '╯' m n]

/-- The table of the rows, and no text at all without rows. -/
def render (rows : List (String × String)) : String :=
  if rows.isEmpty then ""
  else
    let cells := rows.map fun (label, value) => (cell label, cell value)
    String.ofList (List.intercalate ['\n'] (boxLines (cell "Metric", cell "Value") cells))

end CallAtlas.Console.Grid
