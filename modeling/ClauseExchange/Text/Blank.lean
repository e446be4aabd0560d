/-!
# Blanks and lines

Fields of a text are separated by blanks, the characters with the Unicode property `White_Space`.
Lines end at a line feed, and a carriage return right before it belongs to the line end.
-/

namespace ClauseExchange.Blank

/-- The code points with the property `White_Space`, as closed ranges. -/
def ranges : List (Nat × Nat) :=
  [(0x9, 0xd), (0x20, 0x20), (0x85, 0x85), (0xa0, 0xa0), (0x1680, 0x1680), (0x2000, 0x200a),
    (0x2028, 0x2029), (0x202f, 0x202f), (0x205f, 0x205f), (0x3000, 0x3000)]

/-- Whether a character is a blank. -/
def isBlank (c : Char) : Bool := ranges.any fun (low, high) => low ≤ c.toNat && c.toNat ≤ high

/-- Adds a character in front of the first of some fields, or a separator if it is a blank. -/
def consField (c : Char) : List (List Char) → List (List Char)
  | [] => if isBlank c then [[]] else [[c]]
  | field :: rest => if isBlank c then [] :: field :: rest else (c :: field) :: rest

/-- The fields of a text: its longest runs of characters that are no blanks. -/
def fields (cs : List Char) : List String :=
  ((cs.foldr consField [[]]).filter (!·.isEmpty)).map String.ofList

/-- Adds a character in front of the first line, or a line end. -/
def consLine (c : Char) : List (List Char) → List (List Char)
  | [] => if c = '\n' then [[], []] else [[c]]
  | line :: rest => if c = '\n' then [] :: line :: rest else (c :: line) :: rest

/-- The line without a carriage return at its end. -/
def dropReturn (line : List Char) : List Char :=
  if line.getLast? = some '\r' then line.dropLast else line

/-- The lines of a text. What follows the last line feed is a line only if it is not empty. -/
def lines (cs : List Char) : List (List Char) :=
  match (cs.foldr consLine [[]]).reverse with
  | [] => []
  | last :: ended => (ended.map dropReturn).reverse ++ if last.isEmpty then [] else [last]

end ClauseExchange.Blank
