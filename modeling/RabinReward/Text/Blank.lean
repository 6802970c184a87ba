/-!
# White space

The characters with the Unicode property `White_Space`, and the ways a text is cut at them: `trim`
removes them at both ends, `words` keeps the runs between them. Lines end at a line feed only.
-/

namespace RabinReward.Text

/-- The characters with the property `White_Space`. -/
def isBlank (c : Char) : Bool :=
  let n := c.toNat
  (9 ≤ n && n ≤ 13) || n == 0x20 || n == 0x85 || n == 0xA0 || n == 0x1680 ||
    (0x2000 ≤ n && n ≤ 0x200A) || n == 0x2028 || n == 0x2029 || n == 0x202F || n == 0x205F ||
    n == 0x3000

def trimLeft (cs : List Char) : List Char := cs.dropWhile isBlank

def trim (cs : List Char) : List Char := (trimLeft (trimLeft cs).reverse).reverse

/-- Adds a character in front of the first of the runs that follow it. -/
def consWord (c : Char) : List (List Char) → List (List Char)
  | [] => [[c]]
  | w :: ws => (c :: w) :: ws

/-- The runs between separators, the empty ones included. -/
def splitAt (sep : Char → Bool) : List Char → List (List Char)
  | [] => [[]]
  | c :: cs => if sep c then [] :: splitAt sep cs else consWord c (splitAt sep cs)

/-- The maximal runs of characters that are not blank. -/
def words (cs : List Char) : List (List Char) := (splitAt isBlank cs).filter (!·.isEmpty)

/-- The lines of a text; what follows the last line feed is a line too. -/
def lines (cs : List Char) : List (List Char) := splitAt (· == '\n') cs

end RabinReward.Text
