/-!
# Text.Blank -- white space, words and lines

The white space of Unicode and the three readings of text that depend on it:
trimming, splitting into words, and splitting into lines.
-/

namespace EventSourcing.Text

set_option autoImplicit false

/-- The characters with the Unicode property `White_Space`. -/
def isBlank (c : Char) : Bool :=
  let n := c.toNat
  (0x9 ≤ n && n ≤ 0xD) || n == 0x20 || n == 0x85 || n == 0xA0 || n == 0x1680 ||
    (0x2000 ≤ n && n ≤ 0x200A) || n == 0x2028 || n == 0x2029 || n == 0x202F ||
    n == 0x205F || n == 0x3000

def trimEnd (cs : List Char) : List Char :=
  (cs.reverse.dropWhile isBlank).reverse

def isAllBlank (s : String) : Bool :=
  s.toList.all isBlank

/-- The maximal runs of characters that are not white space, with `word` the part of
the current run that has been read, last character first. -/
def wordsFrom (word : List Char) : List Char → List (List Char)
  | [] => if word.isEmpty then [] else [word.reverse]
  | c :: rest =>
      if isBlank c then
        if word.isEmpty then wordsFrom [] rest else word.reverse :: wordsFrom [] rest
      else wordsFrom (c :: word) rest

/-- The words of a text, in order: its maximal runs without white space. -/
def words (s : String) : List String :=
  (wordsFrom [] s.toList).map String.ofList

/-- The lines of a text, with `line` the part of the current one that has been read,
last character first.  A line ends at a line feed, which may follow a carriage
return; the last line counts only if it holds something. -/
def linesFrom (line : List Char) : List Char → List (List Char)
  | [] => if line.isEmpty then [] else [line.reverse]
  | '\n' :: rest =>
      (match line with
        | '\r' :: before => before.reverse
        | _ => line.reverse) :: linesFrom [] rest
  | c :: rest => linesFrom (c :: line) rest

/-- The lines of a text, without their ends. -/
def lines (s : String) : List String :=
  (linesFrom [] s.toList).map String.ofList

end EventSourcing.Text
