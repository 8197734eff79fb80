/-
Words inside names and source texts.

The analysis asks two kinds of questions about text: whether it contains a given
piece exactly, and whether it contains a given English word in any mixture of
upper and lower case. The words in question are ASCII, and lowering only the ASCII
letters decides the second question for every text: the only other characters
with an ASCII letter in their lower-case form are the Kelvin sign, which gives
`k`, and the dotted capital I, which gives `i` followed by a combining dot. None
of the words has a `k`, or an `i` at its end.
-/

set_option autoImplicit false

namespace PriceTaint.Text

/-- Does `piece` stand in `text`, starting at any place? -/
def occursIn (piece : List Char) : List Char → Bool
  | [] => piece.isEmpty
  | c :: cs => piece.isPrefixOf (c :: cs) || occursIn piece cs

/-- Does the text contain the piece, letter by letter? -/
def contains (text piece : String) : Bool := occursIn piece.toList text.toList

/-- Does the text contain the lower-case word in any mixture of cases? -/
def mentions (text word : String) : Bool := occursIn word.toList (text.toList.map Char.toLower)

end PriceTaint.Text
