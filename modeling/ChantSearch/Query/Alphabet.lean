/-!
# The characters of a query

Texts, quoted texts and field names draw on fixed sets of characters: ASCII letters and
digits, the underscore, and the accented letters of the chant texts.
-/

namespace ChantSearch.Query

def accentedLetters : List Char :=
  ['á', 'à', 'ä', 'â', 'é', 'è', 'ë', 'ê', 'í', 'ì', 'ï', 'î',
   'ó', 'ò', 'ö', 'ô', 'ú', 'ù', 'ü', 'û', 'ß', 'ç',
   'Á', 'À', 'Ä', 'Â', 'É', 'È', 'Ë', 'Ê', 'Í', 'Ì', 'Ï', 'Î',
   'Ó', 'Ò', 'Ö', 'Ô', 'Ú', 'Ù', 'Ü', 'Û', 'Ç']

def isTextChar (c : Char) : Bool :=
  c.isAlphanum || c == '_' || accentedLetters.contains c

/-- A character of a quoted text: that of a plain text, or a space. -/
def isQuotedChar (c : Char) : Bool :=
  isTextChar c || c == ' '

def isNameChar (c : Char) : Bool :=
  c.isAlpha || c == '_'

def isBlank (c : Char) : Bool :=
  c == ' ' || c == '\t' || c == '\r' || c == '\n'

end ChantSearch.Query
