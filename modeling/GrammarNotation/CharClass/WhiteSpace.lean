/-!
The property White_Space: the characters that may stand between two lexemes.
-/

namespace GrammarNotation.CharClass

def whiteSpace : List Char :=
  ['\t', '\n', '\x0b', '\x0c', '\r', ' ', '\u0085', '\u00a0', '\u1680', '\u2000', '\u2001',
   '\u2002', '\u2003', '\u2004', '\u2005', '\u2006', '\u2007', '\u2008', '\u2009', '\u200a',
   '\u2028', '\u2029', '\u202f', '\u205f', '\u3000']

def isWhiteSpace (c : Char) : Bool :=
  whiteSpace.contains c

theorem isWhiteSpace_iff (c : Char) : isWhiteSpace c = true ↔ c ∈ whiteSpace :=
  List.contains_iff_mem

end GrammarNotation.CharClass
