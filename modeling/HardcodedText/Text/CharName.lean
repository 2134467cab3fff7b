import HardcodedText.Text.Basic

/-!
Names of characters. Which characters have a name is left open; a table is at hand for the Latin and
Greek alphabets and for punctuation.
-/

namespace HardcodedText

class CharacterNames where
  /-- The character that a name stands for. -/
  char? : Text → Option Char

namespace CharacterNames

def latinAndGreekNames : List (Nat × String) := [
  (0x20, "SPACE"), (0x21, "EXCLAMATION MARK"), (0x22, "QUOTATION MARK"), (0x23, "NUMBER SIGN"),
  (0x24, "DOLLAR SIGN"), (0x25, "PERCENT SIGN"), (0x26, "AMPERSAND"), (0x27, "APOSTROPHE"),
  (0x28, "LEFT PARENTHESIS"), (0x29, "RIGHT PARENTHESIS"), (0x2a, "ASTERISK"),
  (0x2b, "PLUS SIGN"), (0x2c, "COMMA"), (0x2d, "HYPHEN-MINUS"), (0x2e, "FULL STOP"),
  (0x2f, "SOLIDUS"), (0x30, "DIGIT ZERO"), (0x31, "DIGIT ONE"), (0x32, "DIGIT TWO"),
  (0x33, "DIGIT THREE"), (0x34, "DIGIT FOUR"), (0x35, "DIGIT FIVE"), (0x36, "DIGIT SIX"),
  (0x37, "DIGIT SEVEN"), (0x38, "DIGIT EIGHT"), (0x39, "DIGIT NINE"), (0x3a, "COLON"),
  (0x3b, "SEMICOLON"), (0x3c, "LESS-THAN SIGN"), (0x3d, "EQUALS SIGN"),
  (0x3e, "GREATER-THAN SIGN"), (0x3f, "QUESTION MARK"), (0x40, "COMMERCIAL AT"),
  (0x41, "LATIN CAPITAL LETTER A"), (0x42, "LATIN CAPITAL LETTER B"),
  (0x43, "LATIN CAPITAL LETTER C"), (0x44, "LATIN CAPITAL LETTER D"),
  (0x45, "LATIN CAPITAL LETTER E"), (0x46, "LATIN CAPITAL LETTER F"),
  (0x47, "LATIN CAPITAL LETTER G"), (0x48, "LATIN CAPITAL LETTER H"),
  (0x49, "LATIN CAPITAL LETTER I"), (0x4a, "LATIN CAPITAL LETTER J"),
  (0x4b, "LATIN CAPITAL LETTER K"), (0x4c, "LATIN CAPITAL LETTER L"),
  (0x4d, "LATIN CAPITAL LETTER M"), (0x4e, "LATIN CAPITAL LETTER N"),
  (0x4f, "LATIN CAPITAL LETTER O"), (0x50, "LATIN CAPITAL LETTER P"),
  (0x51, "LATIN CAPITAL LETTER Q"), (0x52, "LATIN CAPITAL LETTER R"),
  (0x53, "LATIN CAPITAL LETTER S"), (0x54, "LATIN CAPITAL LETTER T"),
  (0x55, "LATIN CAPITAL LETTER U"), (0x56, "LATIN CAPITAL LETTER V"),
  (0x57, "LATIN CAPITAL LETTER W"), (0x58, "LATIN CAPITAL LETTER X"),
  (0x59, "LATIN CAPITAL LETTER Y"), (0x5a, "LATIN CAPITAL LETTER Z"),
  (0x5b, "LEFT SQUARE BRACKET"), (0x5c, "REVERSE SOLIDUS"), (0x5d, "RIGHT SQUARE BRACKET"),
  (0x5e, "CIRCUMFLEX ACCENT"), (0x5f, "LOW LINE"), (0x60, "GRAVE ACCENT"),
  (0x61, "LATIN SMALL LETTER A"), (0x62, "LATIN SMALL LETTER B"), (0x63, "LATIN SMALL LETTER C"),
  (0x64, "LATIN SMALL LETTER D"), (0x65, "LATIN SMALL LETTER E"), (0x66, "LATIN SMALL LETTER F"),
  (0x67, "LATIN SMALL LETTER G"), (0x68, "LATIN SMALL LETTER H"), (0x69, "LATIN SMALL LETTER I"),
  (0x6a, "LATIN SMALL LETTER J"), (0x6b, "LATIN SMALL LETTER K"), (0x6c, "LATIN SMALL LETTER L"),
  (0x6d, "LATIN SMALL LETTER M"), (0x6e, "LATIN SMALL LETTER N"), (0x6f, "LATIN SMALL LETTER O"),
  (0x70, "LATIN SMALL LETTER P"), (0x71, "LATIN SMALL LETTER Q"), (0x72, "LATIN SMALL LETTER R"),
  (0x73, "LATIN SMALL LETTER S"), (0x74, "LATIN SMALL LETTER T"), (0x75, "LATIN SMALL LETTER U"),
  (0x76, "LATIN SMALL LETTER V"), (0x77, "LATIN SMALL LETTER W"), (0x78, "LATIN SMALL LETTER X"),
  (0x79, "LATIN SMALL LETTER Y"), (0x7a, "LATIN SMALL LETTER Z"), (0x7b, "LEFT CURLY BRACKET"),
  (0x7c, "VERTICAL LINE"), (0x7d, "RIGHT CURLY BRACKET"), (0x7e, "TILDE"),
  (0xa0, "NO-BREAK SPACE"), (0xa1, "INVERTED EXCLAMATION MARK"), (0xa2, "CENT SIGN"),
  (0xa3, "POUND SIGN"), (0xa4, "CURRENCY SIGN"), (0xa5, "YEN SIGN"), (0xa6, "BROKEN BAR"),
  (0xa7, "SECTION SIGN"), (0xa8, "DIAERESIS"), (0xa9, "COPYRIGHT SIGN"),
  (0xaa, "FEMININE ORDINAL INDICATOR"), (0xab, "LEFT-POINTING DOUBLE ANGLE QUOTATION MARK"),
  (0xac, "NOT SIGN"), (0xad, "SOFT HYPHEN"), (0xae, "REGISTERED SIGN"), (0xaf, "MACRON"),
  (0xb0, "DEGREE SIGN"), (0xb1, "PLUS-MINUS SIGN"), (0xb2, "SUPERSCRIPT TWO"),
  (0xb3, "SUPERSCRIPT THREE"), (0xb4, "ACUTE ACCENT"), (0xb5, "MICRO SIGN"),
  (0xb6, "PILCROW SIGN"), (0xb7, "MIDDLE DOT"), (0xb8, "CEDILLA"), (0xb9, "SUPERSCRIPT ONE"),
  (0xba, "MASCULINE ORDINAL INDICATOR"), (0xbb, "RIGHT-POINTING DOUBLE ANGLE QUOTATION MARK"),
  (0xbc, "VULGAR FRACTION ONE QUARTER"), (0xbd, "VULGAR FRACTION ONE HALF"),
  (0xbe, "VULGAR FRACTION THREE QUARTERS"), (0xbf, "INVERTED QUESTION MARK"),
  (0xc0, "LATIN CAPITAL LETTER A WITH GRAVE"), (0xc1, "LATIN CAPITAL LETTER A WITH ACUTE"),
  (0xc2, "LATIN CAPITAL LETTER A WITH CIRCUMFLEX"), (0xc3, "LATIN CAPITAL LETTER A WITH TILDE"),
  (0xc4, "LATIN CAPITAL LETTER A WITH DIAERESIS"),
  (0xc5, "LATIN CAPITAL LETTER A WITH RING ABOVE"), (0xc6, "LATIN CAPITAL LETTER AE"),
  (0xc7, "LATIN CAPITAL LETTER C WITH CEDILLA"), (0xc8, "LATIN CAPITAL LETTER E WITH GRAVE"),
  (0xc9, "LATIN CAPITAL LETTER E WITH ACUTE"), (0xca, "LATIN CAPITAL LETTER E WITH CIRCUMFLEX"),
  (0xcb, "LATIN CAPITAL LETTER E WITH DIAERESIS"), (0xcc, "LATIN CAPITAL LETTER I WITH GRAVE"),
  (0xcd, "LATIN CAPITAL LETTER I WITH ACUTE"), (0xce, "LATIN CAPITAL LETTER I WITH CIRCUMFLEX"),
  (0xcf, "LATIN CAPITAL LETTER I WITH DIAERESIS"), (0xd0, "LATIN CAPITAL LETTER ETH"),
  (0xd1, "LATIN CAPITAL LETTER N WITH TILDE"), (0xd2, "LATIN CAPITAL LETTER O WITH GRAVE"),
  (0xd3, "LATIN CAPITAL LETTER O WITH ACUTE"), (0xd4, "LATIN CAPITAL LETTER O WITH CIRCUMFLEX"),
  (0xd5, "LATIN CAPITAL LETTER O WITH TILDE"), (0xd6, "LATIN CAPITAL LETTER O WITH DIAERESIS"),
  (0xd7, "MULTIPLICATION SIGN"), (0xd8, "LATIN CAPITAL LETTER O WITH STROKE"),
  (0xd9, "LATIN CAPITAL LETTER U WITH GRAVE"), (0xda, "LATIN CAPITAL LETTER U WITH ACUTE"),
  (0xdb, "LATIN CAPITAL LETTER U WITH CIRCUMFLEX"),
  (0xdc, "LATIN CAPITAL LETTER U WITH DIAERESIS"), (0xdd, "LATIN CAPITAL LETTER Y WITH ACUTE"),
  (0xde, "LATIN CAPITAL LETTER THORN"), (0xdf, "LATIN SMALL LETTER SHARP S"),
  (0xe0, "LATIN SMALL LETTER A WITH GRAVE"), (0xe1, "LATIN SMALL LETTER A WITH ACUTE"),
  (0xe2, "LATIN SMALL LETTER A WITH CIRCUMFLEX"), (0xe3, "LATIN SMALL LETTER A WITH TILDE"),
  (0xe4, "LATIN SMALL LETTER A WITH DIAERESIS"), (0xe5, "LATIN SMALL LETTER A WITH RING ABOVE"),
  (0xe6, "LATIN SMALL LETTER AE"), (0xe7, "LATIN SMALL LETTER C WITH CEDILLA"),
  (0xe8, "LATIN SMALL LETTER E WITH GRAVE"), (0xe9, "LATIN SMALL LETTER E WITH ACUTE"),
  (0xea, "LATIN SMALL LETTER E WITH CIRCUMFLEX"), (0xeb, "LATIN SMALL LETTER E WITH DIAERESIS"),
  (0xec, "LATIN SMALL LETTER I WITH GRAVE"), (0xed, "LATIN SMALL LETTER I WITH ACUTE"),
  (0xee, "LATIN SMALL LETTER I WITH CIRCUMFLEX"), (0xef, "LATIN SMALL LETTER I WITH DIAERESIS"),
  (0xf0, "LATIN SMALL LETTER ETH"), (0xf1, "LATIN SMALL LETTER N WITH TILDE"),
  (0xf2, "LATIN SMALL LETTER O WITH GRAVE"), (0xf3, "LATIN SMALL LETTER O WITH ACUTE"),
  (0xf4, "LATIN SMALL LETTER O WITH CIRCUMFLEX"), (0xf5, "LATIN SMALL LETTER O WITH TILDE"),
  (0xf6, "LATIN SMALL LETTER O WITH DIAERESIS"), (0xf7, "DIVISION SIGN"),
  (0xf8, "LATIN SMALL LETTER O WITH STROKE"), (0xf9, "LATIN SMALL LETTER U WITH GRAVE"),
  (0xfa, "LATIN SMALL LETTER U WITH ACUTE"), (0xfb, "LATIN SMALL LETTER U WITH CIRCUMFLEX"),
  (0xfc, "LATIN SMALL LETTER U WITH DIAERESIS"), (0xfd, "LATIN SMALL LETTER Y WITH ACUTE"),
  (0xfe, "LATIN SMALL LETTER THORN"), (0xff, "LATIN SMALL LETTER Y WITH DIAERESIS"),
  (0x2010, "HYPHEN"), (0x2011, "NON-BREAKING HYPHEN"), (0x2012, "FIGURE DASH"),
  (0x2013, "EN DASH"), (0x2014, "EM DASH"), (0x2015, "HORIZONTAL BAR"),
  (0x2016, "DOUBLE VERTICAL LINE"), (0x2017, "DOUBLE LOW LINE"),
  (0x2018, "LEFT SINGLE QUOTATION MARK"), (0x2019, "RIGHT SINGLE QUOTATION MARK"),
  (0x201a, "SINGLE LOW-9 QUOTATION MARK"), (0x201b, "SINGLE HIGH-REVERSED-9 QUOTATION MARK"),
  (0x201c, "LEFT DOUBLE QUOTATION MARK"), (0x201d, "RIGHT DOUBLE QUOTATION MARK"),
  (0x201e, "DOUBLE LOW-9 QUOTATION MARK"), (0x201f, "DOUBLE HIGH-REVERSED-9 QUOTATION MARK"),
  (0x2020, "DAGGER"), (0x2021, "DOUBLE DAGGER"), (0x2022, "BULLET"),
  (0x2023, "TRIANGULAR BULLET"), (0x2024, "ONE DOT LEADER"), (0x2025, "TWO DOT LEADER"),
  (0x2026, "HORIZONTAL ELLIPSIS"), (0x2027, "HYPHENATION POINT"), (0x2030, "PER MILLE SIGN"),
  (0x2031, "PER TEN THOUSAND SIGN"), (0x2032, "PRIME"), (0x2033, "DOUBLE PRIME"),
  (0x2034, "TRIPLE PRIME"), (0x2035, "REVERSED PRIME"), (0x2036, "REVERSED DOUBLE PRIME"),
  (0x2037, "REVERSED TRIPLE PRIME"), (0x2038, "CARET"),
  (0x2039, "SINGLE LEFT-POINTING ANGLE QUOTATION MARK"),
  (0x203a, "SINGLE RIGHT-POINTING ANGLE QUOTATION MARK"), (0x203b, "REFERENCE MARK"),
  (0x203c, "DOUBLE EXCLAMATION MARK"), (0x203d, "INTERROBANG"), (0x203e, "OVERLINE"),
  (0x203f, "UNDERTIE"), (0x2040, "CHARACTER TIE"), (0x2041, "CARET INSERTION POINT"),
  (0x2042, "ASTERISM"), (0x2043, "HYPHEN BULLET"), (0x2044, "FRACTION SLASH"),
  (0x2045, "LEFT SQUARE BRACKET WITH QUILL"), (0x2046, "RIGHT SQUARE BRACKET WITH QUILL"),
  (0x2047, "DOUBLE QUESTION MARK"), (0x2048, "QUESTION EXCLAMATION MARK"),
  (0x2049, "EXCLAMATION QUESTION MARK"), (0x204a, "TIRONIAN SIGN ET"),
  (0x204b, "REVERSED PILCROW SIGN"), (0x204c, "BLACK LEFTWARDS BULLET"),
  (0x204d, "BLACK RIGHTWARDS BULLET"), (0x204e, "LOW ASTERISK"), (0x204f, "REVERSED SEMICOLON"),
  (0x2050, "CLOSE UP"), (0x2051, "TWO ASTERISKS ALIGNED VERTICALLY"),
  (0x2052, "COMMERCIAL MINUS SIGN"), (0x2053, "SWUNG DASH"), (0x2054, "INVERTED UNDERTIE"),
  (0x2055, "FLOWER PUNCTUATION MARK"), (0x2056, "THREE DOT PUNCTUATION"),
  (0x2057, "QUADRUPLE PRIME"), (0x2058, "FOUR DOT PUNCTUATION"), (0x2059, "FIVE DOT PUNCTUATION"),
  (0x205a, "TWO DOT PUNCTUATION"), (0x205b, "FOUR DOT MARK"), (0x205c, "DOTTED CROSS"),
  (0x205d, "TRICOLON"), (0x205e, "VERTICAL FOUR DOTS"), (0x20ac, "EURO SIGN"),
  (0x2122, "TRADE MARK SIGN"), (0x2190, "LEFTWARDS ARROW"), (0x2191, "UPWARDS ARROW"),
  (0x2192, "RIGHTWARDS ARROW"), (0x2193, "DOWNWARDS ARROW"),
  (0x391, "GREEK CAPITAL LETTER ALPHA"), (0x392, "GREEK CAPITAL LETTER BETA"),
  (0x393, "GREEK CAPITAL LETTER GAMMA"), (0x394, "GREEK CAPITAL LETTER DELTA"),
  (0x395, "GREEK CAPITAL LETTER EPSILON"), (0x396, "GREEK CAPITAL LETTER ZETA"),
  (0x397, "GREEK CAPITAL LETTER ETA"), (0x398, "GREEK CAPITAL LETTER THETA"),
  (0x399, "GREEK CAPITAL LETTER IOTA"), (0x39a, "GREEK CAPITAL LETTER KAPPA"),
  (0x39b, "GREEK CAPITAL LETTER LAMDA"), (0x39c, "GREEK CAPITAL LETTER MU"),
  (0x39d, "GREEK CAPITAL LETTER NU"), (0x39e, "GREEK CAPITAL LETTER XI"),
  (0x39f, "GREEK CAPITAL LETTER OMICRON"), (0x3a0, "GREEK CAPITAL LETTER PI"),
  (0x3a1, "GREEK CAPITAL LETTER RHO"), (0x3a3, "GREEK CAPITAL LETTER SIGMA"),
  (0x3a4, "GREEK CAPITAL LETTER TAU"), (0x3a5, "GREEK CAPITAL LETTER UPSILON"),
  (0x3a6, "GREEK CAPITAL LETTER PHI"), (0x3a7, "GREEK CAPITAL LETTER CHI"),
  (0x3a8, "GREEK CAPITAL LETTER PSI"), (0x3a9, "GREEK CAPITAL LETTER OMEGA"),
  (0x3b1, "GREEK SMALL LETTER ALPHA"), (0x3b2, "GREEK SMALL LETTER BETA"),
  (0x3b3, "GREEK SMALL LETTER GAMMA"), (0x3b4, "GREEK SMALL LETTER DELTA"),
  (0x3b5, "GREEK SMALL LETTER EPSILON"), (0x3b6, "GREEK SMALL LETTER ZETA"),
  (0x3b7, "GREEK SMALL LETTER ETA"), (0x3b8, "GREEK SMALL LETTER THETA"),
  (0x3b9, "GREEK SMALL LETTER IOTA"), (0x3ba, "GREEK SMALL LETTER KAPPA"),
  (0x3bb, "GREEK SMALL LETTER LAMDA"), (0x3bc, "GREEK SMALL LETTER MU"),
  (0x3bd, "GREEK SMALL LETTER NU"), (0x3be, "GREEK SMALL LETTER XI"),
  (0x3bf, "GREEK SMALL LETTER OMICRON"), (0x3c0, "GREEK SMALL LETTER PI"),
  (0x3c1, "GREEK SMALL LETTER RHO"), (0x3c2, "GREEK SMALL LETTER FINAL SIGMA"),
  (0x3c3, "GREEK SMALL LETTER SIGMA"), (0x3c4, "GREEK SMALL LETTER TAU"),
  (0x3c5, "GREEK SMALL LETTER UPSILON"), (0x3c6, "GREEK SMALL LETTER PHI"),
  (0x3c7, "GREEK SMALL LETTER CHI"), (0x3c8, "GREEK SMALL LETTER PSI"),
  (0x3c9, "GREEK SMALL LETTER OMEGA")]

/-- The names of Latin and Greek letters and of punctuation, in any case. -/
@[reducible] def latinAndGreek : CharacterNames where
  char? name :=
    let name := name.map Char.toUpper
    (latinAndGreekNames.find? fun entry => entry.2.toList == name).map fun entry =>
      Char.ofNat entry.1

end CharacterNames

end HardcodedText
