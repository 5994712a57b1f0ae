import NumberWords.Descriptor

/-!
The words of English, and of Indian English, which has units of its own.
-/

namespace NumberWords
namespace Descriptor

def english : Descriptor where
  tensSeparator := "-"
  tailSeparator := "and "
  base := { entries :=
    [(0, "zero"), (1, "one"), (2, "two"), (3, "three"), (4, "four"), (5, "five"), (6, "six"),
     (7, "seven"), (8, "eight"), (9, "nine"), (10, "ten"), (11, "eleven"), (12, "twelve"),
     (13, "thirteen"), (14, "fourteen"), (15, "fifteen"), (16, "sixteen"), (17, "seventeen"),
     (18, "eighteen"), (19, "nineteen"), (20, "twenty"), (30, "thirty"), (40, "forty"),
     (50, "fifty"), (60, "sixty"), (70, "seventy"), (80, "eighty"), (90, "ninety")] }
  units := .ordered
    [.plain "hundred", .plain "thousand", .plain "million", .plain "billion", .plain "trillion",
     .plain "quadrillion", .plain "quintillion", .plain "sextillion", .plain "septillion",
     .plain "octillion", .plain "nonillion", .plain "decillion", .plain "undecillion",
     .plain "duodecillion", .plain "tredecillion", .plain "quattuordecillion",
     .plain "quindecillion"]

def indianEnglish : Descriptor :=
  { english with
    units := .byExponent { entries :=
      [(2, "hundred"), (3, "thousand"), (5, "lakh"), (7, "crore")] } }

end Descriptor
end NumberWords
