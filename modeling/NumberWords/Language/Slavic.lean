import NumberWords.Descriptor

/-!
The words of Russian and of Ukrainian, whose units agree with their counts alike.
-/

namespace NumberWords
namespace Descriptor
namespace Slavic

/-- Counts below one thousand that end in 11, 12, 13 or 14. -/
def teens : List UInt64 :=
  [11, 12, 13, 14, 111, 112, 113, 114, 211, 212, 213, 214, 311, 312, 313, 314, 411, 412, 413, 414,
   511, 512, 513, 514, 611, 612, 613, 614, 711, 712, 713, 714, 811, 812, 813, 814, 911, 912, 913,
   914]

/-- A unit word in the forms of one, of few and of many. -/
def declined (singular few plural : String) : InflectedUnit :=
  { singular, few := some few, plural := some plural, singularEnding := true, fewEnding := true,
    endingExceptions := teens }

end Slavic

def russian : Descriptor where
  tensSeparator := " "
  tailSeparator := ""
  base := { entries :=
    [(0, "ноль"), (1, "один"), (2, "два"), (3, "три"), (4, "четыре"), (5, "пять"), (6, "шесть"),
     (7, "семь"), (8, "восемь"), (9, "девять"), (10, "десять"), (11, "одиннадцать"),
     (12, "двенадцать"), (13, "тринадцать"), (14, "четырнадцать"), (15, "пятнадцать"),
     (16, "шестнадцать"), (17, "семнадцать"), (18, "восемнадцать"), (19, "девятнадцать"),
     (20, "двадцать"), (30, "тридцать"), (40, "сорок"), (50, "пятьдесят"), (60, "шестьдесят"),
     (70, "семьдесят"), (80, "восемьдесят"), (90, "девяносто"), (100, "сто"), (200, "двести"),
     (300, "триста"), (400, "четыреста"), (500, "пятьсот"), (600, "шестьсот"), (700, "семьсот"),
     (800, "восемьсот"), (900, "девятьсот")] }
  alternatives := { entries := [("feminine", { entries := [(1, "одна"), (2, "две")] })] }
  units := .ordered
    [.inflected { singular := "сто", compound := true },
      .inflected { Slavic.declined "тысяча" "тысячи" "тысяч" with countBase := some "feminine" },
      .inflected (Slavic.declined "миллион" "миллиона" "миллионов"),
      .inflected (Slavic.declined "миллиард" "миллиарда" "миллиардов"),
      .inflected (Slavic.declined "триллион" "триллиона" "триллионов"),
      .inflected (Slavic.declined "квадриллион" "квадриллиона" "квадриллионов"),
      .inflected (Slavic.declined "квинтиллион" "квинтиллиона" "квинтиллионов"),
      .inflected (Slavic.declined "секстиллион" "секстиллиона" "секстиллионов"),
      .inflected (Slavic.declined "септиллион" "септиллиона" "септиллионов"),
      .inflected (Slavic.declined "октиллион" "октиллиона" "октиллионов"),
      .inflected (Slavic.declined "нониллион" "нониллиона" "нониллионов"),
      .inflected (Slavic.declined "дециллион" "дециллиона" "дециллионов")]

def ukrainian : Descriptor where
  tensSeparator := " "
  tailSeparator := ""
  base := { entries :=
    [(0, "нуль"), (1, "один"), (2, "два"), (3, "три"), (4, "чотири"), (5, "п'ять"), (6, "шість"),
     (7, "сім"), (8, "вісім"), (9, "дев'ять"), (10, "десять"), (11, "одинадцять"),
     (12, "дванадцять"), (13, "тринадцять"), (14, "чотирнадцять"), (15, "п'ятнадцять"),
     (16, "шістнадцять"), (17, "сімнадцять"), (18, "вісімнадцять"), (19, "дев'ятнадцять"),
     (20, "двадцять"), (30, "тридцять"), (40, "сорок"), (50, "п'ятдесят"), (60, "шістдесят"),
     (70, "сімдесят"), (80, "вісімдесят"), (90, "дев'яносто"), (100, "сто"), (200, "двісті"),
     (300, "триста"), (400, "чотириста"), (500, "п'ятсот"), (600, "шістсот"), (700, "сімсот"),
     (800, "вісімсот"), (900, "дев'ятсот")] }
  alternatives := { entries := [("feminine", { entries := [(1, "одна"), (2, "дві")] })] }
  units := .ordered
    [.inflected { singular := "сто", compound := true },
      .inflected { Slavic.declined "тисяча" "тисячі" "тисяч" with countBase := some "feminine" },
      .inflected (Slavic.declined "мільйон" "мільйони" "мільйонів"),
      .inflected (Slavic.declined "мільярд" "мільярди" "мільярдів"),
      .inflected (Slavic.declined "трильйон" "трильйони" "трильйонів"),
      .inflected (Slavic.declined "квадрильйон" "квадрильйони" "квадрильйонів"),
      .inflected (Slavic.declined "квінтильйон" "квінтильйони" "квінтильйонів"),
      .inflected (Slavic.declined "секстильйон" "секстильйони" "секстильйонів"),
      .inflected (Slavic.declined "септильйон" "септильйони" "септильйонів"),
      .inflected (Slavic.declined "октильйон" "октильйони" "октильйонів"),
      .inflected (Slavic.declined "нонільйон" "нонільйони" "нонільйонів"),
      .inflected (Slavic.declined "децильйон" "децильйони" "децильйонів")]

end Descriptor
end NumberWords
