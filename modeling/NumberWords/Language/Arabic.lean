import NumberWords.Descriptor

/-!
The words of Arabic.
-/

namespace NumberWords
namespace Descriptor

/-- A unit word in the forms of one, of two and of three to ten.  For one and two it needs no
count. -/
def Arabic.declined (singular dual plural : String) : InflectedUnit :=
  { singular, dual := some dual, plural := some plural, bareCounts := [1, 2],
    pluralUpToTen := true }

def arabic : Descriptor where
  tensSeparator := " و"
  tailSeparator := ""
  chunkSeparator := some "و"
  base := { entries :=
    [(0, "صفر"), (1, "واحد"), (2, "اثنان"), (3, "ثلاثة"), (4, "أربعة"), (5, "خمسة"), (6, "ستة"),
     (7, "سبعة"), (8, "ثمانية"), (9, "تسعة"), (10, "عشرة"), (11, "أحد عشر"), (12, "اثنا عشر"),
     (13, "ثلاثة عشر"), (14, "أربعة عشر"), (15, "خمسة عشر"), (16, "ستة عشر"), (17, "سبعة عشر"),
     (18, "ثمانية عشر"), (19, "تسعة عشر"), (20, "عشرون"), (30, "ثلاثون"), (40, "أربعون"),
     (50, "خمسون"), (60, "ستون"), (70, "سبعون"), (80, "ثمانون"), (90, "تسعون")] }
  units := .ordered
    [.inflected (Arabic.declined "مائة" "مئتان" "مئات"),
      .inflected (Arabic.declined "ألف" "ألفان" "آلاف"),
      .inflected (Arabic.declined "مليون" "مليونان" "ملايين"),
      .inflected (Arabic.declined "مليار" "ملياران" "مليارات"),
      .inflected (Arabic.declined "تريليون" "تريليونان" "تريليونات"),
      .inflected (Arabic.declined "كوادريليون" "كوادريليونان" "كوادريليونات"),
      .inflected (Arabic.declined "كوينتليون" "كوينتليونان" "كوينتليونات"),
      .inflected (Arabic.declined "سكستيليون" "سكستيليونان" "سكستيليونات"),
      .inflected (Arabic.declined "سبتيليون" "سبتيليونان" "سبتيليونات"),
      .inflected (Arabic.declined "أوكتيليون" "أوكتيليونان" "أوكتيليونات"),
      .inflected (Arabic.declined "نونيليون" "نونيليونان" "نونيليونات"),
      .inflected (Arabic.declined "ديسيليون" "ديسيليونان" "ديسيليونات")]

end Descriptor
end NumberWords
