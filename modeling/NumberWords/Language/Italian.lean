import NumberWords.Descriptor

/-!
The words of Italian.
-/

namespace NumberWords
namespace Descriptor

def italian : Descriptor where
  tensSeparator := ""
  tailSeparator := ""
  base := { entries :=
    [(0, "zero"), (1, "uno"), (2, "due"), (3, "tre"), (4, "quattro"), (5, "cinque"), (6, "sei"),
     (7, "sette"), (8, "otto"), (9, "nove"), (10, "dieci"), (11, "undici"), (12, "dodici"),
     (13, "tredici"), (14, "quattordici"), (15, "quindici"), (16, "sedici"), (17, "diciassette"),
     (18, "diciotto"), (19, "diciannove"), (20, "venti"), (21, "ventuno"), (23, "ventitré"),
     (28, "ventotto"), (30, "trenta"), (31, "trentuno"), (33, "trentatré"), (38, "trentotto"),
     (40, "quaranta"), (41, "quarantuno"), (43, "quarantatré"), (48, "quarantotto"),
     (50, "cinquanta"), (51, "cinquantuno"), (53, "cinquantatré"), (58, "cinquantotto"),
     (60, "sessanta"), (61, "sessantuno"), (63, "sessantatré"), (68, "sessantotto"),
     (70, "settanta"), (71, "settantuno"), (73, "settantatré"), (78, "settantotto"),
     (80, "ottanta"), (81, "ottantuno"), (83, "ottantatré"), (88, "ottantotto"), (90, "novanta"),
     (91, "novantuno"), (93, "novantatré"), (98, "novantotto"), (100, "cento"), (200, "duecento"),
     (300, "trecento"), (400, "quattrocento"), (500, "cinquecento"), (600, "seicento"),
     (700, "settecento"), (800, "ottocento"), (900, "novecento")] }
  alternatives := { entries := [("apocopated", { entries := [(1, "un")] })] }
  units := .ordered
    [.inflected { singular := "cento", compound := true },
      .inflected { singular := "mille", plural := some "mila", bareCounts := [1] },
      .inflected
        { singular := "milione", plural := some "milioni", countBase := some "apocopated" },
      .inflected
        { singular := "miliardo", plural := some "miliardi", countBase := some "apocopated" },
      .inflected
        { singular := "bilione", plural := some "bilioni", countBase := some "apocopated" },
      .inflected
        { singular := "biliardo", plural := some "biliardi", countBase := some "apocopated" },
      .inflected
        { singular := "trilione", plural := some "trilioni", countBase := some "apocopated" },
      .inflected
        { singular := "triliardo", plural := some "triliardi", countBase := some "apocopated" },
      .inflected
        { singular := "quadrilione", plural := some "quadrilioni", countBase := some "apocopated" },
      .inflected
        { singular := "quadriliardo", plural := some "quadriliardi",
          countBase := some "apocopated" },
      .inflected
        { singular := "quintilione", plural := some "quintilioni", countBase := some "apocopated" },
      .inflected
        { singular := "quintiliardo", plural := some "quintiliardi",
          countBase := some "apocopated" },
      .inflected
        { singular := "sestilione", plural := some "sestilioni", countBase := some "apocopated" }]

end Descriptor
end NumberWords
