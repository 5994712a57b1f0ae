import NumberWords.Descriptor

/-!
The words of Hungarian.
-/

namespace NumberWords
namespace Descriptor

def hungarian : Descriptor where
  tensSeparator := ""
  tailSeparator := ""
  base := { entries :=
    [(0, "nulla"), (1, "egy"), (2, "kettő"), (3, "három"), (4, "négy"), (5, "öt"), (6, "hat"),
     (7, "hét"), (8, "nyolc"), (9, "kilenc"), (10, "tíz"), (11, "tizenegy"), (12, "tizenkettő"),
     (13, "tizenhárom"), (14, "tizennégy"), (15, "tizenöt"), (16, "tizenhat"), (17, "tizenhét"),
     (18, "tizennyolc"), (19, "tizenkilenc"), (20, "húsz"), (21, "huszonegy"), (22, "huszonkettő"),
     (23, "huszonhárom"), (24, "huszonnégy"), (25, "huszonöt"), (26, "huszonhat"),
     (27, "huszonhét"), (28, "huszonnyolc"), (29, "huszonkilenc"), (30, "harminc"), (40, "negyven"),
     (50, "ötven"), (60, "hatvan"), (70, "hetven"), (80, "nyolcvan"), (90, "kilencven")] }
  alternatives := { entries := [("prefix", { entries := [(2, "két")] })] }
  units := .ordered
    [.inflected { singular := "száz", bareCounts := [1], countBase := some "prefix" },
      .inflected { singular := "ezer", bareCounts := [1], countBase := some "prefix" },
      .inflected { singular := "millió", countBase := some "prefix" },
      .inflected { singular := "milliárd", countBase := some "prefix" },
      .inflected { singular := "billió", countBase := some "prefix" },
      .inflected { singular := "billiárd", countBase := some "prefix" },
      .inflected { singular := "trillió", countBase := some "prefix" },
      .inflected { singular := "trilliárd", countBase := some "prefix" },
      .inflected { singular := "kvadrillió", countBase := some "prefix" },
      .inflected { singular := "kvadrilliárd", countBase := some "prefix" },
      .inflected { singular := "kvintillió", countBase := some "prefix" },
      .inflected { singular := "kvintilliárd", countBase := some "prefix" },
      .inflected { singular := "szextillió", countBase := some "prefix" }]

end Descriptor
end NumberWords
