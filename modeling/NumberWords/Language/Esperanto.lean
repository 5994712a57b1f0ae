import NumberWords.Descriptor

/-!
The words of Esperanto.
-/

namespace NumberWords
namespace Descriptor

def esperanto : Descriptor where
  tensSeparator := " "
  tailSeparator := ""
  base := { entries :=
    [(0, "nulo"), (1, "unu"), (2, "du"), (3, "tri"), (4, "kvar"), (5, "kvin"), (6, "ses"),
     (7, "sep"), (8, "ok"), (9, "naŭ"), (10, "dek"), (20, "dudek"), (30, "tridek"), (40, "kvardek"),
     (50, "kvindek"), (60, "sesdek"), (70, "sepdek"), (80, "okdek"), (90, "naŭdek"), (100, "cent"),
     (200, "ducent"), (300, "tricent"), (400, "kvarcent"), (500, "kvincent"), (600, "sescent"),
     (700, "sepcent"), (800, "okcent"), (900, "naŭcent")] }
  units := .ordered
    [.inflected { singular := "cent", compound := true },
      .inflected { singular := "mil", bareCounts := [1] },
      .inflected { singular := "miliono", plural := some "milionoj" },
      .inflected { singular := "miliardo", plural := some "miliardoj" },
      .inflected { singular := "biliono", plural := some "bilionoj" },
      .inflected { singular := "biliardo", plural := some "biliardoj" },
      .inflected { singular := "triliono", plural := some "trilionoj" },
      .inflected { singular := "triliardo", plural := some "triliardoj" },
      .inflected { singular := "kvadriliono", plural := some "kvadrilionoj" },
      .inflected { singular := "kvadriliardo", plural := some "kvadriliardoj" },
      .inflected { singular := "kvintiliono", plural := some "kvintilionoj" },
      .inflected { singular := "kvintiliardo", plural := some "kvintiliardoj" },
      .inflected { singular := "sekstiliono", plural := some "sekstilionoj" }]

end Descriptor
end NumberWords
