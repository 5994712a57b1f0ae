import NumberWords.Descriptor

/-!
The words of Brazilian Portuguese.
-/

namespace NumberWords
namespace Descriptor

def brazilianPortuguese : Descriptor where
  tensSeparator := " e "
  tailSeparator := "e "
  base := { entries :=
    [(0, "zero"), (1, "um"), (2, "dois"), (3, "três"), (4, "quatro"), (5, "cinco"), (6, "seis"),
     (7, "sete"), (8, "oito"), (9, "nove"), (10, "dez"), (11, "onze"), (12, "doze"), (13, "treze"),
     (14, "catorze"), (15, "quinze"), (16, "dezesseis"), (17, "dezessete"), (18, "dezoito"),
     (19, "dezenove"), (20, "vinte"), (30, "trinta"), (40, "quarenta"), (50, "cinquenta"),
     (60, "sessenta"), (70, "setenta"), (80, "oitenta"), (90, "noventa"), (100, "cem"),
     (200, "duzentos"), (300, "trezentos"), (400, "quatrocentos"), (500, "quinhentos"),
     (600, "seiscentos"), (700, "setecentos"), (800, "oitocentos"), (900, "novecentos")] }
  units := .ordered
    [.inflected
        { singular := "cento", compound := true, compoundExceptions := [1],
          exceptionsNeedTail := true },
      .inflected { singular := "mil", bareCounts := [1] },
      .inflected { singular := "milhão", plural := some "milhões" },
      .inflected { singular := "bilhão", plural := some "bilhões" },
      .inflected { singular := "trilhão", plural := some "trilhões" },
      .inflected { singular := "quatrilhão", plural := some "quatrilhões" },
      .inflected { singular := "quintilhão", plural := some "quintilhões" },
      .inflected { singular := "sextilhão", plural := some "sextilhões" },
      .inflected { singular := "septilhão", plural := some "septilhões" },
      .inflected { singular := "octilhão", plural := some "octilhões" },
      .inflected { singular := "nonilhão", plural := some "nonilhões" },
      .inflected { singular := "decilhão", plural := some "decilhões" }]
  joinsTail := true

end Descriptor
end NumberWords
