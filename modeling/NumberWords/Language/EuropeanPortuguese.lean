import NumberWords.Descriptor

/-!
The words of European Portuguese.
-/

namespace NumberWords
namespace Descriptor

def europeanPortuguese : Descriptor where
  longScale := true
  tensSeparator := " e "
  tailSeparator := "e "
  base := { entries :=
    [(0, "zero"), (1, "um"), (2, "dois"), (3, "três"), (4, "quatro"), (5, "cinco"), (6, "seis"),
     (7, "sete"), (8, "oito"), (9, "nove"), (10, "dez"), (11, "onze"), (12, "doze"), (13, "treze"),
     (14, "catorze"), (15, "quinze"), (16, "dezasseis"), (17, "dezassete"), (18, "dezoito"),
     (19, "dezanove"), (20, "vinte"), (30, "trinta"), (40, "quarenta"), (50, "cinquenta"),
     (60, "sessenta"), (70, "setenta"), (80, "oitenta"), (90, "noventa"), (100, "cem"),
     (200, "duzentos"), (300, "trezentos"), (400, "quatrocentos"), (500, "quinhentos"),
     (600, "seiscentos"), (700, "setecentos"), (800, "oitocentos"), (900, "novecentos")] }
  units := .ordered
    [.inflected
        { singular := "cento", compound := true, compoundExceptions := [1],
          exceptionsNeedTail := true },
      .inflected { singular := "mil", bareCounts := [1] },
      .inflected { singular := "milhão", plural := some "milhões" },
      .inflected { singular := "bilião", plural := some "biliões" },
      .inflected { singular := "trilião", plural := some "triliões" },
      .inflected { singular := "quatrilião", plural := some "quatriliões" },
      .inflected { singular := "quintilião", plural := some "quintiliões" },
      .inflected { singular := "sextilião", plural := some "sextiliões" },
      .inflected { singular := "septilião", plural := some "septiliões" },
      .inflected { singular := "octilião", plural := some "octiliões" },
      .inflected { singular := "nonilião", plural := some "noniliões" },
      .inflected { singular := "decilião", plural := some "deciliões" }]
  joinsTail := true

end Descriptor
end NumberWords
