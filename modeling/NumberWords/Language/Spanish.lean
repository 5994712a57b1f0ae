import NumberWords.Descriptor

/-!
The words of Spanish.
-/

namespace NumberWords
namespace Descriptor

/-- A unit word before which one and twenty-one take their short forms. -/
def Spanish.apocopating (singular plural : String) : InflectedUnit :=
  { singular, plural := some plural, countBase := some "apocopated" }

def spanish : Descriptor where
  longScale := true
  tensSeparator := " y "
  tailSeparator := ""
  base := { entries :=
    [(0, "cero"), (1, "uno"), (2, "dos"), (3, "tres"), (4, "cuatro"), (5, "cinco"), (6, "seis"),
     (7, "siete"), (8, "ocho"), (9, "nueve"), (10, "diez"), (11, "once"), (12, "doce"),
     (13, "trece"), (14, "catorce"), (15, "quince"), (16, "dieciséis"), (17, "diecisiete"),
     (18, "dieciocho"), (19, "diecinueve"), (20, "veinte"), (21, "veintiuno"), (22, "veintidós"),
     (23, "veintitrés"), (24, "veinticuatro"), (25, "veinticinco"), (26, "veintiséis"),
     (27, "veintisiete"), (28, "veintiocho"), (29, "veintinueve"), (30, "treinta"),
     (40, "cuarenta"), (50, "cincuenta"), (60, "sesenta"), (70, "setenta"), (80, "ochenta"),
     (90, "noventa"), (100, "cien"), (200, "doscientos"), (300, "trescientos"),
     (400, "cuatrocientos"), (500, "quinientos"), (600, "seiscientos"), (700, "setecientos"),
     (800, "ochocientos"), (900, "novecientos")] }
  alternatives := { entries := [("apocopated", { entries := [(1, "un"), (21, "veintiún")] })] }
  units := .ordered
    [.inflected
        { singular := "ciento", compound := true, compoundExceptions := [1],
          exceptionsNeedTail := true },
      .inflected { singular := "mil", bareCounts := [1], countBase := some "apocopated" },
      .inflected (Spanish.apocopating "millón" "millones"),
      .inflected (Spanish.apocopating "billón" "billones"),
      .inflected (Spanish.apocopating "trillón" "trillones"),
      .inflected (Spanish.apocopating "cuatrillón" "cuatrillones"),
      .inflected (Spanish.apocopating "quintillón" "quintillones"),
      .inflected (Spanish.apocopating "sextillón" "sextillones"),
      .inflected (Spanish.apocopating "septillón" "septillones"),
      .inflected (Spanish.apocopating "octillón" "octillones"),
      .inflected (Spanish.apocopating "nonillón" "nonillones"),
      .inflected (Spanish.apocopating "decillón" "decillones")]

end Descriptor
end NumberWords
