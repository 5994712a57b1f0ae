import NumberWords.Descriptor

/-!
The words of Turkish.
-/

namespace NumberWords
namespace Descriptor

def turkish : Descriptor where
  tensSeparator := " "
  tailSeparator := ""
  base := { entries :=
    [(0, "sıfır"), (1, "bir"), (2, "iki"), (3, "üç"), (4, "dört"), (5, "beş"), (6, "altı"),
     (7, "yedi"), (8, "sekiz"), (9, "dokuz"), (10, "on"), (20, "yirmi"), (30, "otuz"), (40, "kırk"),
     (50, "elli"), (60, "altmış"), (70, "yetmiş"), (80, "seksen"), (90, "doksan")] }
  units := .ordered
    [.inflected { singular := "yüz", bareCounts := [1] },
      .inflected { singular := "bin", bareCounts := [1] },
      .plain "milyon",
      .plain "milyar",
      .plain "trilyon",
      .plain "katrilyon",
      .plain "kentilyon",
      .plain "seksilyon",
      .plain "septilyon",
      .plain "oktilyon",
      .plain "nonilyon",
      .plain "desilyon",
      .plain "andesilyon",
      .plain "dodesilyon",
      .plain "tredesilyon",
      .plain "katordesilyon",
      .plain "kendesilyon"]

end Descriptor
end NumberWords
