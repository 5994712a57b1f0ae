import NumberWords.Descriptor

/-!
The words of Azerbaijani.
-/

namespace NumberWords
namespace Descriptor

def azerbaijani : Descriptor where
  tensSeparator := " "
  tailSeparator := ""
  base := { entries :=
    [(0, "sıfır"), (1, "bir"), (2, "iki"), (3, "üç"), (4, "dörd"), (5, "beş"), (6, "altı"),
     (7, "yeddi"), (8, "səkkiz"), (9, "doqquz"), (10, "on"), (20, "iyirmi"), (30, "otuz"),
     (40, "qırx"), (50, "əlli"), (60, "altmış"), (70, "yetmiş"), (80, "səksən"), (90, "doxsan")] }
  units := .ordered
    [.inflected { singular := "yüz", bareCounts := [1] },
      .inflected { singular := "min", bareCounts := [1] },
      .plain "milyon",
      .plain "milyard",
      .plain "trilyon",
      .plain "katrilyon",
      .plain "kentilyon",
      .plain "sekstilyon",
      .plain "septilyon",
      .plain "oktilyon",
      .plain "nonilyon",
      .plain "desilyon",
      .plain "undesilyon",
      .plain "dodesilyon",
      .plain "tredesilyon",
      .plain "kattuordesilyon",
      .plain "kendesilyon"]

end Descriptor
end NumberWords
