import NumberWords.Descriptor

/-!
The words of Vietnamese.
-/

namespace NumberWords
namespace Descriptor

def vietnamese : Descriptor where
  tensSeparator := " "
  tailSeparator := "và "
  base := { entries :=
    [(0, "không"), (1, "một"), (2, "hai"), (3, "ba"), (4, "bốn"), (5, "năm"), (6, "sáu"),
     (7, "bảy"), (8, "tám"), (9, "chín"), (10, "mười"), (11, "mười một"), (12, "mười hai"),
     (13, "mười ba"), (14, "mười bốn"), (15, "mười lăm"), (16, "mười sáu"), (17, "mười bảy"),
     (18, "mười tám"), (19, "mười chín"), (20, "hai mươi"), (30, "ba mươi"), (40, "bốn mươi"),
     (50, "năm mươi"), (60, "sáu mươi"), (70, "bảy mươi"), (80, "tám mươi"), (90, "chín mươi")] }
  units := .ordered
    [.plain "trăm", .plain "nghìn", .plain "triệu", .plain "tỷ", .plain "nghìn tỷ",
     .plain "triệu tỷ", .plain "tỷ tỷ"]

end Descriptor
end NumberWords
