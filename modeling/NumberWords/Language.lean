import NumberWords.Language.Arabic
import NumberWords.Language.Azerbaijani
import NumberWords.Language.BrazilianPortuguese
import NumberWords.Language.English
import NumberWords.Language.Esperanto
import NumberWords.Language.EuropeanPortuguese
import NumberWords.Language.French
import NumberWords.Language.Hungarian
import NumberWords.Language.Indonesian
import NumberWords.Language.Italian
import NumberWords.Language.Slavic
import NumberWords.Language.Spanish
import NumberWords.Language.Turkish
import NumberWords.Language.Vietnamese

/-!
The built-in languages.
-/

namespace NumberWords

inductive Language where
  | english
  | spanish
  | arabic
  | azerbaijani
  | brazilianPortuguese
  | europeanPortuguese
  | french
  | esperanto
  | italian
  | vietnamese
  | turkish
  | hungarian
  | indianEnglish
  | ukrainian
  | russian
  | indonesian
deriving DecidableEq, Repr

instance : Inhabited Language := ⟨.english⟩

namespace Language

def all : List Language :=
  [.english, .spanish, .arabic, .azerbaijani, .brazilianPortuguese, .europeanPortuguese, .french,
    .esperanto, .italian, .vietnamese, .turkish, .hungarian, .indianEnglish, .ukrainian, .russian,
    .indonesian]

theorem mem_all (l : Language) : l ∈ all := by cases l <;> decide

def code : Language → String
  | .english => "en"
  | .spanish => "es"
  | .arabic => "ar"
  | .azerbaijani => "az"
  | .brazilianPortuguese => "pt"
  | .europeanPortuguese => "ptPT"
  | .french => "fr"
  | .esperanto => "eo"
  | .italian => "it"
  | .vietnamese => "vi"
  | .turkish => "tr"
  | .hungarian => "hu"
  | .indianEnglish => "enIndian"
  | .ukrainian => "uk"
  | .russian => "ru"
  | .indonesian => "id"

/-- The language of a code, which is matched exactly. -/
def ofCode? (code : String) : Option Language := all.find? (·.code == code)

theorem ofCode?_code (l : Language) : ofCode? l.code = some l := by cases l <;> decide

end Language

def Language.descriptor : Language → Descriptor
  | .english => Descriptor.english
  | .spanish => Descriptor.spanish
  | .arabic => Descriptor.arabic
  | .azerbaijani => Descriptor.azerbaijani
  | .brazilianPortuguese => Descriptor.brazilianPortuguese
  | .europeanPortuguese => Descriptor.europeanPortuguese
  | .french => Descriptor.french
  | .esperanto => Descriptor.esperanto
  | .italian => Descriptor.italian
  | .vietnamese => Descriptor.vietnamese
  | .turkish => Descriptor.turkish
  | .hungarian => Descriptor.hungarian
  | .indianEnglish => Descriptor.indianEnglish
  | .ukrainian => Descriptor.ukrainian
  | .russian => Descriptor.russian
  | .indonesian => Descriptor.indonesian

end NumberWords
