import NumberWords.Convention
import NumberWords.Descriptor
import NumberWords.Descriptor.Decode
import NumberWords.Descriptor.Encode
import NumberWords.Descriptor.Validity
import NumberWords.Error
import NumberWords.Files.Path
import NumberWords.Files.Store
import NumberWords.Files.Tree
import NumberWords.Json.Lexical
import NumberWords.Json.Printer
import NumberWords.Json.Reader
import NumberWords.Json.Value
import NumberWords.Language
import NumberWords.Language.Arabic
import NumberWords.Language.Azerbaijani
import NumberWords.Language.BrazilianPortuguese
import NumberWords.Language.English
import NumberWords.Language.Esperanto
import NumberWords.Language.EuropeanPortuguese
import NumberWords.Language.French
import NumberWords.Language.Hungarian
import NumberWords.Language.Indonesian
import NumberWords.Language.Italian
import NumberWords.Language.Slavic
import NumberWords.Language.Spanish
import NumberWords.Language.Turkish
import NumberWords.Language.Vietnamese
import NumberWords.Magnitude
import NumberWords.Main
import NumberWords.Number.Binary64
import NumberWords.Number.Numeral
import NumberWords.Number.Shortest
import NumberWords.Proofs.Descriptor.Exponents
import NumberWords.Proofs.Descriptor.Loading
import NumberWords.Proofs.Descriptor.RoundTrip
import NumberWords.Proofs.Descriptor.UnitFields
import NumberWords.Proofs.Descriptor.Units
import NumberWords.Proofs.Descriptor.UnitsFault
import NumberWords.Proofs.Fallible
import NumberWords.Proofs.Files.Path
import NumberWords.Proofs.Files.Store
import NumberWords.Proofs.Form
import NumberWords.Proofs.Json.Faults
import NumberWords.Proofs.Json.Lexical
import NumberWords.Proofs.Json.Lockstep
import NumberWords.Proofs.Json.Reader
import NumberWords.Proofs.Json.Skipping
import NumberWords.Proofs.Json.Typed
import NumberWords.Proofs.Language
import NumberWords.Proofs.Machine.Spelling
import NumberWords.Proofs.Magnitude
import NumberWords.Proofs.Number.Pattern
import NumberWords.Proofs.Reading
import NumberWords.Proofs.Scale.Ladder
import NumberWords.Proofs.Scale.Table
import NumberWords.Proofs.Session
import NumberWords.Proofs.SortedMap
import NumberWords.Proofs.Speller.Agreement
import NumberWords.Proofs.Speller.Alike
import NumberWords.Proofs.Speller.Choices
import NumberWords.Proofs.Speller.Chunks
import NumberWords.Proofs.Speller.Conjunction
import NumberWords.Proofs.Speller.Counts
import NumberWords.Proofs.Speller.Depth
import NumberWords.Proofs.Speller.Faults
import NumberWords.Proofs.Speller.Gender
import NumberWords.Proofs.Speller.Keys
import NumberWords.Proofs.Speller.Leftover
import NumberWords.Proofs.Speller.Levels
import NumberWords.Proofs.Speller.Listening
import NumberWords.Proofs.Speller.Lookup
import NumberWords.Proofs.Speller.Neighbours
import NumberWords.Proofs.Speller.Overlay
import NumberWords.Proofs.Speller.Parts
import NumberWords.Proofs.Speller.Period
import NumberWords.Proofs.Speller.PlainUnits
import NumberWords.Proofs.Speller.Portuguese
import NumberWords.Proofs.Speller.Rungs
import NumberWords.Proofs.Speller.Splice
import NumberWords.Proofs.Speller.TopDown
import NumberWords.Proofs.Speller.Unbounded
import NumberWords.Proofs.Speller.Walk
import NumberWords.Proofs.Words
import NumberWords.Reading
import NumberWords.Scale
import NumberWords.Session
import NumberWords.SortedMap
import NumberWords.Speller
import NumberWords.Text
import NumberWords.Unit
import NumberWords.Words
