import ChordSymbol.Main
import ChordSymbol.Lexicon.Json
import ChordSymbol.Proofs.Compatibility
import ChordSymbol.Proofs.Succession
import ChordSymbol.Proofs.AuditTrail
import ChordSymbol.Proofs.RoleEffect
import ChordSymbol.Proofs.WrittenOrder
import ChordSymbol.Proofs.Backing
import ChordSymbol.Proofs.RoleFormula
import ChordSymbol.Proofs.Spelling
import ChordSymbol.Proofs.LongestMatch
import ChordSymbol.Proofs.Cutting
import ChordSymbol.Proofs.LetterCase
import ChordSymbol.Proofs.Admission
import ChordSymbol.Proofs.Stages
import ChordSymbol.Proofs.Repetition
import ChordSymbol.Proofs.Companions
import ChordSymbol.Proofs.Likeness
import ChordSymbol.Proofs.Lossless
import ChordSymbol.Proofs.Rearrangement
import ChordSymbol.Proofs.Coherence
import ChordSymbol.Proofs.Evaluation
import ChordSymbol.Proofs.Canonical
import ChordSymbol.Proofs.SlashCut
import ChordSymbol.Proofs.HandbookAgreement
import ChordSymbol.Proofs.EventOrder
import ChordSymbol.Proofs.Transposition
import ChordSymbol.Proofs.SlashRoutes
import ChordSymbol.Proofs.CsvReading
import ChordSymbol.Proofs.Synonyms
import ChordSymbol.Proofs.DefaultQuality
import ChordSymbol.Proofs.Numerals
import ChordSymbol.Proofs.ReadBack
import ChordSymbol.Proofs.RoleBands
import ChordSymbol.Proofs.GreedyKeeping
import ChordSymbol.Proofs.OwnSpelling
import ChordSymbol.Proofs.RowRecovery
import ChordSymbol.Proofs.ToneNames
import ChordSymbol.Proofs.HeldNumbers
import ChordSymbol.Proofs.DocumentLexicons
import ChordSymbol.Proofs.RoleMachines
import ChordSymbol.Proofs.Tally
import ChordSymbol.Proofs.Extension
import ChordSymbol.Proofs.Separators
