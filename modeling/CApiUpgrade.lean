import CApiUpgrade.Backup
import CApiUpgrade.Catalog
import CApiUpgrade.Catalog.Allocation
import CApiUpgrade.Catalog.Chain
import CApiUpgrade.Catalog.Field
import CApiUpgrade.Catalog.Reference
import CApiUpgrade.Catalog.Singleton
import CApiUpgrade.CommandLine.Parser
import CApiUpgrade.CommandLine.Switch
import CApiUpgrade.CommandLine.Usage
import CApiUpgrade.Config
import CApiUpgrade.Diff.Compaction
import CApiUpgrade.Diff.Edit
import CApiUpgrade.Diff.Script
import CApiUpgrade.Diff.Unified
import CApiUpgrade.Discovery
import CApiUpgrade.Encoding
import CApiUpgrade.Exclusion
import CApiUpgrade.Glob
import CApiUpgrade.Header
import CApiUpgrade.Job
import CApiUpgrade.Main
import CApiUpgrade.Patch
import CApiUpgrade.Path
import CApiUpgrade.Pattern
import CApiUpgrade.Proofs.Agreement
import CApiUpgrade.Proofs.Alignment
import CApiUpgrade.Proofs.AllOrNothing
import CApiUpgrade.Proofs.Allocators
import CApiUpgrade.Proofs.Budget
import CApiUpgrade.Proofs.CarriageReturns
import CApiUpgrade.Proofs.ChainGrammar
import CApiUpgrade.Proofs.ChainReads
import CApiUpgrade.Proofs.ChainStarts
import CApiUpgrade.Proofs.ChainUpgrades
import CApiUpgrade.Proofs.Characters
import CApiUpgrade.Proofs.Control
import CApiUpgrade.Proofs.Debt
import CApiUpgrade.Proofs.DiffExactness
import CApiUpgrade.Proofs.DiffReading
import CApiUpgrade.Proofs.DirectoryExclusions
import CApiUpgrade.Proofs.Edge
import CApiUpgrade.Proofs.EditScripts
import CApiUpgrade.Proofs.Evaluation
import CApiUpgrade.Proofs.Finding
import CApiUpgrade.Proofs.FirstWays
import CApiUpgrade.Proofs.Folding
import CApiUpgrade.Proofs.History
import CApiUpgrade.Proofs.Hunks
import CApiUpgrade.Proofs.Idioms
import CApiUpgrade.Proofs.InPlace
import CApiUpgrade.Proofs.Inclusion
import CApiUpgrade.Proofs.KeptValues
import CApiUpgrade.Proofs.LineEnds
import CApiUpgrade.Proofs.LinePatterns
import CApiUpgrade.Proofs.Links
import CApiUpgrade.Proofs.Listings
import CApiUpgrade.Proofs.Locality
import CApiUpgrade.Proofs.Lookups
import CApiUpgrade.Proofs.Modes
import CApiUpgrade.Proofs.Nesting
import CApiUpgrade.Proofs.Overlap
import CApiUpgrade.Proofs.Paragraphs
import CApiUpgrade.Proofs.Parentheses
import CApiUpgrade.Proofs.Pass
import CApiUpgrade.Proofs.Patching
import CApiUpgrade.Proofs.Payment
import CApiUpgrade.Proofs.Places
import CApiUpgrade.Proofs.Preference
import CApiUpgrade.Proofs.Reads
import CApiUpgrade.Proofs.Renaming
import CApiUpgrade.Proofs.Repetition
import CApiUpgrade.Proofs.Replay
import CApiUpgrade.Proofs.SafeReplacement
import CApiUpgrade.Proofs.Selection
import CApiUpgrade.Proofs.SideBySide
import CApiUpgrade.Proofs.Spelled
import CApiUpgrade.Proofs.Spelling
import CApiUpgrade.Proofs.Statements
import CApiUpgrade.Proofs.StepsBack
import CApiUpgrade.Proofs.Stores
import CApiUpgrade.Proofs.Surroundings
import CApiUpgrade.Proofs.Survival
import CApiUpgrade.Proofs.Tracking
import CApiUpgrade.Proofs.Transparency
import CApiUpgrade.Proofs.Unbraced
import CApiUpgrade.Proofs.Visits
import CApiUpgrade.Proofs.Walks
import CApiUpgrade.Proofs.Ways
import CApiUpgrade.Proofs.WholeTexts
import CApiUpgrade.Regex.Anchor
import CApiUpgrade.Regex.Assembly
import CApiUpgrade.Regex.Automaton
import CApiUpgrade.Regex.Basic
import CApiUpgrade.Regex.Bracket
import CApiUpgrade.Regex.Class
import CApiUpgrade.Regex.Cursor
import CApiUpgrade.Regex.Error
import CApiUpgrade.Regex.Escape
import CApiUpgrade.Regex.Flags
import CApiUpgrade.Regex.Footprint
import CApiUpgrade.Regex.Matcher
import CApiUpgrade.Regex.Opening
import CApiUpgrade.Regex.Parser
import CApiUpgrade.Regex.Plan
import CApiUpgrade.Regex.Search
import CApiUpgrade.Regex.Source
import CApiUpgrade.Report
import CApiUpgrade.Rule
import CApiUpgrade.RuleSet
import CApiUpgrade.Run
import CApiUpgrade.SourceFile
import CApiUpgrade.Store.Access
import CApiUpgrade.Store.Basic
import CApiUpgrade.Store.Resolution
import CApiUpgrade.Template
import CApiUpgrade.Text.BinaryProperty
import CApiUpgrade.Text.Blank
import CApiUpgrade.Text.CaseFold
import CApiUpgrade.Text.Decimal
import CApiUpgrade.Text.Digit
import CApiUpgrade.Text.GeneralCategory
import CApiUpgrade.Text.Hexadecimal
import CApiUpgrade.Text.Lines
import CApiUpgrade.Text.Listing
import CApiUpgrade.Text.Occurrence
import CApiUpgrade.Text.Property
import CApiUpgrade.Text.Quoted
import CApiUpgrade.Text.Ranges
import CApiUpgrade.Text.Script
import CApiUpgrade.Text.ScriptExtension
import CApiUpgrade.Text.Utf8
import CApiUpgrade.Text.Visible
import CApiUpgrade.Text.Word
import CApiUpgrade.Toml.Document
import CApiUpgrade.Toml.Number
import CApiUpgrade.Toml.Text
import CApiUpgrade.Toml.Value
