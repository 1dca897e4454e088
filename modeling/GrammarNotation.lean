import GrammarNotation.Canonical
import GrammarNotation.Grammar.ReferencedTokens
import GrammarNotation.Session
import GrammarNotation.Report.Basic
import GrammarNotation.Proofs.Literal
import GrammarNotation.Proofs.Spelling
import GrammarNotation.Proofs.Form
import GrammarNotation.Proofs.LexemeReading
import GrammarNotation.Proofs.ProductionReading
import GrammarNotation.Proofs.Following
import GrammarNotation.Proofs.SectionForm
import GrammarNotation.Proofs.SectionReading
import GrammarNotation.Proofs.DocumentReading
import GrammarNotation.Proofs.ProductionText
import GrammarNotation.Proofs.FormSpelling
import GrammarNotation.Proofs.Collapsed
import GrammarNotation.Proofs.LineEndings
import GrammarNotation.Proofs.WrittenForm
import GrammarNotation.Proofs.LayoutText
import GrammarNotation.Proofs.LayoutForm
import GrammarNotation.Proofs.RoundTrip
import GrammarNotation.Proofs.LastToken
import GrammarNotation.Proofs.PlaceOrder
import GrammarNotation.Proofs.ErrorPlace
import GrammarNotation.Proofs.Parts
import GrammarNotation.Proofs.TextOrder
import GrammarNotation.Proofs.Blocks
import GrammarNotation.Proofs.Relocation
import GrammarNotation.Proofs.Delimiting
import GrammarNotation.Proofs.Truncation
import GrammarNotation.Proofs.CanonicalText
import GrammarNotation.Proofs.RuleText
import GrammarNotation.Proofs.RuleLists
import GrammarNotation.Proofs.Scanning
import GrammarNotation.Proofs.Sessions
import GrammarNotation.Proofs.NestingLimit
import GrammarNotation.Proofs.LabelRange
import GrammarNotation.Proofs.InnerForms
import GrammarNotation.Proofs.SignRuns
import GrammarNotation.Proofs.TreeHeight
import GrammarNotation.Proofs.InsertionOrder
import GrammarNotation.Proofs.TableEntries
import GrammarNotation.Proofs.EntryLines
import GrammarNotation.Proofs.Progress
import GrammarNotation.Proofs.Budget
import GrammarNotation.Proofs.ReadingCost
import GrammarNotation.Proofs.LineFeeds
import GrammarNotation.Proofs.PrintedEndings
import GrammarNotation.Proofs.Terminators
import GrammarNotation.Proofs.Indenting
import GrammarNotation.Proofs.TokenUses
import GrammarNotation.Proofs.Failures
