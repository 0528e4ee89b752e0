import SearchCriteria.Syntax.Blank
import SearchCriteria.Query.Basic
import SearchCriteria.Query.Text
import SearchCriteria.Query.Sql
import SearchCriteria.Chain
import SearchCriteria.Limits.Basic
import SearchCriteria.Reader.Error
import SearchCriteria.Reader.State
import SearchCriteria.Reader.Step
import SearchCriteria.Reader.Basic
import SearchCriteria.Toml.Value
import SearchCriteria.Toml.Lexical
import SearchCriteria.Toml.Scalar
import SearchCriteria.Toml.Document
import SearchCriteria.Limits.Toml
import SearchCriteria.Reader.WellFormed
import SearchCriteria.Proofs.Climbing
import SearchCriteria.Proofs.Grammar
import SearchCriteria.Proofs.Runs
import SearchCriteria.Proofs.Completeness
import SearchCriteria.Proofs.Prefixes
import SearchCriteria.Proofs.Soundness
import SearchCriteria.Proofs.Reading
import SearchCriteria.Proofs.Canonical
import SearchCriteria.Proofs.SqlGrammar
import SearchCriteria.Proofs.Precedence
import SearchCriteria.Proofs.TighterLimits
import SearchCriteria.Proofs.Completion
import SearchCriteria.Proofs.Refusals
import SearchCriteria.Proofs.BlankRuns
import SearchCriteria.Proofs.KeywordErrors
import SearchCriteria.Proofs.MinimalGroups
import SearchCriteria.Proofs.QuotedOperands
