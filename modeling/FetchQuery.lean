import FetchQuery.Main
import FetchQuery.Proofs.Acceptance
import FetchQuery.Proofs.ErrorWindow
import FetchQuery.Proofs.Fetch.CommentBody
import FetchQuery.Proofs.Fetch.Contents
import FetchQuery.Proofs.Fetch.Defects
import FetchQuery.Proofs.Fetch.DocumentLayout
import FetchQuery.Proofs.Fetch.ElementReading
import FetchQuery.Proofs.Fetch.FilterContents
import FetchQuery.Proofs.Fetch.FilterMeaning
import FetchQuery.Proofs.Fetch.FilterReading
import FetchQuery.Proofs.Fetch.FilterShape
import FetchQuery.Proofs.Fetch.HyphenRuns
import FetchQuery.Proofs.Fetch.LinkAddresses
import FetchQuery.Proofs.Fetch.LinkNesting
import FetchQuery.Proofs.Fetch.Pruning
import FetchQuery.Proofs.Fetch.QuietStatement
import FetchQuery.Proofs.Fetch.Reparsing
import FetchQuery.Proofs.Fetch.ResultAliases
import FetchQuery.Proofs.Fetch.Returned
import FetchQuery.Proofs.Fetch.Rewriting
import FetchQuery.Proofs.Fetch.SortStability
import FetchQuery.Proofs.Fetch.SortTargets
import FetchQuery.Proofs.Fetch.StatementReading
import FetchQuery.Proofs.Fetch.WrittenContents
import FetchQuery.Proofs.Fetch.WrittenStrings
import FetchQuery.Proofs.FixedPoint
import FetchQuery.Proofs.HandingOut
import FetchQuery.Proofs.Holders
import FetchQuery.Proofs.JoinForest
import FetchQuery.Proofs.JoinOrientation
import FetchQuery.Proofs.LiteralTyping
import FetchQuery.Proofs.Numbers
import FetchQuery.Proofs.QualifiedSort
import FetchQuery.Proofs.ReadBack
import FetchQuery.Proofs.Registration
import FetchQuery.Proofs.Scope
import FetchQuery.Proofs.SelectList
import FetchQuery.Proofs.SortOrder
import FetchQuery.Proofs.Sql.Accepted
import FetchQuery.Proofs.Sql.Formatting
import FetchQuery.Proofs.Sql.Grammar
import FetchQuery.Proofs.Sql.InStep
import FetchQuery.Proofs.Sql.InStepClauses
import FetchQuery.Proofs.Sql.InStepStatement
import FetchQuery.Proofs.Sql.Leniency
import FetchQuery.Proofs.Sql.Outcomes
import FetchQuery.Proofs.Sql.Passing
import FetchQuery.Proofs.Sql.Phrases
import FetchQuery.Proofs.Sql.PlainText
import FetchQuery.Proofs.Sql.Precedence
import FetchQuery.Proofs.Sql.Reading
import FetchQuery.Proofs.Sql.ReadingConditions
import FetchQuery.Proofs.Sql.ReadingJoins
import FetchQuery.Proofs.Sql.ReadingSelect
import FetchQuery.Proofs.Sql.RoundTrip
import FetchQuery.Proofs.Sql.SortClause
import FetchQuery.Proofs.Text.Classes
import FetchQuery.Proofs.Text.Lines
import FetchQuery.Proofs.Token.Cuts
import FetchQuery.Proofs.Token.Layout
import FetchQuery.Proofs.Token.Lexemes
import FetchQuery.Proofs.Token.Quoting
import FetchQuery.Proofs.Token.Respacing
import FetchQuery.Proofs.Token.Spelling
import FetchQuery.Proofs.WellBound
import FetchQuery.Proofs.WindowBounds
import FetchQuery.Proofs.Xml.Documents
import FetchQuery.Proofs.Xml.Tags
import FetchQuery.Proofs.Xml.Trees
