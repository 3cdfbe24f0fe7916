import GrammarTables.Main
import GrammarTables.Rule.Expression
import GrammarTables.Session
import GrammarTables.Proofs.Json.Nesting
import GrammarTables.Proofs.Grammar.Reachability
import GrammarTables.Proofs.Grammar.RoundTrip
import GrammarTables.Proofs.Grammar.Truncation
import GrammarTables.Proofs.Grammar.Violations
import GrammarTables.Proofs.Load.Acceptance
import GrammarTables.Proofs.Source.Chain
import GrammarTables.Proofs.Load.Holdings
import GrammarTables.Proofs.Load.Interchange
import GrammarTables.Proofs.Json.Document
import GrammarTables.Proofs.Json.Spelled.Scan
import GrammarTables.Proofs.Json.Spelled.Skip
import GrammarTables.Proofs.Json.Denotes
import GrammarTables.Proofs.Json.Spelled.Decode
import GrammarTables.Proofs.Json.Spelled.Record
import GrammarTables.Proofs.Rule.Denotes
import GrammarTables.Proofs.Grammar.Denotes
import GrammarTables.Proofs.Json.Unambiguous
import GrammarTables.Proofs.Json.Determined
import GrammarTables.Proofs.Json.Taken.Scan
import GrammarTables.Proofs.Json.Taken.Skip
import GrammarTables.Proofs.Json.Taken.Decode
import GrammarTables.Proofs.Json.Taken.Record
import GrammarTables.Proofs.Json.Edits
import GrammarTables.Proofs.Rule.Taken
import GrammarTables.Proofs.Rule.Edits
import GrammarTables.Proofs.Grammar.Taken
import GrammarTables.Proofs.Grammar.Edits
import GrammarTables.Proofs.Load.OneShot
import GrammarTables.Proofs.Grammar.Closed
import GrammarTables.Proofs.Grammar.Listing
import GrammarTables.Proofs.Grammar.LeftRecursion
import GrammarTables.Proofs.Rule.Language
import GrammarTables.Proofs.FileTree.Paths
import GrammarTables.Proofs.Source.Places
import GrammarTables.Proofs.Source.Directory
import GrammarTables.Proofs.Source.Missing
import GrammarTables.Proofs.Grammar.StartRules
import GrammarTables.Proofs.Grammar.LostRules
import GrammarTables.Proofs.Grammar.Additions
import GrammarTables.Proofs.Grammar.MixedLevels
import GrammarTables.Proofs.Load.Diagnoses
import GrammarTables.Proofs.CommandLine.Outcome
import GrammarTables.Proofs.Session.Acts
import GrammarTables.Proofs.Session.Sharing
import GrammarTables.Proofs.Rule.Expression
import GrammarTables.Proofs.Grammar.Builder
import GrammarTables.Proofs.Grammar.FailurePlace
import GrammarTables.Proofs.Grammar.Forms
import GrammarTables.Proofs.Load.Names
import GrammarTables.Proofs.Rule.Places
import GrammarTables.Proofs.CommandLine.Flags
import GrammarTables.Proofs.Rule.Values
import GrammarTables.Proofs.Grammar.Values
import GrammarTables.Proofs.Rule.Reading
import GrammarTables.Proofs.Verse.Lists
import GrammarTables.Proofs.Rule.Reading
import GrammarTables.Proofs.Verse.Lists
