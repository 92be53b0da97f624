import Observable.Build.Run
import Observable.Proofs.Pass.Cancellation
import Observable.Proofs.Output.Members
import Observable.Proofs.Output.Canonical
import Observable.Proofs.Field.Declared
import Observable.Proofs.Field.Scan
import Observable.Proofs.Output.Grouping
import Observable.Proofs.Pass.Conservation
import Observable.Proofs.Pass.History
import Observable.Proofs.Pass.Account
import Observable.Proofs.Output.Independence
import Observable.Proofs.Text.Quoted
import Observable.Proofs.Token.Eased
import Observable.Proofs.Token.Spelling
import Observable.Proofs.Token.Tame
import Observable.Proofs.Layout.Spelling
import Observable.Proofs.Layout.Conservation
import Observable.Proofs.Grammar.Reading
import Observable.Proofs.Grammar.Listing
import Observable.Proofs.Property.Identifier
import Observable.Proofs.Grammar.PlainType
import Observable.Proofs.Grammar.Paths
import Observable.Proofs.Grammar.Operands
import Observable.Proofs.Grammar.Expressions
import Observable.Proofs.Grammar.Statements
import Observable.Proofs.Grammar.Types
import Observable.Proofs.Grammar.Attributes
import Observable.Proofs.Grammar.Functions
import Observable.Proofs.Grammar.Items
import Observable.Proofs.Output.Reading
import Observable.Proofs.Token.Spelled
import Observable.Proofs.Build.Loading
import Observable.Proofs.Build.Run
import Observable.Proofs.Build.Failure
import Observable.Proofs.Notify.History
import Observable.Proofs.Derive.Agreement
import Observable.Proofs.Pass.Extraction
import Observable.Proofs.Output.Tame
import Observable.Proofs.Layout.Separation
import Observable.Proofs.Module.Resolution
import Observable.Proofs.Output.Collisions
import Observable.Proofs.Output.Keys
import Observable.Proofs.Layout.Documentation
import Observable.Proofs.Module.Ascent
import Observable.Proofs.Output.Partition
import Observable.Proofs.Field.NamePlaces
import Observable.Proofs.Output.Survival
import Observable.Proofs.Layout.Inline
import Observable.Proofs.Layout.Indentation
import Observable.Proofs.Derive.Report
import Observable.Proofs.Property.Usable
import Observable.Module.Bytes
import Observable.Proofs.Property.Derivation
import Observable.Proofs.Module.Correspondence
import Observable.Proofs.Module.Imports
