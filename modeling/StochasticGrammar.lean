import StochasticGrammar.Main
import StochasticGrammar.Proofs.Chart.Bounds
import StochasticGrammar.Proofs.Chart.Leaves
import StochasticGrammar.Proofs.Chart.Locality
import StochasticGrammar.Proofs.Chart.Representation
import StochasticGrammar.Proofs.Chart.Search
import StochasticGrammar.Proofs.Grammar.History
import StochasticGrammar.Proofs.Grammar.Listing
import StochasticGrammar.Proofs.Grammar.Numbering
import StochasticGrammar.Proofs.Grammar.Restriction
import StochasticGrammar.Proofs.Grammar.Warnings
import StochasticGrammar.Proofs.Parse.Alignment
import StochasticGrammar.Proofs.Parse.Batch
import StochasticGrammar.Proofs.Parse.Equivalence
import StochasticGrammar.Proofs.Parse.Growth
import StochasticGrammar.Proofs.Parse.Lookup
import StochasticGrammar.Proofs.Parse.Outcome
import StochasticGrammar.Proofs.Parse.Reordering
import StochasticGrammar.Proofs.Parse.Restriction
import StochasticGrammar.Proofs.Parse.Underflow
import StochasticGrammar.Proofs.Record.FirstFault
import StochasticGrammar.Proofs.Record.Renaming
import StochasticGrammar.Proofs.Record.Writing
import StochasticGrammar.Proofs.Text.Json
import StochasticGrammar.Proofs.Text.Utf8
import StochasticGrammar.Proofs.Tree.Writing
import StochasticGrammar.Record
import StochasticGrammar.Tally
