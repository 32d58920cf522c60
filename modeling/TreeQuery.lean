import TreeQuery.Main
import TreeQuery.Proofs.Audit
import TreeQuery.Proofs.Command.Answers
import TreeQuery.Proofs.Command.Saving
import TreeQuery.Proofs.Config
import TreeQuery.Proofs.Execute.FirstFailure
import TreeQuery.Proofs.Execute.Inverse
import TreeQuery.Proofs.Execute.JoinKeys
import TreeQuery.Proofs.Execute.Numbering
import TreeQuery.Proofs.Execute.Shown
import TreeQuery.Proofs.Execute.TopLevel
import TreeQuery.Proofs.Explain.Accounts
import TreeQuery.Proofs.Files.Replacement
import TreeQuery.Proofs.Query.Mutation
import TreeQuery.Proofs.Query.Partition
import TreeQuery.Proofs.Query.Splicing
import TreeQuery.Proofs.Row.Changes
import TreeQuery.Proofs.SavedQueries
import TreeQuery.Proofs.Sql.Automaton
import TreeQuery.Proofs.Sql.Identifier
import TreeQuery.Proofs.Store.Lifetime
