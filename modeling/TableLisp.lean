import TableLisp.Main
import TableLisp.Editor.Server
import TableLisp.Proofs.Reader.Spacing
import TableLisp.Proofs.Session.Definitions
import TableLisp.Proofs.Session.Environments
import TableLisp.Proofs.Session.Joining
import TableLisp.Proofs.Session.Memory
import TableLisp.Proofs.Session.Provenance
import TableLisp.Proofs.Session.Quotation
import TableLisp.Proofs.Session.Renaming
import TableLisp.Proofs.Session.Soundness
import TableLisp.Proofs.Session.Unseen
import TableLisp.Proofs.Table.Transform
import TableLisp.Proofs.Editor.Diagnostics
import TableLisp.Proofs.Editor.History
import TableLisp.Proofs.Editor.Symbols
import TableLisp.Proofs.Console.Conversation
import TableLisp.Proofs.Table.Transactions
import TableLisp.Proofs.Table.Regrouping
import TableLisp.Proofs.Reader.Coverage
import TableLisp.Proofs.Reader.Faults
import TableLisp.Proofs.Reader.Streaming
import TableLisp.Proofs.Reader.Places
import TableLisp.Proofs.Reader.Requests
import TableLisp.Proofs.Value.Equality
import TableLisp.Proofs.Table.Fields
import TableLisp.Proofs.Form.Flattening
import TableLisp.Proofs.Session.Consing
import TableLisp.Proofs.Session.LastElement
import TableLisp.Proofs.Value.Colours
import TableLisp.Proofs.Table.Views
import TableLisp.Proofs.Editor.Callee
import TableLisp.Proofs.Editor.Offered
import TableLisp.Proofs.Store.Shadowing
