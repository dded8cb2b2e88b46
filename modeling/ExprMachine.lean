import ExprMachine.Main
import ExprMachine.Proofs.CommandLine.Precompiled
import ExprMachine.Proofs.Editor.Delivery
import ExprMachine.Proofs.Editor.Fragment
import ExprMachine.Proofs.Expression.Diagnosis
import ExprMachine.Proofs.Expression.Emission
import ExprMachine.Proofs.Expression.Evaluation
import ExprMachine.Proofs.Machine.Residue
import ExprMachine.Proofs.Session.Transparency
import ExprMachine.Proofs.Store.Interleaving
import ExprMachine.Proofs.Worker.Stopping
import ExprMachine.Service.Http
import ExprMachine.Service.Rpc
import ExprMachine.Proofs.Expression.Continuation
import ExprMachine.Proofs.Service.Isolation
import ExprMachine.Proofs.Text.Cutting
import ExprMachine.Proofs.Drivers.Agreement
import ExprMachine.Proofs.Chunk.Normal
import ExprMachine.Proofs.Expression.Layout
import ExprMachine.Proofs.Service.Encodable
import ExprMachine.Proofs.Chunk.Listing
import ExprMachine.Proofs.Project.Nearest
import ExprMachine.Proofs.Service.Transports
