import ExprCompiler.Configuration.LogLevel
import ExprCompiler.Configuration.Settings
import ExprCompiler.Main
import ExprCompiler.Sampling.Broadcast
import ExprCompiler.Service.Endpoint
import ExprCompiler.Proofs.Outcome
import ExprCompiler.Proofs.Semantics.Target
import ExprCompiler.Proofs.Semantics.Node
import ExprCompiler.Proofs.Exact.Builtin
import ExprCompiler.Proofs.Exact.Target
import ExprCompiler.Proofs.Expr.Polynomial
import ExprCompiler.Proofs.Expr.RoundTrip
import ExprCompiler.Proofs.Logic.Agreement
import ExprCompiler.Proofs.Lowering.Parameters
import ExprCompiler.Proofs.Expr.Substitution
import ExprCompiler.Proofs.Script.Agreement
import ExprCompiler.Proofs.Service.Writable
import ExprCompiler.Proofs.Expr.Absent
import ExprCompiler.Proofs.Lowering.Symbols
import ExprCompiler.Proofs.Sampling.Schedule
import ExprCompiler.Proofs.Service.Accounting
import ExprCompiler.Proofs.Expr.Folding
import ExprCompiler.Proofs.Script.Acceptance
import ExprCompiler.Proofs.Interpreter.Bindings
import ExprCompiler.Proofs.Interpreter.Validity
import ExprCompiler.Proofs.Expr.NestedPower
import ExprCompiler.Proofs.Expr.Faults
import ExprCompiler.Proofs.Expr.Elimination
import ExprCompiler.Proofs.Expr.Grammar
import ExprCompiler.Proofs.Expr.Product
import ExprCompiler.Proofs.Sampling.Unbound
import ExprCompiler.Proofs.Numeral.Position
import ExprCompiler.Proofs.Logic.Order
import ExprCompiler.Proofs.Builtin.Answers
import ExprCompiler.Proofs.Service.Body
import ExprCompiler.Proofs.Configuration.Constants
import ExprCompiler.Proofs.Sampling.Broadcast
