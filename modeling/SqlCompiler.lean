import SqlCompiler.Engine.Savepoint
import SqlCompiler.Main
import SqlCompiler.Query.Step
import SqlCompiler.Proofs.UpdateParity
import SqlCompiler.Proofs.WriteErasure
import SqlCompiler.Proofs.AddedClauses
import SqlCompiler.Proofs.ExistenceParity
import SqlCompiler.Proofs.Precedence
import SqlCompiler.Proofs.InsertionOrder
import SqlCompiler.Proofs.RowOrder
import SqlCompiler.Proofs.InsertionFrame
import SqlCompiler.Proofs.BuiltQueries
import SqlCompiler.Proofs.DialectAgreement
import SqlCompiler.Proofs.InlinedValues
import SqlCompiler.Proofs.JsonText
import SqlCompiler.Proofs.StoredForm
import SqlCompiler.Proofs.StoredQuery
import SqlCompiler.Proofs.RestoredValues
import SqlCompiler.Proofs.RowBounds
import SqlCompiler.Proofs.SelectorAgreement
import SqlCompiler.Proofs.BaseDocuments
import SqlCompiler.Proofs.MergePatches
import SqlCompiler.Proofs.WriteScripts
import SqlCompiler.Proofs.SharedPaths
import SqlCompiler.Proofs.TextArrays
import SqlCompiler.Proofs.RowAlignment
import SqlCompiler.Proofs.QuotedNames
import SqlCompiler.Proofs.SetLists
import SqlCompiler.Proofs.TargetReferences
import SqlCompiler.Proofs.OperatorMarks
import SqlCompiler.Proofs.EmptyLists
import SqlCompiler.Proofs.JoinClauses
import SqlCompiler.Proofs.UpdatedJoins
import SqlCompiler.Proofs.RecursionLimits
import SqlCompiler.Proofs.TypedValues
import SqlCompiler.Proofs.NamedValues
import SqlCompiler.Proofs.DealtValues
import SqlCompiler.Proofs.IndexNotations
import SqlCompiler.Proofs.LeftmostAliases
import SqlCompiler.Proofs.ValueLiterals
