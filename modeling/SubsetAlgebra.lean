import SubsetAlgebra.Enumeration
import SubsetAlgebra.Persisted.Text
import SubsetAlgebra.Session.Workspace
import SubsetAlgebra.Proofs.Agreement
import SubsetAlgebra.Proofs.Reachable
import SubsetAlgebra.Proofs.RoundTrip
import SubsetAlgebra.Proofs.Interchange
import SubsetAlgebra.Proofs.BooleanAlgebra
import SubsetAlgebra.Proofs.PersistedForm
import SubsetAlgebra.Proofs.Views
import SubsetAlgebra.Proofs.Acceptance
import SubsetAlgebra.Proofs.GuardedSubsets
import SubsetAlgebra.Proofs.NeverBroken
import SubsetAlgebra.Proofs.Representatives
import SubsetAlgebra.Proofs.TwoRuns
import SubsetAlgebra.Proofs.Inclusion
import SubsetAlgebra.Proofs.KeptForm
import SubsetAlgebra.Proofs.Extension
import SubsetAlgebra.Proofs.LastStep
import SubsetAlgebra.Proofs.Constructors
import SubsetAlgebra.Proofs.FirstFault
import SubsetAlgebra.Proofs.AskedRuns
import SubsetAlgebra.Proofs.Semijoin
import SubsetAlgebra.Proofs.ProductOrder
import SubsetAlgebra.Proofs.Transfers
import SubsetAlgebra.Proofs.EnumerationWords
import SubsetAlgebra.Proofs.BufferGrowth
import SubsetAlgebra.Proofs.CursorCalls
import SubsetAlgebra.Proofs.Sessions
import SubsetAlgebra.Proofs.Looking
