import Jack.Main
import Jack.Proofs.Advance
import Jack.Proofs.Annotations
import Jack.Proofs.Chains
import Jack.Proofs.Constants
import Jack.Proofs.Equivariance
import Jack.Proofs.ErrorLines
import Jack.Proofs.ExitStatus
import Jack.Proofs.FailedSources
import Jack.Proofs.Headers
import Jack.Proofs.History
import Jack.Proofs.Joining
import Jack.Proofs.Jumps
import Jack.Proofs.Names
import Jack.Proofs.Locations
import Jack.Proofs.Overflows
import Jack.Proofs.Reordering
import Jack.Proofs.Simulation
import Jack.Proofs.SourcesKept
import Jack.Proofs.StackDepth
import Jack.Proofs.StringCode
import Jack.Proofs.SyntaxErrors
import Jack.Proofs.TokenSpans
import Jack.Proofs.Writing
import Jack.Viewer.Basic
