import Semant.Main
import Semant.Workbench
import Semant.Proofs.Outline.Basic
import Semant.Proofs.Outline.Valid
import Semant.Proofs.Store
import Semant.Proofs.Walk
import Semant.Proofs.Outline.Describes
import Semant.Proofs.Outline.Simulation
import Semant.Proofs.Clearing
import Semant.Proofs.Territory
import Semant.Proofs.Lockstep
import Semant.Proofs.Analyses
import Semant.Proofs.Placement
import Semant.Proofs.Outline.Run
import Semant.Proofs.Nodes
import Semant.Proofs.Outline.Orderly
import Semant.Proofs.Load
import Semant.Proofs.Dump
import Semant.Proofs.Completion
import Semant.Proofs.WellFormed
import Semant.Proofs.Readiness
import Semant.Proofs.Outline.Outcome
import Semant.Proofs.Scoping
import Semant.Proofs.Occurrences
import Semant.Proofs.Mistakes
import Semant.Proofs.Reanalysis
import Semant.Proofs.Bindings
import Semant.Proofs.ScopeTree
import Semant.Proofs.Conservation
import Semant.Proofs.Abreast
import Semant.Proofs.Modularity
import Semant.Proofs.Changes
import Semant.Proofs.Operations
import Semant.Proofs.Nesting
import Semant.Proofs.Listing
import Semant.Proofs.Tracking
import Semant.Proofs.Dumping
import Semant.Proofs.Raising
import Semant.Proofs.Json.Grammar
import Semant.Proofs.Json.Parsing
import Semant.Proofs.Json.Numerals
import Semant.Proofs.Json.Range
import Semant.Proofs.Json.Printing
import Semant.Proofs.Document.Encoding
import Semant.Proofs.Document.Entries
import Semant.Proofs.Document.Nodes
import Semant.Proofs.Document.Decoding
import Semant.Proofs.Document.RoundTrip
import Semant.Proofs.Reports
import Semant.Proofs.History
import Semant.Proofs.Renaming
import Semant.Proofs.Revision
import Semant.Proofs.Shadowing
import Semant.Proofs.Tandem
import Semant.Proofs.Equivariance
import Semant.Proofs.Locality
import Semant.Proofs.Traversal
import Semant.Proofs.Marks
import Semant.Proofs.Initialization
import Semant.Proofs.Grouping
import Semant.Proofs.Parentheses
import Semant.Proofs.Exchange
import Semant.Proofs.Commutation
import Semant.Proofs.SignatureText
import Semant.Proofs.Typesetting
import Semant.Proofs.Stacks
import Semant.Proofs.Headers
import Semant.Proofs.Signing
