import InjectionCompiler.Compilation
import InjectionCompiler.Config.Json
import InjectionCompiler.Order
import InjectionCompiler.Sink.Directory
import InjectionCompiler.Sink.Memory
import InjectionCompiler.Proofs.Cycle
import InjectionCompiler.Proofs.Sources
import InjectionCompiler.Proofs.Table
import InjectionCompiler.Proofs.Journal
import InjectionCompiler.Proofs.Validity
import InjectionCompiler.Proofs.Discovery
import InjectionCompiler.Proofs.Assignment
import InjectionCompiler.Proofs.Plan
import InjectionCompiler.Proofs.Reference
import InjectionCompiler.Proofs.Unit
import InjectionCompiler.Proofs.Linkage
import InjectionCompiler.Proofs.Compilation
import InjectionCompiler.Proofs.Ledger
import InjectionCompiler.Proofs.Range
import InjectionCompiler.Proofs.Roster
import InjectionCompiler.Proofs.Emission
import InjectionCompiler.Proofs.Helpers
import InjectionCompiler.Proofs.Artifacts
import InjectionCompiler.Proofs.Closure
import InjectionCompiler.Proofs.Output
import InjectionCompiler.Proofs.Firsts
import InjectionCompiler.Proofs.Accounting
import InjectionCompiler.Proofs.Imports
import InjectionCompiler.Proofs.Hosting
import InjectionCompiler.Proofs.Reading
import InjectionCompiler.Proofs.Roots
import InjectionCompiler.Proofs.Portrait
import InjectionCompiler.Proofs.ImportClosure
import InjectionCompiler.Proofs.Declarations
import InjectionCompiler.Proofs.Numbering
import InjectionCompiler.Proofs.Providing
import InjectionCompiler.Proofs.Requests
import InjectionCompiler.Proofs.Stability
import InjectionCompiler.Proofs.Rearrangement
import InjectionCompiler.Proofs.Bindings
import InjectionCompiler.Proofs.Census
import InjectionCompiler.Proofs.Demand
import InjectionCompiler.Proofs.FaultCount
import InjectionCompiler.Proofs.Needs
import InjectionCompiler.Proofs.Room
import InjectionCompiler.Proofs.Draft
import InjectionCompiler.Proofs.Planning
import InjectionCompiler.Proofs.Delivery
import InjectionCompiler.Proofs.Reordering
import InjectionCompiler.Proofs.Reimport
import InjectionCompiler.Proofs.Boxing
import InjectionCompiler.Proofs.Mirror
import InjectionCompiler.Proofs.Indifference
import InjectionCompiler.Proofs.Bounds
import InjectionCompiler.Proofs.Attachment
import InjectionCompiler.Proofs.Buildable
import InjectionCompiler.Proofs.Members
import InjectionCompiler.Proofs.Laziness
import InjectionCompiler.Proofs.Invaders
import InjectionCompiler.Proofs.Answers
import InjectionCompiler.Proofs.Overriding
import InjectionCompiler.Proofs.Components
import InjectionCompiler.Proofs.Paths
import InjectionCompiler.Proofs.Storage
import InjectionCompiler.Proofs.InProgress
import InjectionCompiler.Proofs.Worklists
import InjectionCompiler.Proofs.Termination
import InjectionCompiler.Proofs.Arguments
import InjectionCompiler.Proofs.Candidates
import InjectionCompiler.Proofs.Naming
import InjectionCompiler.Proofs.Implementations
import InjectionCompiler.Proofs.Visibility
import InjectionCompiler.Proofs.BreadthFirst
import InjectionCompiler.Proofs.Nearness
import InjectionCompiler.Proofs.Environment
import InjectionCompiler.Proofs.FailedFlush
import InjectionCompiler.Proofs.Spelling
import InjectionCompiler.Proofs.Settings
import InjectionCompiler.Proofs.Qualifiers
import InjectionCompiler.Proofs.Permanence
import InjectionCompiler.Proofs.StaticMembers
import InjectionCompiler.Proofs.Registration
