import Workbench.Check.Lowering
import Workbench.Lowered.Optimization
import Workbench.Security.Scan
import Workbench.Syntax.Parser
import Workbench.Json.Reader
import Workbench.Json.Writer
import Workbench.Wasm.Module
import Workbench.Codegen.Emit
import Workbench.Codegen.Interface
import Workbench.Gas.Estimate
import Workbench.Pipeline.Config
import Workbench.Seal.Basic
import Workbench.Pipeline.Compile
import Workbench.Json.Decode
import Workbench.Pipeline.Encoding
import Workbench.Files.Disk
import Workbench.Files.Volume
import Workbench.Session.Failure
import Workbench.Project.Batch
import Workbench.Net.Address
import Workbench.Session.Settings
import Workbench.Session.Event
import Workbench.Session.Request
import Workbench.Session.Loader
import Workbench.Session.Activity
import Workbench.Session.Coordinator
import Workbench.Session.Broker
import Workbench.Lang.Host
import Workbench.Wasm.Execution
import Workbench.Codegen.Linking
import Workbench.Text.Integer
import Workbench.Trial.Call
import Workbench.Text.Quoted
import Workbench.CommandLine.Grammar
import Workbench.CommandLine.Options
import Workbench.CommandLine.Commands
import Workbench.Sandbox.Capture
import Workbench.Sandbox.Course
import Workbench.Sandbox.Output
import Workbench.Sandbox.Printf
import Workbench.Sandbox.Tools
import Workbench.Sandbox.Script
import Workbench.Sandbox.Machine
import Workbench.Session.Server
import Workbench.Main
import Workbench.Lang.Evaluation
import Workbench.Lowered.Evaluation
import Workbench.Syntax.Evaluation
import Workbench.Sandbox.Arithmetic
import Workbench.Proofs.Lang.Outcome
import Workbench.Proofs.Lowered.Typing
import Workbench.Proofs.Lowered.Soundness
import Workbench.Proofs.Check.Elaboration
import Workbench.Proofs.Check.Acceptance
import Workbench.Proofs.Check.Structure
import Workbench.Proofs.Check.Mirroring
import Workbench.Proofs.Lang.Relating
import Workbench.Proofs.Lang.Preserving
import Workbench.Proofs.Check.Meaning
import Workbench.Proofs.Syntax.Rules
import Workbench.Proofs.Check.Decision
import Workbench.Proofs.Lowered.Fuel
import Workbench.Proofs.Lowered.Rewrites
import Workbench.Proofs.Lowered.OptimizationTyping
import Workbench.Proofs.Lowered.References
import Workbench.Proofs.Lang.Ledger
import Workbench.Proofs.Lowered.OptimizationSoundness
import Workbench.Proofs.Lowered.OptimizationMeaning
import Workbench.Proofs.Lowered.OptimizationCounts
import Workbench.Proofs.Lowered.OptimizationFixpoint
import Workbench.Proofs.Wasm.Runs
import Workbench.Proofs.Trial.Agreement
import Workbench.Proofs.Wasm.References
import Workbench.Proofs.Wasm.Heights
import Workbench.Proofs.Codegen.Following
import Workbench.Proofs.Codegen.Linked
import Workbench.Proofs.Codegen.ExprSimulation
import Workbench.Proofs.Codegen.StmtSimulation
import Workbench.Proofs.Codegen.Correctness
import Workbench.Proofs.Codegen.Safety
import Workbench.Proofs.Codegen.References
import Workbench.Proofs.Codegen.Validity
import Workbench.Proofs.Check.Views
import Workbench.Proofs.Codegen.Views
import Workbench.Proofs.Syntax.Yields
import Workbench.Proofs.Syntax.Nesting
import Workbench.Proofs.Syntax.Reads
import Workbench.Proofs.Syntax.Spelled
import Workbench.Proofs.Syntax.Grammar
import Workbench.Proofs.Syntax.Precedence
import Workbench.Proofs.Syntax.Derivation
import Workbench.Proofs.Syntax.Phrases
import Workbench.Proofs.Syntax.Recognition
import Workbench.Proofs.Syntax.Acceptance
import Workbench.Proofs.Syntax.Ladder
import Workbench.Proofs.Session.Interleaving
import Workbench.Proofs.Session.Shutdown
import Workbench.Proofs.Session.Exclusivity
import Workbench.Proofs.Files.Tree
import Workbench.Proofs.Loader.Slots
import Workbench.Proofs.Loader.Locking
import Workbench.Proofs.Loader.Solo
import Workbench.Proofs.Loader.Updates
import Workbench.Proofs.Pipeline.Cancellation
import Workbench.Proofs.Pipeline.Artifacts
import Workbench.Proofs.Pipeline.Release
import Workbench.Proofs.Pipeline.Validity
import Workbench.Proofs.Pipeline.Undisturbed
import Workbench.Proofs.Session.Answers
import Workbench.Proofs.Session.Brokering
import Workbench.Proofs.Session.Termination
import Workbench.Proofs.Session.Serial
import Workbench.Proofs.Lang.Noting
import Workbench.Proofs.Security.Activation
import Workbench.Proofs.Security.Findings
import Workbench.Proofs.Security.Reentrancy
import Workbench.Proofs.Security.Sites
import Workbench.Proofs.Pipeline.Interruption
import Workbench.Proofs.Pipeline.Modes
import Workbench.Proofs.Pipeline.Consistency
import Workbench.Proofs.Files.Walking
import Workbench.Proofs.Project.Batches
import Workbench.Proofs.Wasm.Outlines
import Workbench.Proofs.Gas.Prices
import Workbench.Proofs.Lowered.Shifts
import Workbench.Proofs.Gas.Optimization
import Workbench.Proofs.Seal.Payloads
import Workbench.Proofs.Gas.Weights
import Workbench.Proofs.Lowered.Renumbering
import Workbench.Proofs.Check.Reordering
import Workbench.Proofs.Gas.NodePrices
import Workbench.Proofs.Pipeline.Sealing
import Workbench.Proofs.Syntax.Cutting
import Workbench.Proofs.Syntax.Placement
import Workbench.Proofs.Syntax.Partition
import Workbench.Proofs.Pipeline.Exits
import Workbench.Proofs.Session.Classification
import Workbench.Proofs.Syntax.Composition
import Workbench.Proofs.Syntax.Taking
import Workbench.Proofs.Syntax.Layout
import Workbench.Proofs.Loader.Effects
import Workbench.Proofs.Loader.Logs
import Workbench.Proofs.Loader.Failures
import Workbench.Proofs.Loader.Tracking
import Workbench.Proofs.Loader.Times
import Workbench.Proofs.Files.Paths
import Workbench.Proofs.Loader.Listing
import Workbench.Proofs.Sandbox.Capturing
import Workbench.Proofs.Text.Decoding
import Workbench.Proofs.Sandbox.Lossiness
import Workbench.Proofs.Files.Spellings
import Workbench.Proofs.Loader.Counting
import Workbench.Proofs.Loader.Confinement
import Workbench.Proofs.Json.Keys
import Workbench.Proofs.Json.Records
import Workbench.Proofs.Session.Decoding
