import EventSourcing.Text.Blank
import EventSourcing.Text.Identifier
import EventSourcing.Json.Reader
import EventSourcing.Json.Printer
import EventSourcing.Yaml.Value
import EventSourcing.Yaml.Scalar
import EventSourcing.Schema.Compiler
import EventSourcing.Event.Envelope
import EventSourcing.Bench.Sets
import EventSourcing.Contract
import EventSourcing.Context.Run
import EventSourcing.Log.Memory
import EventSourcing.Log.Interleaving
import EventSourcing.Store.Memory
import EventSourcing.Service.Call
import EventSourcing.Bench.View
import EventSourcing.Bench.Rig
import EventSourcing.Bench.Session
import EventSourcing.Derive.Code
import EventSourcing.Proofs.Fiber.Pool
import EventSourcing.Proofs.Fiber.Terms
import EventSourcing.Proofs.Service.Replay
import EventSourcing.Proofs.Service.Commons
import EventSourcing.Proofs.Service.Conduct
import EventSourcing.Proofs.Service.Resync
import EventSourcing.Proofs.Json.Numbers
import EventSourcing.Proofs.Service.Atomicity
import EventSourcing.Proofs.Service.Prefix
import EventSourcing.Proofs.Event.Stored
import EventSourcing.Proofs.Service.Acceptance
import EventSourcing.Proofs.Service.Optimistic
import EventSourcing.Proofs.Schema.Rules
import EventSourcing.Proofs.Schema.Outline
import EventSourcing.Proofs.Schema.Walk
import EventSourcing.Proofs.Schema.FirstViolation
import EventSourcing.Proofs.Schema.Sound
import EventSourcing.Proofs.Schema.Compiled
import EventSourcing.Proofs.Schema.Places
import EventSourcing.Proofs.Schema.WellFormed
import EventSourcing.Proofs.Schema.Referrers
import EventSourcing.Proofs.Event.Naming
import EventSourcing.Proofs.Event.RoundTrip
import EventSourcing.Proofs.Log.Tiling
import EventSourcing.Proofs.Source.Loading
import EventSourcing.Proofs.Fiber.Abiding
import EventSourcing.Proofs.Service.Versed
import EventSourcing.Proofs.Service.Vocabulary
import EventSourcing.Proofs.Service.Uptake
import EventSourcing.Proofs.Service.Contract
import EventSourcing.Proofs.Schema.Grouping
import EventSourcing.Proofs.Event.Coherent
import EventSourcing.Proofs.Service.Announced
import EventSourcing.Proofs.Service.Retries
import EventSourcing.Proofs.Log.Ledger
import EventSourcing.Proofs.Log.Paging
import EventSourcing.Proofs.Schema.Resolution
import EventSourcing.Proofs.Service.Dispatch
import EventSourcing.Proofs.Service.Timely
import EventSourcing.Proofs.Service.Appending
import EventSourcing.Proofs.Source.Finding
import EventSourcing.Proofs.Schema.Stepping
import EventSourcing.Proofs.Service.Wholeness
import EventSourcing.Proofs.Schema.Respelling
import EventSourcing.Proofs.Name.Reference
import EventSourcing.Proofs.Schema.Blame
import EventSourcing.Proofs.Context.Waiting
import EventSourcing.Proofs.Schema.Prefixing
import EventSourcing.Proofs.Source.Spelling
import EventSourcing.Proofs.Source.Documented
import EventSourcing.Proofs.Event.Alone
import EventSourcing.Proofs.Name.Pointing
