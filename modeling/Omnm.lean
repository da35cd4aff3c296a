import Omnm.Memory.Traced
import Omnm.Memory.Bytes
import Omnm.Memory.Buffer
import Omnm.Memory.MachineIntegers
import Omnm.Memory.FreshStrings
import Omnm.Memory.Decoders
import Omnm.Memory.Ownership
import Omnm.Runs.FirstMatch
import Omnm.Runs.Runs
import Omnm.Runs.Dialogues
import Omnm.Runs.Interleavings
import Omnm.Runs.LastValues
import Omnm.Payload.FieldType
import Omnm.Payload.Impl
import Omnm.Payload.Iterator
import Omnm.Payload.Fields
import Omnm.Payload.Mutators
import Omnm.Payload.Calls
import Omnm.Payload.Getters
import Omnm.Payload.Apply
import Omnm.Payload.Reads
import Omnm.Payload.DateTimes
import Omnm.Payload.FieldUpdates
import Omnm.Payload.IteratorObjects
import Omnm.Payload.Splicing
import Omnm.Payload.Handles
import Omnm.Payload.Preparation
import Omnm.Payload.Scratch
import Omnm.Payload.ReadEffects
import Omnm.Payload.Outcomes
import Omnm.Payload.Allocations
import Omnm.Payload.VectorTraces
import Omnm.Payload.Printing
import Omnm.Payload.ApplyReports
import Omnm.Payload.Lifecycle
import Omnm.Payload.HeldBlocks
import Omnm.Payload.KeptShapes
import Omnm.Payload.KeptGetters
import Omnm.Wire.Message
import Omnm.Wire.Decoding
import Omnm.Wire.Iteration
import Omnm.Wire.HandleUpdates
import Omnm.Wire.Values
import Omnm.Wire.Representation
import Omnm.Wire.Refinement
import Omnm.Wire.Serialization
import Omnm.Wire.FieldCalls
import Omnm.Wire.Walking
import Omnm.Wire.MemoryBehind
import Omnm.Wire.Mutations
import Omnm.Wire.Additions
import Omnm.Wire.Transfers
import Omnm.Wire.ObjectLookups
import Omnm.Wire.Received
import Omnm.Wire.Lookup
import Omnm.Wire.MessageTrees
import Omnm.Wire.Printing
import Omnm.Wire.ReportedCases
import Omnm.Wire.MessageVectors
import Omnm.Wire.Canonical
import Omnm.Wire.MessageMutations
import Omnm.Wire.MessageReads
import Omnm.Wire.ObjectRuns
import Omnm.Wire.Callbacks
import Omnm.Wire.KeyedCalls
import Omnm.Wire.Exchanges
import Omnm.Wire.ReadBack
import Omnm.Wire.AppliedFields
import Omnm.Wire.Handovers
import Omnm.Results.Replication
import Omnm.Results.Acceptance
import Omnm.Results.Arithmetic
import Omnm.Results.Invariants
import Omnm.Results.Containment
import Omnm.Results.Application
import Omnm.Results.Disclosure
import Omnm.Results.Coherence
import Omnm.Results.Iteration
import Omnm.Results.Rebinding
import Omnm.Results.Honesty
import Omnm.Results.Casting
import Omnm.Results.IntegerReads
import Omnm.Results.Capacity
import Omnm.Results.VectorStrings
import Omnm.Results.VectorMessages
import Omnm.Results.DateTimes
import Omnm.Results.Atomicity
import Omnm.Results.AccessPaths
import Omnm.Results.PartialFailure
import Omnm.Results.UnknownTypes
import Omnm.Results.Termination
import Omnm.Results.NestedMessages
import Omnm.Results.VectorSafety
import Omnm.Results.Rendering
import Omnm.Results.Reporting
import Omnm.Results.Conversations
import Omnm.Results.Isolation
import Omnm.Results.ReadYourWrites
import Omnm.Results.Updates
import Omnm.Results.Lifecycle
import Omnm.Results.LostMemory
import Omnm.Results.FieldMemory
import Omnm.Results.Callbacks
import Omnm.Results.FailedCalls
import Omnm.Results.Parsing
