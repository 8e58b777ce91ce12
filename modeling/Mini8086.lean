import Mini8086.Encoding.Lemmas
import Mini8086.Execution.Run
import Mini8086.Main
import Mini8086.Proofs.DecodeOne
import Mini8086.Proofs.Grammar
import Mini8086.Proofs.Address
import Mini8086.Proofs.Image
import Mini8086.Proofs.PrefixCode
import Mini8086.Proofs.ExecuteStages
import Mini8086.Proofs.Repetition
import Mini8086.Proofs.Steps
import Mini8086.Proofs.ByteMachine
import Mini8086.Proofs.RuntimeFaults
import Mini8086.Proofs.Partition
import Mini8086.Proofs.BoundedRun
import Mini8086.Proofs.RoundTrip
import Mini8086.Proofs.Atomicity
import Mini8086.Proofs.Concatenation
import Mini8086.Proofs.SignExtension
import Mini8086.Proofs.SignFlag
import Mini8086.Proofs.CountedLoop
import Mini8086.Proofs.Disassembly
import Mini8086.Proofs.Progress
import Mini8086.Proofs.MemoryRequests
import Mini8086.Proofs.Counters
import Mini8086.Proofs.JumpTargets
import Mini8086.Proofs.ReferenceResults
import Mini8086.Proofs.FlagHistory
import Mini8086.Proofs.OutputContract
import Mini8086.Proofs.Frame
import Mini8086.Proofs.AccessLedger
import Mini8086.Proofs.Relocation
import Mini8086.Proofs.RegisterCells
import Mini8086.Proofs.DecodeJournal
import Mini8086.Proofs.RunJournal
import Mini8086.Proofs.Reading
