import BytecodeSearch.Isa.Instr
import BytecodeSearch.Bench.Session
import BytecodeSearch.Main
import BytecodeSearch.Search.Climb
import BytecodeSearch.Search.Settings
import BytecodeSearch.Report.Journal
import BytecodeSearch.Decimal.Fixed
import BytecodeSearch.Search.Edit
import BytecodeSearch.Random.ChaCha
import BytecodeSearch.Random.Replay
import BytecodeSearch.Search.Case
import BytecodeSearch.Machine.Run
import BytecodeSearch.Assembly.Assemble
import BytecodeSearch.Assembly.Listing
import BytecodeSearch.Program.Image
import BytecodeSearch.Binary.Codec
import BytecodeSearch.Text.Quoted
import BytecodeSearch.Text.Column
import BytecodeSearch.Text.Blank
import BytecodeSearch.Text.Numeral
import BytecodeSearch.Proofs.Isa.Decode
import BytecodeSearch.Proofs.Program.Buffer
import BytecodeSearch.Proofs.Program.Validity
import BytecodeSearch.Proofs.Score.Subsequence
import BytecodeSearch.Proofs.Machine.Dispatch
import BytecodeSearch.Proofs.Machine.Calls
import BytecodeSearch.Proofs.Machine.Faults
import BytecodeSearch.Proofs.Machine.Answers
import BytecodeSearch.Proofs.Random.Ensures
import BytecodeSearch.Proofs.Search.Edits
import BytecodeSearch.Proofs.Search.Scoring
import BytecodeSearch.Proofs.Search.Attempts
import BytecodeSearch.Proofs.Search.BestScores
import BytecodeSearch.Proofs.Search.Solved
import BytecodeSearch.Proofs.Machine.Progress
import BytecodeSearch.Proofs.Program.Representation
import BytecodeSearch.Proofs.Search.Editing
import BytecodeSearch.Proofs.Search.Drafts
import BytecodeSearch.Proofs.Search.Chunks
import BytecodeSearch.Proofs.Search.Tallies
import BytecodeSearch.Proofs.Search.Outcomes
import BytecodeSearch.Proofs.Search.Safety
import BytecodeSearch.Proofs.Machine.Protocol
import BytecodeSearch.Proofs.Machine.Extension
import BytecodeSearch.Proofs.Search.Appending
import BytecodeSearch.Proofs.Binary.RoundTrip
import BytecodeSearch.Proofs.Program.Images
import BytecodeSearch.Proofs.Binary.Formats
import BytecodeSearch.Proofs.Binary.Truncation
import BytecodeSearch.Proofs.Text.Numerals
import BytecodeSearch.Proofs.Program.Slots
import BytecodeSearch.Proofs.Assembly.Layout
import BytecodeSearch.Proofs.Assembly.Labels
import BytecodeSearch.Proofs.Assembly.Notation
import BytecodeSearch.Proofs.Assembly.Renderings
import BytecodeSearch.Proofs.Assembly.Listings
import BytecodeSearch.Proofs.Assembly.Targets
import BytecodeSearch.Proofs.Assembly.Errors
import BytecodeSearch.Proofs.Machine.Unused
import BytecodeSearch.Proofs.Machine.Numeric
import BytecodeSearch.Proofs.Machine.Reference
import BytecodeSearch.Proofs.Machine.Confined
import BytecodeSearch.Proofs.Search.Draws
import BytecodeSearch.Proofs.Search.Canonical
import BytecodeSearch.Proofs.Search.SingleEdits
import BytecodeSearch.Proofs.Search.Confinement
import BytecodeSearch.Proofs.Search.Isolation
import BytecodeSearch.Proofs.Search.Guarded
import BytecodeSearch.Proofs.Binary.Sinks
import BytecodeSearch.Proofs.Program.Fingerprints
import BytecodeSearch.Proofs.Search.Overrides
