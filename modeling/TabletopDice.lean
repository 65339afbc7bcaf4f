import TabletopDice.Builder
import TabletopDice.Service
import TabletopDice.Settings
import TabletopDice.Source.Generator
import TabletopDice.Proofs.Replies
import TabletopDice.Proofs.RoundTrip
import TabletopDice.Proofs.Verdict
import TabletopDice.Proofs.Account
import TabletopDice.Proofs.Overflow
import TabletopDice.Proofs.Delimited
import TabletopDice.Proofs.Fairness
import TabletopDice.Proofs.OutcomeText
import TabletopDice.Proofs.Decoding
import TabletopDice.Proofs.Admission
import TabletopDice.Proofs.EntryPoints
import TabletopDice.Proofs.Isolation
import TabletopDice.Proofs.Replay
import TabletopDice.Proofs.TupleForm
import TabletopDice.Proofs.TupleRolls
import TabletopDice.Proofs.ToolAgreement
import TabletopDice.Proofs.History
import TabletopDice.Proofs.LongestStart
import TabletopDice.Proofs.Rejection
import TabletopDice.Proofs.Bounds
import TabletopDice.Proofs.Mirror
import TabletopDice.Proofs.VisibleArithmetic
import TabletopDice.Proofs.VisibleSum
import TabletopDice.Proofs.Independence
import TabletopDice.Proofs.ConstantRenderings
import TabletopDice.Proofs.ShownNumbers
import TabletopDice.Proofs.Entries
import TabletopDice.Proofs.RepeatedFaces
import TabletopDice.Proofs.OneSided
import TabletopDice.Proofs.RenderedLength
import TabletopDice.Proofs.Conversion
