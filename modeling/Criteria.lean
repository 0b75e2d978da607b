import Criteria.Endpoint
import Criteria.Payload.Writer
import Criteria.Proofs.Disclosure
import Criteria.Proofs.FirstFault
import Criteria.Proofs.IntegerConstant
import Criteria.Proofs.Verdict
import Criteria.Proofs.WellTyped
import Criteria.Settings.Reader
import Criteria.Proofs.Narrowing
import Criteria.Proofs.LeftSpine
import Criteria.Proofs.Payload.Range
import Criteria.Proofs.Payload.Objects
import Criteria.Proofs.Decoding
import Criteria.Proofs.Expansion
import Criteria.Proofs.RoundTrip
import Criteria.Proofs.DoubleRoundTrip
import Criteria.Proofs.Elements
import Criteria.Proofs.Access
import Criteria.Proofs.Environments
import Criteria.Proofs.Number.Written
import Criteria.Proofs.Coercion
import Criteria.Proofs.Number.DecimalExact
import Criteria.Proofs.Payload.Exact
import Criteria.Proofs.DecimalConstant
import Criteria.Proofs.Reachable
import Criteria.Proofs.Comparisons
import Criteria.Proofs.Lookup
import Criteria.Proofs.FieldTable
import Criteria.Proofs.ValueOrder
import Criteria.Proofs.SameSelection
import Criteria.Proofs.Events
import Criteria.Proofs.FiniteConstants
import Criteria.Proofs.WithinLimits
import Criteria.Proofs.Batches
import Criteria.Proofs.Joining
import Criteria.Proofs.Decision
import Criteria.Proofs.JoinLaws
import Criteria.Proofs.Time.Values
import Criteria.Proofs.TimeConstants
import Criteria.Proofs.Time.Rendering
import Criteria.Proofs.RenderedConstants
import Criteria.Proofs.Quoted
import Criteria.Proofs.Unambiguous
import Criteria.Proofs.Number.DoubleWord
import Criteria.Proofs.ExactIntegers
import Criteria.Proofs.FaultContext
import Criteria.Proofs.Respelling
import Criteria.Proofs.Simultaneous
import Criteria.Proofs.Toml.Distinct
import Criteria.Proofs.Toml.Shape
import Criteria.Proofs.SettingsDocument
