import Trustm.Support.Outcome
import Trustm.Support.Effect
import Trustm.Support.Ends
import Trustm.Support.Footprint
import Trustm.Support.BigEndian
import Trustm.Support.DerLength
import Trustm.Support.DerInteger
import Trustm.Support.PrefixCode
import Trustm.Support.Search
import Trustm.Support.Text
import Trustm.Support.Run
import Trustm.Support.Simulation
import Trustm.Support.Ownership
import Trustm.Types
import Trustm.Signature.Codec
import Trustm.Signature.Decode
import Trustm.Signature.Encode
import Trustm.Signature.RoundTrip
import Trustm.Signature.Canonical
import Trustm.Signature.Width
import Trustm.PublicKey.Point
import Trustm.Session.Process
import Trustm.Session.Edges
import Trustm.Session.Steps
import Trustm.Session.Invariant
import Trustm.Session.OpenFlag
import Trustm.Session.Completion
import Trustm.Session.Attribution
import Trustm.Session.Lifetime
import Trustm.Session.BusPath
import Trustm.Session.Balance
import Trustm.Session.Config
import Trustm.Session.Safety
import Trustm.Session.Progress
import Trustm.Methods.Constants
import Trustm.Methods.Library
import Trustm.Methods.Calls
import Trustm.Methods.Exact
import Trustm.Methods.Outcomes
import Trustm.Methods.Exported
import Trustm.Methods.Rejections
import Trustm.Methods.Results
import Trustm.Methods.Elements
import Trustm.Methods.Paths
import Trustm.Methods.Usages
import Trustm.Messages
import Trustm.Usage.Protocol
import Trustm.Usage.Process
import Trustm.Usage.Client
import Trustm.Check.Certificate
import Trustm.Check.Chain
import Trustm.Check.Main
import Trustm.Check.Answers
import Trustm.Check.Report
import Trustm.Check.Verdict
import Trustm.Check.Rejection
import Trustm.Check.Lines
import Trustm.Check.Texts
import Trustm.Check.Output
import Trustm.Check.Printed
import Trustm.Check.Requests
import Trustm.Check.Provenance
import Trustm.Check.Usage
import Trustm.Check.Refinement
