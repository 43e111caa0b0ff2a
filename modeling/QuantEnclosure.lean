import QuantEnclosure.Batch
import QuantEnclosure.Format.ConfigText
import QuantEnclosure.Network.Loader
import QuantEnclosure.Propagation.SettingsText
import QuantEnclosure.Proofs.Propagation.Soundness
import QuantEnclosure.Proofs.Propagation.Totality
import QuantEnclosure.Proofs.Propagation.TraceShape
import QuantEnclosure.Proofs.Propagation.Truncation
import QuantEnclosure.Proofs.Refusal
import QuantEnclosure.Proofs.Propagation.Refusals
import QuantEnclosure.Proofs.Propagation.Methods
import QuantEnclosure.Proofs.Propagation.Counts
import QuantEnclosure.Proofs.Batch
import QuantEnclosure.Proofs.Sampling
import QuantEnclosure.Proofs.Propagation.Presentation
import QuantEnclosure.Proofs.Format.ConfigText
import QuantEnclosure.Proofs.Relaxation.IntegerPoints
import QuantEnclosure.Proofs.Relaxation.DeviationExtremes
import QuantEnclosure.Proofs.Relaxation.Narrowest
import QuantEnclosure.Proofs.Format.ErrorRange
import QuantEnclosure.Proofs.Zonotope.Tightness
import QuantEnclosure.Proofs.Zonotope.Operations
import QuantEnclosure.Proofs.Propagation.Exactness
import QuantEnclosure.Proofs.Format.Acceptance
import QuantEnclosure.Proofs.Network.Loader
