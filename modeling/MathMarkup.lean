import MathMarkup.Config.Current
import MathMarkup.Config.Json
import MathMarkup.Failure.Json
import MathMarkup.Main
import MathMarkup.Proofs.Arguments
import MathMarkup.Proofs.Backends
import MathMarkup.Proofs.Blanking
import MathMarkup.Proofs.Cancellation
import MathMarkup.Proofs.CharacterSpans
import MathMarkup.Proofs.Conversion
import MathMarkup.Proofs.Cutoff
import MathMarkup.Proofs.Debouncing
import MathMarkup.Proofs.Definitions
import MathMarkup.Proofs.Delivery
import MathMarkup.Proofs.EnvironmentCells
import MathMarkup.Proofs.ErrorPlaces
import MathMarkup.Proofs.FailurePlaces
import MathMarkup.Proofs.Feedback
import MathMarkup.Proofs.Freshness
import MathMarkup.Proofs.IntegralBodies
import MathMarkup.Proofs.Invocations
import MathMarkup.Proofs.NestedFunctions
import MathMarkup.Proofs.NormalForm
import MathMarkup.Proofs.Occupancy
import MathMarkup.Proofs.Origins
import MathMarkup.Proofs.Parameters
import MathMarkup.Proofs.Placing
import MathMarkup.Proofs.Precedence
import MathMarkup.Proofs.Pruning
import MathMarkup.Proofs.Renderable
import MathMarkup.Proofs.Separators
import MathMarkup.Proofs.Settling
import MathMarkup.Proofs.Shortening
import MathMarkup.Proofs.Spacing
import MathMarkup.Proofs.SpannedTrees
import MathMarkup.Proofs.Tiling
import MathMarkup.Proofs.TimeBounds
import MathMarkup.Server.Basic
