import ContentStream.Main
import ContentStream.Proofs.Arity
import ContentStream.Proofs.Balance
import ContentStream.Proofs.Bearings
import ContentStream.Proofs.Bracketing
import ContentStream.Proofs.Calls
import ContentStream.Proofs.Carrying
import ContentStream.Proofs.ClipRuns
import ContentStream.Proofs.Clipping
import ContentStream.Proofs.Composition
import ContentStream.Proofs.Concatenation
import ContentStream.Proofs.Containment
import ContentStream.Proofs.Coverage
import ContentStream.Proofs.CurrentPoint
import ContentStream.Proofs.Deferral
import ContentStream.Proofs.Dictionaries
import ContentStream.Proofs.Drift
import ContentStream.Proofs.Emissions
import ContentStream.Proofs.EndPoints
import ContentStream.Proofs.Exact
import ContentStream.Proofs.Faults
import ContentStream.Proofs.Fitting
import ContentStream.Proofs.Flattening
import ContentStream.Proofs.Flaws
import ContentStream.Proofs.Forgetting
import ContentStream.Proofs.ImageData
import ContentStream.Proofs.Indifference
import ContentStream.Proofs.Insertion
import ContentStream.Proofs.Instructions
import ContentStream.Proofs.KeptStyles
import ContentStream.Proofs.Listed
import ContentStream.Proofs.Literals
import ContentStream.Proofs.Mnemonics
import ContentStream.Proofs.Moments
import ContentStream.Proofs.Nesting
import ContentStream.Proofs.Neutral
import ContentStream.Proofs.Numerals
import ContentStream.Proofs.OpenText
import ContentStream.Proofs.Operands
import ContentStream.Proofs.Origins
import ContentStream.Proofs.Parameters
import ContentStream.Proofs.Places
import ContentStream.Proofs.Placing
import ContentStream.Proofs.Rereading
import ContentStream.Proofs.RoundTrip
import ContentStream.Proofs.Sequences
import ContentStream.Proofs.Shapes
import ContentStream.Proofs.Shortage
import ContentStream.Proofs.Shorthands
import ContentStream.Proofs.Sides
import ContentStream.Proofs.Sites
import ContentStream.Proofs.Spans
import ContentStream.Proofs.Spelling
import ContentStream.Proofs.Splitting
import ContentStream.Proofs.Standing
import ContentStream.Proofs.Stencils
import ContentStream.Proofs.StrictEnds
import ContentStream.Proofs.Strides
import ContentStream.Proofs.TextLaws
import ContentStream.Proofs.Tiles
import ContentStream.Proofs.Utf8
import ContentStream.Proofs.Written
