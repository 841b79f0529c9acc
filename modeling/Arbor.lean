import Arbor.Decimal.Significant
import Arbor.Grammar.Shown
import Arbor.Main
import Arbor.Mesh.Frame
import Arbor.Mesh.Storing
import Arbor.Skeleton.Draft
import Arbor.Text.Digest
import Arbor.Tree.Session
import Arbor.Turtle.Origin
import Arbor.Proofs.Turtle.Growth
import Arbor.Proofs.Turtle.Continuity
import Arbor.Proofs.Turtle.Branching
import Arbor.Proofs.Turtle.Insertion
import Arbor.Proofs.Turtle.Orientation
import Arbor.Proofs.Turtle.Grafting
import Arbor.Proofs.Mesh.Conforming
import Arbor.Proofs.Mesh.Assembly
import Arbor.Proofs.Skeleton.Numbering
import Arbor.Proofs.Skeleton.Rigging
import Arbor.Proofs.Skeleton.Binding
import Arbor.Proofs.Skeleton.Skinning
import Arbor.Proofs.Skeleton.SameTree
import Arbor.Proofs.Mesh.Shapes
import Arbor.Proofs.Mesh.Stacking
import Arbor.Proofs.Mesh.Layout
import Arbor.Proofs.Scalar
import Arbor.Proofs.Tree.Checking
import Arbor.Proofs.Tree.Change
import Arbor.Proofs.Tree.Growing
import Arbor.Proofs.Tree.Custody
import Arbor.Proofs.Tree.Refusal
import Arbor.Proofs.Tree.Building
import Arbor.Proofs.Tree.Sizes
import Arbor.Proofs.Mesh.Fitting
import Arbor.Proofs.Mesh.Blocks
import Arbor.Proofs.Mesh.Merging
import Arbor.Proofs.Skeleton.Descent
import Arbor.Proofs.Turtle.Preorder
import Arbor.Proofs.Skeleton.Mirroring
import Arbor.Proofs.Skeleton.Kinematics
import Arbor.Proofs.Space.Exact
import Arbor.Proofs.Space.Rotation
import Arbor.Proofs.Skeleton.Carried
import Arbor.Proofs.Skeleton.RestPose
import Arbor.Proofs.Skeleton.Turning
import Arbor.Proofs.Skeleton.Rigidity
import Arbor.Proofs.Value.Reading
import Arbor.Proofs.Command.Refusal
import Arbor.Proofs.Config.Description
import Arbor.Proofs.Command.Ending
import Arbor.Proofs.Command.Filing
import Arbor.Proofs.Config.Acceptance
import Arbor.Proofs.Config.Finiteness
import Arbor.Proofs.Tree.Swaying
import Arbor.Proofs.Wind.Gusting
import Arbor.Proofs.Command.Planning
import Arbor.Proofs.Command.Frames
import Arbor.Proofs.Command.Animation
import Arbor.Proofs.Tree.Generations
import Arbor.Proofs.Grammar.Balance
import Arbor.Proofs.Mesh.Closure
import Arbor.Proofs.Mesh.Roundness
import Arbor.Proofs.Mesh.Tapering
import Arbor.Proofs.Mesh.Spanning
import Arbor.Proofs.Tree.Crowd
import Arbor.Proofs.Tree.Likeness
import Arbor.Proofs.Wind.Circling
import Arbor.Proofs.Tree.Bending
import Arbor.Proofs.Tree.Cracks
import Arbor.Proofs.Wind.Guards
import Arbor.Proofs.Mesh.Departure
import Arbor.Proofs.Mesh.Staging
import Arbor.Proofs.Turtle.Suspension
import Arbor.Proofs.Thinning
import Arbor.Proofs.Turtle.Idling
import Arbor.Proofs.Mesh.Clearing
import Arbor.Proofs.Tree.Pruning
import Arbor.Proofs.Tree.Forecast
import Arbor.Proofs.Wind.Smoothness
import Arbor.Proofs.Command.Sources
import Arbor.Proofs.Export.Archives
import Arbor.Proofs.Command.Caution
