import Handoff.Text.Words
import Handoff.Text.Quoted
import Handoff.Text.Character
import Handoff.Decimal.Pixel
import Handoff.Json.Reader
import Handoff.Json.KeyOrder
import Handoff.Json.Difference
import Handoff.Design.Color
import Handoff.Design.Encode
import Handoff.Design.Decode
import Handoff.Token.Extract
import Handoff.Token.Encode
import Handoff.Token.TypeScript
import Handoff.Roblox.Drawing
import Handoff.React.Project
import Handoff.Archive.Instant
import Handoff.Archive.RoundTrip
import Handoff.Design.Same
import Handoff.Settings
import Handoff.Artifact
import Handoff.Proofs.Design.Preorder
import Handoff.Proofs.Decimal.Digits
import Handoff.Proofs.Roblox.Machine
import Handoff.Proofs.Decimal.Shortest
import Handoff.Proofs.Token.Sightings
import Handoff.Proofs.Artifact.KeyOrder
import Handoff.Proofs.Archive.Survival
import Handoff.Proofs.Roblox.Scope
import Handoff.Proofs.React.Mirror
import Handoff.Proofs.Archive.Bare
import Handoff.Proofs.Design.Unmodelled
import Handoff.Proofs.Artifact.Paint
import Handoff.Proofs.Artifact.Position
import Handoff.Proofs.Roblox.Statements
import Handoff.Proofs.Roblox.Units
import Handoff.Proofs.Roblox.Pruning
import Handoff.Proofs.Token.Interchange
import Handoff.Proofs.Token.TypeScript
import Handoff.Proofs.Token.Declarations
import Handoff.Proofs.Token.StyleSheet
import Handoff.Proofs.Json.Places
import Handoff.Proofs.Archive.Lossy
import Handoff.Proofs.Json.Canonical
import Handoff.Proofs.React.Variants
import Handoff.Proofs.React.Returned
import Handoff.Proofs.Archive.Order
import Handoff.Proofs.Artifact.Placement
import Handoff.Proofs.Artifact.Numbers
import Handoff.Proofs.React.Comments
import Handoff.Proofs.Artifact.Literals
import Handoff.Proofs.Design.Color
import Handoff.Proofs.Token.ColorName
import Handoff.Proofs.Token.Faces
import Handoff.Proofs.React.Module
import Handoff.Proofs.React.Project
import Handoff.Proofs.Json.Labels
import Handoff.Proofs.Settings
import Handoff.Proofs.Design.ColorHex
import Handoff.Proofs.Token.Numbering
import Handoff.Proofs.Design.Visits
