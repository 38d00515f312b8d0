import LayeredDiagram.Numeric.Scalar
import LayeredDiagram.Text.Word
import LayeredDiagram.Text.Printable
import LayeredDiagram.Text.UpperCase
import LayeredDiagram.Numeric.Quantity
import LayeredDiagram.Graph.Sized
import LayeredDiagram.Graph.Placed
import LayeredDiagram.Layout.Register
import LayeredDiagram.Layout.Rank
import LayeredDiagram.Layout.Order
import LayeredDiagram.Layout.Raw
import LayeredDiagram.Layout.Graph
import LayeredDiagram.Text.Lines
import LayeredDiagram.Text.Width
import LayeredDiagram.Text.Shorten
import LayeredDiagram.Text.Integer
import LayeredDiagram.C4.Reading
import LayeredDiagram.ArchiMate.Reading
import LayeredDiagram.ClassDiagram.Reading
import LayeredDiagram.Family.Diagram
import LayeredDiagram.Family.Summary
import LayeredDiagram.Theme.Named
import LayeredDiagram.Canvas.Box
import LayeredDiagram.Canvas.Line
import LayeredDiagram.Trace.Basic
import LayeredDiagram.TextArt.Draw
import LayeredDiagram.Svg.C4
import LayeredDiagram.Svg.ArchiMate
import LayeredDiagram.Svg.ClassDiagram
import LayeredDiagram.Render.Configuration
import LayeredDiagram.Render.Session
import LayeredDiagram.Raster.Image
import LayeredDiagram.Main
import LayeredDiagram.Proofs.Forest
import LayeredDiagram.Proofs.WellFormed
import LayeredDiagram.Proofs.Orientation
import LayeredDiagram.Proofs.Ranking
import LayeredDiagram.Proofs.Blocks
import LayeredDiagram.Proofs.LayerOrder
import LayeredDiagram.Proofs.Chains
import LayeredDiagram.Proofs.Items
import LayeredDiagram.Proofs.Arrangement
import LayeredDiagram.Proofs.Constraints
import LayeredDiagram.Proofs.Improvement
import LayeredDiagram.Proofs.Bands
import LayeredDiagram.Proofs.Existence
import LayeredDiagram.Proofs.Coordinates
import LayeredDiagram.Proofs.Measures
import LayeredDiagram.Proofs.Separation
import LayeredDiagram.Proofs.Stacking
import LayeredDiagram.Proofs.Rectangles
import LayeredDiagram.Proofs.Placement
import LayeredDiagram.Proofs.Overlap
import LayeredDiagram.Proofs.GroupBounds
import LayeredDiagram.Proofs.Sides
import LayeredDiagram.Proofs.Enclosure
import LayeredDiagram.Proofs.TightRanks
import LayeredDiagram.Proofs.Polylines
import LayeredDiagram.Proofs.Routes
import LayeredDiagram.Proofs.Staircase
import LayeredDiagram.Proofs.RouteEnds
import LayeredDiagram.Proofs.FlatGroups
import LayeredDiagram.Proofs.Layers
import LayeredDiagram.Proofs.LayerBands
import LayeredDiagram.Proofs.Precedence
import LayeredDiagram.Proofs.Balancing
import LayeredDiagram.Proofs.Levels
import LayeredDiagram.Proofs.Corridors
import LayeredDiagram.Proofs.Columns
import LayeredDiagram.Proofs.Clearance
import LayeredDiagram.Proofs.MinimumFlows
import LayeredDiagram.Proofs.Boundaries
import LayeredDiagram.Proofs.Classes
import LayeredDiagram.Proofs.Refusals
import LayeredDiagram.Proofs.Inventories
import LayeredDiagram.Proofs.Framing
import LayeredDiagram.Proofs.Cells
import LayeredDiagram.Proofs.Pictures
import LayeredDiagram.Proofs.Quoting
import LayeredDiagram.Proofs.Calls
import LayeredDiagram.Proofs.Ownership
import LayeredDiagram.Proofs.StraightDrawings
import LayeredDiagram.Proofs.CellPaths
import LayeredDiagram.Proofs.LabelText
import LayeredDiagram.Proofs.Connectors
import LayeredDiagram.Proofs.NarrowGaps
import LayeredDiagram.Proofs.WideCharacters
import LayeredDiagram.Proofs.Medians
import LayeredDiagram.Proofs.Objective
import LayeredDiagram.Proofs.ArcWeights
import LayeredDiagram.Proofs.GreedyOrder
import LayeredDiagram.Proofs.Reversals
import LayeredDiagram.Proofs.Regrouping
import LayeredDiagram.Proofs.Sweeps
import LayeredDiagram.Proofs.Loops
import LayeredDiagram.Proofs.Tables
import LayeredDiagram.Proofs.Completeness
import LayeredDiagram.Proofs.Joins
import LayeredDiagram.Proofs.Merging
import LayeredDiagram.Proofs.Dashes
import LayeredDiagram.Proofs.Handles
import LayeredDiagram.Proofs.Visibility
import LayeredDiagram.Proofs.Brackets
import LayeredDiagram.Proofs.Nesting
import LayeredDiagram.Proofs.Boxes
import LayeredDiagram.Proofs.GroupLabels
import LayeredDiagram.Proofs.Margins
import LayeredDiagram.Proofs.Memberships
import LayeredDiagram.Proofs.LayerBlocks
import LayeredDiagram.Proofs.Arrows
import LayeredDiagram.Proofs.Mirroring
import LayeredDiagram.Proofs.EmptyGroups
import LayeredDiagram.Proofs.Recording
import LayeredDiagram.Proofs.Doubles
import LayeredDiagram.Proofs.HexColors
import LayeredDiagram.Proofs.Snapping
import LayeredDiagram.Proofs.Separators
import LayeredDiagram.Proofs.Mixing
