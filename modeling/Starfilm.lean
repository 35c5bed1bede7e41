import Starfilm.Arith
import Starfilm.Arith.Binary
import Starfilm.Arith.Double
import Starfilm.Arith.Elementary
import Starfilm.Arith.Single
import Starfilm.Caption
import Starfilm.Command
import Starfilm.CommandLine
import Starfilm.Decimal.Grouped
import Starfilm.Decimal.Read
import Starfilm.Decimal.Shortest
import Starfilm.Decimal.Text
import Starfilm.Disk
import Starfilm.Disk.Fault
import Starfilm.Disk.Path
import Starfilm.Failure
import Starfilm.Film
import Starfilm.Film.External
import Starfilm.Film.Loop
import Starfilm.Frame
import Starfilm.Frame.Files
import Starfilm.Frame.Index
import Starfilm.Json.Document
import Starfilm.Json.Number
import Starfilm.Json.Print
import Starfilm.Json.Record
import Starfilm.Json.Text
import Starfilm.Json.Value
import Starfilm.Main
import Starfilm.Proofs.Arith.PlaceOrder
import Starfilm.Proofs.Window.Pooling
import Starfilm.Random.Source
import Starfilm.Random.Uniform
import Starfilm.Random.Ziggurat
import Starfilm.Raster.Animation
import Starfilm.Raster.Bytes
import Starfilm.Raster.Draw
import Starfilm.Raster.Gif
import Starfilm.Raster.Image
import Starfilm.Raster.Palette
import Starfilm.Raster.PixelMap
import Starfilm.Raster.Png
import Starfilm.Raster.Size
import Starfilm.Render
import Starfilm.Run
import Starfilm.Settings
import Starfilm.Settings.File
import Starfilm.Settings.Json
import Starfilm.Shell.Parser
import Starfilm.Shell.Pattern
import Starfilm.Shell.Run
import Starfilm.Shell.Script
import Starfilm.Shell.Tools
import Starfilm.Snapshot
import Starfilm.Snapshot.Container
import Starfilm.Snapshot.Discovery
import Starfilm.Snapshot.Sequence
import Starfilm.Snapshot.Synthetic
import Starfilm.View.Axis
import Starfilm.View.Mode
import Starfilm.View.Rotation
import Starfilm.View.Transform
import Starfilm.Window
import Starfilm.Window.Estimate
import Starfilm.Window.Percentile
import Starfilm.Window.Settings
import Starfilm.Proofs.Arith.Exact
import Starfilm.Proofs.Window.Percentile
import Starfilm.Proofs.Window.Settings
import Starfilm.Proofs.Window.Range
import Starfilm.Proofs.Raster.Gather
import Starfilm.Proofs.Raster.StorageOrder
import Starfilm.Proofs.Run.Steps
import Starfilm.Proofs.Frame.Calls
import Starfilm.Proofs.Render.Trace
import Starfilm.Proofs.Render.Stages
import Starfilm.Proofs.View.Finiteness
import Starfilm.Proofs.Window.Framed
import Starfilm.Proofs.Disk.Nodes
import Starfilm.Proofs.Disk.Ways
import Starfilm.Proofs.Frame.Names
import Starfilm.Proofs.Frame.Directory
import Starfilm.Proofs.Frame.Reuse
import Starfilm.Proofs.View.Scaling
import Starfilm.Proofs.Window.Exact
import Starfilm.Proofs.Window.Scaling
import Starfilm.Proofs.Raster.Scaling
import Starfilm.Proofs.Render.Scaling
import Starfilm.Proofs.Disk.Listing
import Starfilm.Proofs.Snapshot.Loading
import Starfilm.Proofs.Frame.Table
import Starfilm.Proofs.Arith.Integers
import Starfilm.Proofs.Results
import Starfilm.Proofs.Json.Record
import Starfilm.Proofs.Settings.View
import Starfilm.Proofs.Settings.Overriding
import Starfilm.Proofs.Snapshot.Layout
import Starfilm.Proofs.Snapshot.Reading
import Starfilm.Proofs.Snapshot.Naming
import Starfilm.Proofs.Arith.Products
import Starfilm.Proofs.Raster.Words
import Starfilm.Proofs.Raster.Totality
import Starfilm.Proofs.Raster.Letterbox
import Starfilm.Proofs.CommandLine.Values
import Starfilm.Proofs.CommandLine.Settings
import Starfilm.Proofs.CommandLine.Order
import Starfilm.Proofs.Window.Coordinates
import Starfilm.Proofs.Window.Nesting
import Starfilm.Proofs.Arith.Monotone
import Starfilm.Proofs.Arith.ZeroSign
import Starfilm.Proofs.Raster.ZeroSign
import Starfilm.Proofs.Render.Untilted
import Starfilm.Proofs.View.Turning
import Starfilm.Proofs.Window.Outliers
import Starfilm.Proofs.Render.EdgeOn
import Starfilm.Proofs.Film.Fallback
import Starfilm.Proofs.Disk.Components
import Starfilm.Proofs.Film.Pattern
import Starfilm.Proofs.Film.Encoder
import Starfilm.Proofs.Raster.Blending
import Starfilm.Proofs.Decimal.Grouped
import Starfilm.Proofs.Random.Draws
import Starfilm.Proofs.Random.Uniform
import Starfilm.Proofs.Random.Ziggurat
import Starfilm.Proofs.Snapshot.Synthetic
import Starfilm.Proofs.Arith.Finiteness
import Starfilm.Proofs.Arith.Interpolation
import Starfilm.Proofs.Arith.Operations
import Starfilm.Proofs.Arith.Reals
import Starfilm.Proofs.Arith.Rounding
import Starfilm.Proofs.Arith.Sorting
import Starfilm.Proofs.Arith.Unpacked
import Starfilm.Proofs.Arith.Values
import Starfilm.Proofs.Disk.Paths
import Starfilm.Proofs.Raster.Marks
import Starfilm.Proofs.Shell.Changes
import Starfilm.Proofs.View.Points
import Starfilm.Proofs.Window.Interpolation
import Starfilm.Proofs.Window.Quantile
import Starfilm.Proofs.Window.Seen
import Starfilm.Proofs.Window.Widening
import Starfilm.Proofs.Window.Width
import Starfilm.Proofs.Window.ZeroSign
