import MarkupExport.Main
import MarkupExport.Node.Printer
import MarkupExport.Proofs.Export.Success
import MarkupExport.Proofs.Markup.Document
import MarkupExport.Proofs.Export.Termination
import MarkupExport.Proofs.Export.Output
import MarkupExport.Proofs.Export.Tour
import MarkupExport.Proofs.Export.Hidden
import MarkupExport.Proofs.Export.Marked
import MarkupExport.Proofs.Export.Appended
import MarkupExport.Proofs.Export.Placement
import MarkupExport.Proofs.Node.RoundTrip
import MarkupExport.Proofs.Node.Relaid
import MarkupExport.Proofs.Export.Renaming
import MarkupExport.Proofs.Export.Isolation
import MarkupExport.Proofs.CommandLine.AllOrNothing
import MarkupExport.Proofs.Link.Blanks
import MarkupExport.Proofs.Link.Anchor
import MarkupExport.Proofs.Markup.ValueTag
import MarkupExport.Proofs.Markup.Literal
import MarkupExport.Proofs.Link.Web
import MarkupExport.Proofs.Export.Surround
import MarkupExport.Proofs.Export.Locality
import MarkupExport.Proofs.Settings.Layers
import MarkupExport.Proofs.CommandLine.Overrides
import MarkupExport.Proofs.CommandLine.ImpliedCommand
import MarkupExport.Proofs.Format.Registry
import MarkupExport.Proofs.CommandLine.Target
import MarkupExport.Proofs.Export.Policies
import MarkupExport.Proofs.Export.Levels
import MarkupExport.Proofs.Footnote.History
import MarkupExport.Proofs.Footnote.DocumentOrder
import MarkupExport.Proofs.Markup.Escaping
