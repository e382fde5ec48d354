import PluginClosure.TransitiveSet.Linearisation
import PluginClosure.Target
import PluginClosure.Value.Outline
import PluginClosure.Proofs.KeepFirst
import PluginClosure.Proofs.TransitiveSet.DependencyOrder
import PluginClosure.Proofs.TransitiveSet.Gathering
import PluginClosure.Proofs.Records.Inventory
import PluginClosure.Proofs.Records.Contents
import PluginClosure.Proofs.Records.Union
import PluginClosure.Proofs.Records.UnionTree
import PluginClosure.Proofs.Records.UnionContents
import PluginClosure.Proofs.TransitiveSet.EqualParts
import PluginClosure.Proofs.Records.Attempts
import PluginClosure.Proofs.Records.EqualParts
import PluginClosure.Proofs.Records.Operations
import PluginClosure.Proofs.Session.Bench
import PluginClosure.Proofs.Session.Basic
import PluginClosure.Proofs.Session.Emptiness
import PluginClosure.Proofs.Session.OneOrder
import PluginClosure.Proofs.Records.Returns
import PluginClosure.Proofs.Records.Decoded
import PluginClosure.Proofs.Records.UnionTwo
import PluginClosure.Proofs.Records.ApiPlugins
import PluginClosure.Proofs.Session.CanonicalEmpty
import PluginClosure.Proofs.TransitiveSet.CursorCalls
import PluginClosure.Proofs.TransitiveSet.Turns
import PluginClosure.Proofs.TransitiveSet.SkippedImports
import PluginClosure.Proofs.TransitiveSet.SetTree
import PluginClosure.Proofs.Records.Verdicts
import PluginClosure.Proofs.Records.Lookup
import PluginClosure.Proofs.Records.SharedNodes
import PluginClosure.Proofs.Records.FirstFault
import PluginClosure.Proofs.Records.Refusals
import PluginClosure.Proofs.Records.RoundTrip
import PluginClosure.Proofs.Records.WrittenProcessors
import PluginClosure.Proofs.Records.WrittenProviders
import PluginClosure.Proofs.Records.ExactReadings
import PluginClosure.Proofs.Records.ProcessorsFormat
import PluginClosure.Proofs.Records.CompilationReadings
import PluginClosure.Proofs.Records.LookupEvents
