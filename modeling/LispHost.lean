import LispHost.Lib.Program
import LispHost.Word
import LispHost.Symbols
import LispHost.Boxed
import LispHost.Arena
import LispHost.Reader
import LispHost.Grammar
import LispHost.ReaderSpec
import LispHost.Eval
import LispHost.Printer
import LispHost.Session
import LispHost.Reference
import LispHost.Returns
import LispHost.SafeEval
import LispHost.TwoRun
import LispHost.Calls
import LispHost.Opacity
import LispHost.Provenance
import LispHost.Renaming
import LispHost.Isolation
import LispHost.Lib.Euclid
import LispHost.Rational
import LispHost.Lib.Transition
import LispHost.Lib.History
import LispHost.Lib.Ledger
import LispHost.Lifetimes
import LispHost.SourceText
import LispHost.Accepts
import LispHost.Literals
import LispHost.Layout
import LispHost.RoundTrip
import LispHost.Replies
import LispHost.ServeClient
import LispHost.Bridge
import LispHost.EventHandle
import LispHost.LocalReplServer
import LispHost.ReplThreads
import LispHost.ReplyOnce
import LispHost.Adapter
import LispHost.PlayerEpochs
import LispHost.ServeStream
import LispHost.Lib.Window
import LispHost.NeuralDeck
import LispHost.HandleTable
import LispHost.Lib.Keyed
import LispHost.SymbolMap
import LispHost.Lib.Keeps
import LispHost.ReaderKeeps
import LispHost.ArenaOrder
import LispHost.Crosscheck
import LispHost.CanonSpellings
import LispHost.EvalKeeps
import LispHost.OneLine
import LispHost.OneReply
import LispHost.HostRegistry
import LispHost.EntryText
import LispHost.ListedEntries
import LispHost.RegistryProjection
import LispHost.CallBound
import LispHost.Lib.X64
import LispHost.Nucleus
import LispHost.NucleusCalls
import LispHost.NucleusRuns
import LispHost.Lib.Resources
import LispHost.Lib.Triple
import LispHost.Plugin
import LispHost.PluginOutcome
import LispHost.PluginResources
import LispHost.PluginRuns
import LispHost.Console
import LispHost.Dispatch
import LispHost.DispatchRuns
import LispHost.Residency
import LispHost.DeckTranscript
import LispHost.PlayerLog
