import XmlHarvest.Config
import XmlHarvest.Document.Json
import XmlHarvest.Document.Sharing
import XmlHarvest.Harvest.Extractor
import XmlHarvest.Outline
import XmlHarvest.Instant
import XmlHarvest.Keyed
import XmlHarvest.Store.Access
import XmlHarvest.Checkpoint
import XmlHarvest.Collection
import XmlHarvest.Pipeline.Process
import XmlHarvest.CommandLine.Arguments
import XmlHarvest.CommandLine.Command
import XmlHarvest.CommandLine.DatabasePath
import XmlHarvest.CommandLine.OpenDatabase
import XmlHarvest.Store.Filed
import XmlHarvest.CommandLine.Execute
import XmlHarvest.CommandLine.FileTree
import XmlHarvest.Main
import XmlHarvest.Proofs.Results
import XmlHarvest.Proofs.Checkpoint.Texts
import XmlHarvest.Proofs.Ledger
import XmlHarvest.Proofs.Checkpoint.History
import XmlHarvest.Proofs.Pipeline.Progress
import XmlHarvest.Proofs.Pipeline.Ends
import XmlHarvest.Proofs.Pipeline.Moves
import XmlHarvest.Proofs.Pipeline.Attempts
import XmlHarvest.Proofs.Pipeline.Resumption
import XmlHarvest.Proofs.Pipeline.Stages
import XmlHarvest.Proofs.Pipeline.Calls
import XmlHarvest.Proofs.Pipeline.Operations
import XmlHarvest.Proofs.Pipeline.Places
import XmlHarvest.Proofs.Pipeline.Lockstep
import XmlHarvest.Proofs.Pipeline.Scratch
import XmlHarvest.Proofs.Document.Reading
import XmlHarvest.Proofs.Document.Sharing
import XmlHarvest.Proofs.Document.Lossless
import XmlHarvest.Proofs.Harvest.Nesting
import XmlHarvest.Proofs.Store.Storing
import XmlHarvest.Proofs.Store.Retrieval
import XmlHarvest.Proofs.Store.Atomicity
import XmlHarvest.Proofs.Xml.Order
import XmlHarvest.Proofs.XPath.Meaning
import XmlHarvest.Proofs.XPath.Derivation
import XmlHarvest.Proofs.XPath.Words
import XmlHarvest.Proofs.XPath.Reading
import XmlHarvest.Proofs.Harvest.Yield
import XmlHarvest.Proofs.Harvest.Meaning
import XmlHarvest.Proofs.Text.Words
import XmlHarvest.Proofs.Text.Sentences
import XmlHarvest.Proofs.Text.NormalForm
import XmlHarvest.Proofs.Harvest.Splitting
import XmlHarvest.Proofs.Xml.Subtree
import XmlHarvest.Proofs.Xml.Ancestry
import XmlHarvest.Proofs.XPath.Downward
import XmlHarvest.Proofs.Harvest.Locality
import XmlHarvest.Proofs.XPath.Positions
import XmlHarvest.Proofs.XPath.AnyDepth
import XmlHarvest.Proofs.Xml.InnerText
import XmlHarvest.Proofs.XPath.StringValue
import XmlHarvest.Proofs.Document.Runs
import XmlHarvest.Proofs.Store.SharedLists
import XmlHarvest.Proofs.Store.Accounting
import XmlHarvest.Proofs.Pipeline.Finished
import XmlHarvest.Proofs.Store.Entries
import XmlHarvest.Proofs.Pipeline.Trials
import XmlHarvest.Proofs.Pipeline.Summaries
import XmlHarvest.Proofs.Store.OpenTransaction
import XmlHarvest.Proofs.Outline.Shape
import XmlHarvest.Proofs.Pipeline.Footprint
import XmlHarvest.Proofs.Text.ByteOrder
import XmlHarvest.Proofs.Collection
import XmlHarvest.Proofs.Harvest.Failures
import XmlHarvest.Proofs.Outline.Lines
import XmlHarvest.Proofs.XPath.Spelling
import XmlHarvest.Proofs.Harvest.Caching
import XmlHarvest.Proofs.Store.Migration
import XmlHarvest.Proofs.Store.Logging
import XmlHarvest.Proofs.Json.Records
import XmlHarvest.Proofs.Json.Grammar
import XmlHarvest.Proofs.Grammar.Shape
