import CiPipeline.Node.Json
import CiPipeline.Pipeline
import CiPipeline.FileSystem
import CiPipeline.Session
import CiPipeline.Main
import CiPipeline.Variables
import CiPipeline.Config
import CiPipeline.Proofs.Decimal.Characters
import CiPipeline.Proofs.Node.Scalar
import CiPipeline.Proofs.Text.Lines
import CiPipeline.Proofs.Node.Every
import CiPipeline.Proofs.Node.Lines
import CiPipeline.Proofs.Node.Word
import CiPipeline.Proofs.Node.Unambiguous
import CiPipeline.Proofs.Collection.FirstOccurrence
import CiPipeline.Proofs.Job.Refusal
import CiPipeline.Proofs.Pipeline.History
import CiPipeline.Proofs.Pipeline.Replay
import CiPipeline.Proofs.Pipeline.Erasure
import CiPipeline.Proofs.Node.Fields
import CiPipeline.Proofs.Node.LineKeys
import CiPipeline.Proofs.Node.Sections
import CiPipeline.Proofs.Job.Fields
import CiPipeline.Proofs.Job.WellFormed
import CiPipeline.Proofs.Job.LineKeys
import CiPipeline.Proofs.Job.Schema
import CiPipeline.Proofs.Pipeline.Reachable
import CiPipeline.Proofs.Pipeline.Export
import CiPipeline.Proofs.Pipeline.Sections
import CiPipeline.Proofs.Pipeline.Schema
import CiPipeline.Proofs.Pipeline.Headers
import CiPipeline.Proofs.Node.Dictionary
import CiPipeline.Proofs.Job.Slots
import CiPipeline.Proofs.Job.Warnings
import CiPipeline.Proofs.Job.Independence
import CiPipeline.Proofs.Pipeline.Log
import CiPipeline.Proofs.Collection.Order
import CiPipeline.Proofs.Node.Equality
import CiPipeline.Proofs.Job.Equality
import CiPipeline.Proofs.Pipeline.Equality
import CiPipeline.Proofs.Node.BlankLines
import CiPipeline.Proofs.Node.Shift
import CiPipeline.Proofs.Node.Literal
import CiPipeline.Proofs.Pipeline.Order
import CiPipeline.Proofs.Project
import CiPipeline.Proofs.Pipeline.KeyTexts
import CiPipeline.Proofs.Collection.LastOccurrence
import CiPipeline.Proofs.Job.Artifacts
import CiPipeline.Proofs.Job.Cache
import CiPipeline.Proofs.Job.Calls
import CiPipeline.Proofs.Job.Keys
import CiPipeline.Proofs.Job.Collections
import CiPipeline.Proofs.Job.Retry
import CiPipeline.Proofs.Job.AllowFailure
import CiPipeline.Proofs.Job.Images
import CiPipeline.Proofs.Json.Keys
import CiPipeline.Proofs.Json.Unambiguous
import CiPipeline.Proofs.Node.Equivalence
import CiPipeline.Proofs.Environment
import CiPipeline.Proofs.Node.Appending
import CiPipeline.Proofs.CommandLine.Invocation
import CiPipeline.Proofs.CommandLine.Generate
