import CodeSearch.Chunks.Chunker
import CodeSearch.Chunks.Lines
import CodeSearch.Chunks.Split
import CodeSearch.Chunks.Syntax
import CodeSearch.CodeMap.Basic
import CodeSearch.CodeMap.Import
import CodeSearch.CodeMap.Overview
import CodeSearch.CodeMap.Resolver
import CodeSearch.CodeMap.Tree
import CodeSearch.CommandLine.Arguments
import CodeSearch.CommandLine.Command
import CodeSearch.CommandLine.Response
import CodeSearch.CommandLine.Run
import CodeSearch.Decimal.Binary
import CodeSearch.Decimal.Fixed
import CodeSearch.Decimal.Shortest
import CodeSearch.Digest
import CodeSearch.DocComment
import CodeSearch.Document
import CodeSearch.Embedding.Basic
import CodeSearch.Embedding.Hashing
import CodeSearch.Embedding.Score
import CodeSearch.Embedding.Single
import CodeSearch.Embedding.Text
import CodeSearch.FileSystem.Basic
import CodeSearch.FileSystem.Change
import CodeSearch.Glob.CharSet
import CodeSearch.Glob.Expression
import CodeSearch.Glob.Rule
import CodeSearch.Glob.Syntax
import CodeSearch.Glob.Translation
import CodeSearch.Index.Attribute
import CodeSearch.Index.Error
import CodeSearch.Index.Indexer
import CodeSearch.Index.Run
import CodeSearch.Index.Store
import CodeSearch.Json.Printer
import CodeSearch.Json.Reader
import CodeSearch.Json.Record
import CodeSearch.Json.Value
import CodeSearch.Language
import CodeSearch.Main
import CodeSearch.Outline
import CodeSearch.Parsing
import CodeSearch.Path
import CodeSearch.Proofs.Chunks.Checked
import CodeSearch.Proofs.Chunks.CheckedSplit
import CodeSearch.Proofs.Chunks.FirstLines
import CodeSearch.Proofs.Chunks.Lines
import CodeSearch.Proofs.Chunks.Names
import CodeSearch.Proofs.Chunks.Ownership
import CodeSearch.Proofs.Chunks.Partition
import CodeSearch.Proofs.Chunks.Sizes
import CodeSearch.Proofs.Chunks.Tails
import CodeSearch.Proofs.Chunks.Texts
import CodeSearch.Proofs.CodeMap.Budget
import CodeSearch.Proofs.CodeMap.Documents
import CodeSearch.Proofs.CodeMap.Ids
import CodeSearch.Proofs.CodeMap.Insertion
import CodeSearch.Proofs.CodeMap.Modules
import CodeSearch.Proofs.CodeMap.Nodes
import CodeSearch.Proofs.CodeMap.Order
import CodeSearch.Proofs.CodeMap.Overview
import CodeSearch.Proofs.CodeMap.Relations
import CodeSearch.Proofs.CodeMap.RoundTrip
import CodeSearch.Proofs.CodeMap.Specifiers
import CodeSearch.Proofs.CodeMap.Tidy
import CodeSearch.Proofs.CodeMap.UsePaths
import CodeSearch.Proofs.DocComments
import CodeSearch.Proofs.Embedding.Order
import CodeSearch.Proofs.Embedding.Rounding
import CodeSearch.Proofs.Embedding.Scaling
import CodeSearch.Proofs.Embedding.Stored
import CodeSearch.Proofs.Embedding.Wholes
import CodeSearch.Proofs.Embedding.Words
import CodeSearch.Proofs.Glob.Classes
import CodeSearch.Proofs.Glob.Escapes
import CodeSearch.Proofs.Glob.Language
import CodeSearch.Proofs.Glob.Lists
import CodeSearch.Proofs.Glob.Matching
import CodeSearch.Proofs.Glob.Names
import CodeSearch.Proofs.Glob.Separators
import CodeSearch.Proofs.Glob.Signs
import CodeSearch.Proofs.Glob.Translation
import CodeSearch.Proofs.Index.Answers
import CodeSearch.Proofs.Index.Backends
import CodeSearch.Proofs.Index.Catalog
import CodeSearch.Proofs.Index.Cleanup
import CodeSearch.Proofs.Index.Complete
import CodeSearch.Proofs.Index.Containment
import CodeSearch.Proofs.Index.Convergence
import CodeSearch.Proofs.Index.Documents
import CodeSearch.Proofs.Index.Files
import CodeSearch.Proofs.Index.Incremental
import CodeSearch.Proofs.Index.Operations
import CodeSearch.Proofs.Index.Reachable
import CodeSearch.Proofs.Index.Reading
import CodeSearch.Proofs.Index.Reports
import CodeSearch.Proofs.Index.Retries
import CodeSearch.Proofs.Index.Runs
import CodeSearch.Proofs.Index.Standing
import CodeSearch.Proofs.Outline
import CodeSearch.Proofs.OutlineRows
import CodeSearch.Proofs.Parsing
import CodeSearch.Proofs.PathOrder
import CodeSearch.Proofs.Paths
import CodeSearch.Proofs.RawTexts
import CodeSearch.Proofs.Retrieval.Candidates
import CodeSearch.Proofs.Retrieval.Contexts
import CodeSearch.Proofs.Retrieval.Discount
import CodeSearch.Proofs.Retrieval.Failures
import CodeSearch.Proofs.Retrieval.Provenance
import CodeSearch.Proofs.Retrieval.Ranking
import CodeSearch.Proofs.Retrieval.Structural
import CodeSearch.Proofs.Retrieval.Success
import CodeSearch.Proofs.Selection.DepthFirst
import CodeSearch.Proofs.Selection.Included
import CodeSearch.Proofs.Selection.Places
import CodeSearch.Proofs.Selection.Statistics
import CodeSearch.Proofs.Steps
import CodeSearch.Proofs.Tables
import CodeSearch.Proofs.Texts
import CodeSearch.Proofs.VectorStore.Database
import CodeSearch.Proofs.VectorStore.Lawful
import CodeSearch.Proofs.VectorStore.Memory
import CodeSearch.Proofs.VectorStore.Requests
import CodeSearch.Proofs.VectorStore.Searches
import CodeSearch.Proofs.VectorStore.Transparent
import CodeSearch.Retrieval.Context
import CodeSearch.Retrieval.Result
import CodeSearch.Retrieval.Retriever
import CodeSearch.Selection.Entry
import CodeSearch.Selection.Selector
import CodeSearch.Selection.Walk
import CodeSearch.Settings
import CodeSearch.SyntaxTree
import CodeSearch.Table
import CodeSearch.Text.Blank
import CodeSearch.Text.Bytes
import CodeSearch.Text.Letters
import CodeSearch.Text.Lines
import CodeSearch.Text.Raw
import CodeSearch.Text.Search
import CodeSearch.Text.Utf8
import CodeSearch.Toml.Reader
import CodeSearch.Toml.Scalar
import CodeSearch.VectorStore.Basic
import CodeSearch.VectorStore.Database
import CodeSearch.VectorStore.Memory
import CodeSearch.VectorStore.Point
import CodeSearch.VectorStore.Record
import CodeSearch.Workspace
