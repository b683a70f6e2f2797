import Columnar.ColumnType.Digest
import Columnar.Path.Query
import Columnar.Table
import Columnar.Proofs.ColumnType.Agreement
import Columnar.Proofs.ColumnType.Algebra
import Columnar.Proofs.Schema.Columns
import Columnar.Proofs.Schema.Reordering
import Columnar.Proofs.Scalar.Readers
import Columnar.Proofs.Value.Represents
import Columnar.Proofs.Table.Lossless
import Columnar.Proofs.Document.Outcome
import Columnar.Proofs.Document.Salvage
import Columnar.Proofs.Document.Single
import Columnar.Proofs.Table.Uniform
import Columnar.Proofs.Canonical.Rebuild
import Columnar.Proofs.Json.Reading
import Columnar.Proofs.Path.Extractor
import Columnar.Proofs.Schema.Sampling
import Columnar.Proofs.Schema.Declared
import Columnar.Proofs.Document.Bytes
import Columnar.Proofs.Schema.DocumentType
import Columnar.Proofs.Value.WellTyped
import Columnar.Proofs.Path.Continuation
import Columnar.Proofs.Path.Recency
import Columnar.Proofs.Datum.Rendering
import Columnar.Proofs.Time.Grammar
import Columnar.Proofs.Time.Instant
import Columnar.Proofs.Time.Denotation
import Columnar.Proofs.Number.Exact
import Columnar.Proofs.Scalar.Exact
import Columnar.Proofs.Document.Cuts
import Columnar.Proofs.Yaml.Unfolding
import Columnar.Proofs.Document.FrontMatter
import Columnar.Proofs.ColumnType.Contains
import Columnar.Proofs.Schema.Closed
import Columnar.Proofs.ColumnType.FirstSeen
