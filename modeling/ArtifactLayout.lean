import ArtifactLayout.Main
import ArtifactLayout.Proofs.Arena.Aligned
import ArtifactLayout.Proofs.Arena.Draws
import ArtifactLayout.Proofs.Corpus.FixedShape
import ArtifactLayout.Proofs.Field.Addressing
import ArtifactLayout.Proofs.Fill.Consistency
import ArtifactLayout.Proofs.Guarded.Pass
import ArtifactLayout.Proofs.Scope.Copies
import ArtifactLayout.Proofs.Factory.Action
import ArtifactLayout.Proofs.Factory.Advance
import ArtifactLayout.Proofs.Factory.Atomic
import ArtifactLayout.Proofs.Factory.Consistent
import ArtifactLayout.Proofs.Factory.Limits
import ArtifactLayout.Proofs.Script.Written
import ArtifactLayout.Proofs.Script.Scan
import ArtifactLayout.Proofs.Script.Drive
import ArtifactLayout.Proofs.Script.Spelling
import ArtifactLayout.Proofs.Script.Escapes
import ArtifactLayout.Proofs.Pass.Isolation
import ArtifactLayout.Proofs.Scope.Scan
import ArtifactLayout.Proofs.Fill.ByteOrder
import ArtifactLayout.Proofs.Pass.ByteOrder
import ArtifactLayout.Proofs.Corpus.FileNames
import ArtifactLayout.Proofs.Corpus.Passes
import ArtifactLayout.Proofs.Corpus.Folder
import ArtifactLayout.Proofs.Corpus.Agreement
import ArtifactLayout.Proofs.Corpus.Retries
import ArtifactLayout.Proofs.Field.Writing
import ArtifactLayout.Proofs.Guarded.Writing
import ArtifactLayout.Proofs.Field.Access
import ArtifactLayout.Proofs.Field.Number
import ArtifactLayout.Proofs.Field.Packing
import ArtifactLayout.Proofs.Scope.Survey
import ArtifactLayout.Proofs.Factory.Grouping
import ArtifactLayout.Proofs.Fill.Auto
import ArtifactLayout.Proofs.Arena.OneValued
import ArtifactLayout.Proofs.Field.Dump
import ArtifactLayout.Proofs.Arena.Cycles
