import HeapStore.Engine.Scan
import HeapStore.Engine.Tuples
import HeapStore.Engine.WriteBack
import HeapStore.Json.Form
import HeapStore.Pool.FrameUse
import HeapStore.Proofs.BeforeImages
import HeapStore.Proofs.DeleteOutcome
import HeapStore.Proofs.DirtyPages
import HeapStore.Proofs.FlushEffect
import HeapStore.Proofs.InsertAnswers
import HeapStore.Proofs.InsertPlacement
import HeapStore.Proofs.JsonForms
import HeapStore.Proofs.ListCursor
import HeapStore.Proofs.NoSteal
import HeapStore.Proofs.OneCopy
import HeapStore.Proofs.PoolConsistency
import HeapStore.Proofs.PoolSize
import HeapStore.Proofs.ScanRoom
import HeapStore.Proofs.ScanUpdates
import HeapStore.Proofs.ScannedTuples
import HeapStore.Proofs.SlotChanges
import HeapStore.Proofs.TableRefinement
import HeapStore.Proofs.TupleRoundTrip
import HeapStore.Proofs.PageGeometry
import HeapStore.Proofs.FileOpening
import HeapStore.Proofs.LastWrites
import HeapStore.Proofs.FieldUpdates
import HeapStore.Proofs.LastSnapshot
import HeapStore.Proofs.FrameUsers
import HeapStore.Proofs.FileOverlay
import HeapStore.Proofs.TextCuts
