import PdfStore.Codec.Zlib
import PdfStore.Config
import PdfStore.Json.Identity
import PdfStore.Object.Edit
import PdfStore.Object.Shown
import PdfStore.Proofs.Agreement
import PdfStore.Proofs.Integrity
import PdfStore.Session.Dereference
import PdfStore.Session.Write
import PdfStore.Sparse.Deque
import PdfStore.Proofs.Generations
import PdfStore.Proofs.ReadBack
import PdfStore.Proofs.Reading
import PdfStore.Proofs.Unambiguous
import PdfStore.Proofs.SparseRuns
import PdfStore.Proofs.Following
import PdfStore.Proofs.Sources
import PdfStore.Proofs.Stranded
import PdfStore.Proofs.FailedWrites
import PdfStore.Proofs.DequeRuns
import PdfStore.Proofs.Refusals
import PdfStore.Proofs.Growth
import PdfStore.Proofs.WrittenReferences
import PdfStore.Proofs.NewBindings
import PdfStore.Proofs.IdentityHistory
import PdfStore.Proofs.Reservations
import PdfStore.Proofs.Chains
import PdfStore.Proofs.WriteOutcome
import PdfStore.Proofs.Copying
import PdfStore.Proofs.Reuse
import PdfStore.Proofs.Closing
import PdfStore.Proofs.FirstFault
import PdfStore.Proofs.LeafHistory
import PdfStore.Proofs.StreamCodecs
import PdfStore.Proofs.HexText
import PdfStore.Proofs.Escapes
import PdfStore.Proofs.IdentityText
import PdfStore.Proofs.DictionaryRuns
import PdfStore.Proofs.SectionEntries
import PdfStore.Proofs.DroppedStores
import PdfStore.Proofs.RealText
