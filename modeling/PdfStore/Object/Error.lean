import PdfStore.Codec.Basic
import PdfStore.Handle
import PdfStore.Number.Shortest

/-!
# Errors of objects

What can go wrong when an object is written or a stream is encoded or decoded.
-/

namespace PdfStore

inductive ObjectError
  | unbound (r : Reference)
  | nonFinite (x : Float)
  | unknownFilter (name : String)
  | filter (name : String) (cause : CodecError)
  | malformedFilter

def ObjectError.message : ObjectError → String
  | unbound r => s!"reference {r.debug} is not bound to the store being written"
  | nonFinite x => s!"cannot serialize non-finite real {shortText x}"
  | unknownFilter name => s!"unknown stream filter: {name}"
  | filter name cause => s!"filter {name} failed: {cause.message}"
  | malformedFilter => "malformed /Filter entry"

end PdfStore
