import PdfStore.Number.Shortest
import PdfStore.Object.Basic
import PdfStore.Text.Lossy
import PdfStore.Text.Quoted

/-!
# Objects shown in full

A text for people that names every constructor and field, on one line. Strings are shown as the text
that their bytes encode.
-/

namespace PdfStore

def bracketed (items : List String) : String := "[" ++ ", ".intercalate items ++ "]"

/-- Fields between braces, with commas; no space inside when there is none. -/
def braced (items : List String) : String := "\x7b" ++ ", ".intercalate items ++ "\x7d"

def shownField (type field value : String) : String := s!"{type} \x7b {field}: {value} \x7d"

def StringForm.shown : StringForm → String
  | literal => "Literal"
  | hex => "Hex"

def ByteString.shown (s : ByteString) : String :=
  s!"PdfString({Text.quoted (Text.lossy s.bytes)}, {s.form.shown})"

def Number.shown : Number → String
  | integer n => s!"Integer({n.toInt})"
  | real x => s!"Real({shortText x})"

def Name.shown (n : Name) : String := s!"/{n}"

def shownArray (items : List String) : String := shownField "Array" "items" (bracketed items)

def shownDictionary (entries : List String) : String := shownField "Dictionary" "entries" (braced entries)

def shownStream (entries : List String) (data : Bytes) : String :=
  let bytes := bracketed (data.map fun b => toString b.toNat)
  s!"Stream \x7b dict: {shownDictionary entries}, data: {bytes} \x7d"

namespace Object

mutual

def shown : Object → String
  | null => "Null"
  | boolean b => s!"Boolean({b})"
  | number n => s!"Number({n.shown})"
  | name n => s!"Name({Name.shown n})"
  | string s => s!"String({s.shown})"
  | array items => s!"Array({shownArray (shownItems items)})"
  | dictionary entries => s!"Dictionary({shownDictionary (shownMap entries)})"
  | stream entries data => s!"Stream({shownStream (shownMap entries) data})"
  | indirect r => s!"Indirect({r.debug})"

def shownItems : List Object → List String
  | [] => []
  | o :: rest => shown o :: shownItems rest

def shownMap : OrderedMap Name Object → List String
  | ⟨entries⟩ => shownEntries entries

def shownEntries : List (Name × Object) → List String
  | [] => []
  | (k, o) :: rest => s!"{Name.shown k}: {shown o}" :: shownEntries rest

end

/-! ## Read-only views -/

/-- The view of an object of any kind. -/
def shownView (o : Object) : String := s!"Protected({o.shown})"

/-- The view of a composite or a reference as what it is; leaves have none. -/
def shownTypedView? : Object → Option String
  | array items => some s!"ProtectedArray({shownArray (shownItems items)})"
  | dictionary entries => some s!"ProtectedDictionary({shownDictionary (shownMap entries)})"
  | stream entries data => some s!"ProtectedStream({shownStream (shownMap entries) data})"
  | indirect r => some s!"ProtectedRef({r.debug})"
  | _ => none

end Object

end PdfStore
