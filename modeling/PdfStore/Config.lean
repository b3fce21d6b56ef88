import PdfStore.Bytes
import PdfStore.Text.Quoted
import PdfStore.Toml.Written

/-!
# Configuration

What is fixed when a store is created: the version in its first line, whether a second line marks it as
binary, the cluster size of its table, and the generation at which slots are retired. The module checks
a configuration, and reads and writes it as TOML.
-/

namespace PdfStore

structure Config where
  version : String
  binaryMarker : Bool
  clusterSize : Nat
  maxGeneration : UInt16
deriving DecidableEq, Repr

inductive ConfigError
  | smallCluster (n : Nat)
  | noGeneration
  | badVersion (version : String)
  /-- The text is no TOML, or a setting has a value of another type or out of its range. -/
  | unreadable
  /-- A number has no TOML form. -/
  | unwritable
deriving DecidableEq, Repr

namespace ConfigError

def detail : ConfigError → String
  | smallCluster n => s!"cluster_size must be at least 2, got {n}"
  | noGeneration => "max_generation must be nonzero"
  | badVersion version => s!"invalid version {Text.quoted version}"
  | unreadable => "not a configuration"
  | unwritable => "out-of-range value for u64 type"

def message (e : ConfigError) : String := s!"invalid configuration: {e.detail}"

end ConfigError

namespace Config

/-- What holds for settings that are not given. -/
def standard : Config := ⟨"1.4", true, 64, 65535⟩

instance : Inhabited Config := ⟨standard⟩

def validate (c : Config) : Except ConfigError Unit :=
  if c.clusterSize < 2 then .error (.smallCluster c.clusterSize)
  else if c.maxGeneration = 0 then .error .noGeneration
  else if c.version.isEmpty || !c.version.toList.all (fun d => d.isDigit || d = '.') then
    .error (.badVersion c.version)
  else .ok ()

/-- The bytes in front of the first object. -/
def header (c : Config) : Bytes :=
  Bytes.ofString s!"%PDF-{c.version}\n" ++
    if c.binaryMarker then [0x25, 0xE2, 0xE3, 0xCF, 0xD3, 0x0A] else []

/-! ## TOML -/

def setting {α : Type} (t : Toml.Table) (k : String) (missing : α) (read : Toml.Value → Option α) :
    Option α :=
  match t.get? k with
  | none => some missing
  | some (.value v) => read v
  | some _ => none

def readText : Toml.Value → Option String
  | .text s => some s
  | _ => none

def readBoolean : Toml.Value → Option Bool
  | .boolean b => some b
  | _ => none

def readNatural (limit : Nat) : Toml.Value → Option Nat
  | .integer n => if 0 ≤ n && n ≤ limit then some n.toNat else none
  | _ => none

def ofTable? (t : Toml.Table) : Option Config := do
  let version ← setting t "version" standard.version readText
  let binaryMarker ← setting t "binary_marker" standard.binaryMarker readBoolean
  let clusterSize ← setting t "cluster_size" standard.clusterSize (readNatural 18446744073709551615)
  let maxGeneration ← setting t "max_generation" standard.maxGeneration.toNat (readNatural 65535)
  some ⟨version, binaryMarker, clusterSize, UInt16.ofNat maxGeneration⟩

def ofToml (text : String) : Except ConfigError Config := do
  match (Toml.parse? text).bind ofTable? with
  | none => throw .unreadable
  | some c =>
    c.validate
    return c

def toToml (c : Config) : Except ConfigError String :=
  if 9223372036854775807 < c.clusterSize then .error .unwritable
  else .ok (String.join
    [s!"version = {Toml.written c.version}\n", s!"binary_marker = {c.binaryMarker}\n",
      s!"cluster_size = {c.clusterSize}\n", s!"max_generation = {c.maxGeneration.toNat}\n"])

end Config

end PdfStore
