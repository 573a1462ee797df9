import Handoff.Archive.Instant
import Handoff.Design.Decode
import Handoff.Design.Encode
import Handoff.Json.Depth
import Handoff.Json.KeyOrder
import Handoff.Json.Reader
import Handoff.Json.Slots

set_option autoImplicit false
set_option relaxedAutoImplicit false

/-!
The archive form of a design: an envelope of metadata and the design.

A design is read from an envelope or by itself. Metadata only informs, so that a design is read even when they
are malformed.
-/

namespace Handoff.Archive
open Design

structure Options where
  /-- A line for each part, rather than one for all. -/
  pretty : Bool := true
  includeMetadata : Bool := true
  sortKeys : Bool := true
  author : Option String := none
  /-- The time of the export, when it is not that of the clock. -/
  timestamp : Option Instant := none
  deriving DecidableEq

namespace Options

def compact (options : Options) : Options :=
  { options with pretty := false }

def withoutMetadata (options : Options) : Options :=
  { options with includeMetadata := false }

def withAuthor (options : Options) (author : String) : Options :=
  { options with author := some author }

def withTimestamp (options : Options) (timestamp : Instant) : Options :=
  { options with timestamp := some timestamp }

def optionalText : Option String → Json
  | some s => .string s
  | none => .null

def encode (options : Options) : Json :=
  .object [("pretty", .bool options.pretty), ("includeMetadata", .bool options.includeMetadata),
    ("sortKeys", .bool options.sortKeys), ("author", optionalText options.author),
    ("timestamp", optionalText (options.timestamp.map Instant.exactText))]

def instant? (w : Written) : Option Instant :=
  w.text?.bind Instant.read

def decode (w : Written) : Option Options :=
  match w.slots ["pretty", "includeMetadata", "sortKeys", "author", "timestamp"] with
  | some [pretty, includeMetadata, sortKeys, author, timestamp] => do
    let pretty ← Written.slotD Written.flag? true pretty
    let includeMetadata ← Written.slotD Written.flag? true includeMetadata
    let sortKeys ← Written.slotD Written.flag? true sortKeys
    let author ← Written.slotD (Written.optional? Written.text?) none author
    let timestamp ← Written.slotD (Written.optional? instant?) none timestamp
    return { pretty, includeMetadata, sortKeys, author, timestamp }
  | _ => none

/-- The text of a value as the options have it. -/
def print (options : Options) (v : Json) : String :=
  let v := if options.sortKeys then v.sortKeys else v
  if options.pretty then v.pretty else v.compact

end Options

def formatVersion : String := "1.0.0"

/-- What an envelope says about its design. -/
structure Metadata where
  formatVersion : String := ""
  exportedAt : String := ""
  schemaVersion : Option String := none
  title : Option String := none
  author : Option String := none
  deriving DecidableEq, Repr

namespace Metadata

/-- The metadata for a design; `now` is the time of the clock. -/
def ofTree (options : Options) (now : Instant) (tree : Tree) : Metadata :=
  { formatVersion := Archive.formatVersion
    exportedAt := (options.timestamp.getD now).milliText
    schemaVersion := tree.version
    title := tree.name
    author := options.author }

def encode (m : Metadata) : Json :=
  .object ([("exportFormatVersion", .string m.formatVersion), ("exportedAt", .string m.exportedAt)]
    ++ member "schemaVersion" .string m.schemaVersion ++ member "title" .string m.title
    ++ member "author" .string m.author)

def decode (w : Written) : Option Metadata :=
  match w.slots ["exportFormatVersion", "exportedAt", "schemaVersion", "title", "author"] with
  | some [formatVersion, exportedAt, schemaVersion, title, author] => do
    let formatVersion ← Written.slotD Written.text? "" formatVersion
    let exportedAt ← Written.slotD Written.text? "" exportedAt
    let schemaVersion ← Written.slotD (Written.optional? Written.text?) none schemaVersion
    let title ← Written.slotD (Written.optional? Written.text?) none title
    let author ← Written.slotD (Written.optional? Written.text?) none author
    return { formatVersion, exportedAt, schemaVersion, title, author }
  | _ => none

end Metadata

/-- A design with what is said about it. -/
structure Envelope where
  metadata : Option Metadata
  tree : Tree

def Envelope.encode (e : Envelope) : Json :=
  .object (member "metadata" Metadata.encode e.metadata ++ [("spec", e.tree.encode)])

/-- The archive text of a design; `now` is the time of the clock. -/
def write (options : Options) (now : Instant) (tree : Tree) : String :=
  let metadata := if options.includeMetadata then some (Metadata.ofTree options now tree) else none
  options.print (Envelope.encode ⟨metadata, tree⟩)

inductive ReadError where
  /-- The text is not JSON, or nests too deep at a place. -/
  | notJson (tooDeepAt : Option Place)
  | missingTree
  | invalidTree (fault : Fault)

def placeText : Option Place → String
  | some place =>
    "recursion limit exceeded at line " ++ toString place.line ++ " column " ++ toString place.column
  | none => "malformed"

def ReadError.message : ReadError → String
  | .notJson tooDeepAt => "Document is not valid JSON: " ++ placeText tooDeepAt
  | .missingTree => "Document has neither a " ++ ticked "spec" ++ " nor a " ++ ticked "root" ++ " field"
  | .invalidTree fault => "Invalid design tree: " ++ fault.message

def readTree (metadata : Option Metadata) (v : Json) : Except ReadError Envelope :=
  match Tree.decode v with
  | .ok tree => .ok ⟨metadata, tree⟩
  | .error fault => .error (.invalidTree fault)

/-- The envelope that a value is, or the design that it is by itself. -/
def Envelope.decode : Json → Except ReadError Envelope
  | .object members =>
    match Entries.get? members "spec" with
    | some spec =>
      readTree ((Entries.get? members "metadata").bind fun v => Metadata.decode v.written) spec
    | none =>
      if Entries.has members "root" then readTree none (.object members) else .error .missingTree
  | _ => .error .missingTree

/-- The envelope or the design that a text writes. -/
def read (text : String) : Except ReadError Envelope :=
  match Json.parse text with
  | some v => Envelope.decode v
  | none => .error (.notJson (Written.tooDeepAt? text))

end Handoff.Archive
