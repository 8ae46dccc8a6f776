import HostSuite.Config.Basic
import HostSuite.Text.Quoted
import HostSuite.Toml.Document
import HostSuite.Tree.Resolve

/-
  Reading a configuration. The top of the document is a record of sections and each section is a
  record of settings: the entries are taken in the order of the document, each one sets its field,
  and the first entry that is unknown or of the wrong type ends the reading. A section that is
  written as an array gives its fields by position. What is not written keeps its default.
-/

namespace HostSuite

/-- Why a document does not have the shape of a configuration. -/
inductive ShapeFault
  | unknownField (name : String) (fields : List String)
  | invalidType (found expected : String)
  deriving DecidableEq, Repr

namespace ShapeFault

private def inTicks (s : String) : String := "`" ++ s ++ "`"

def message : ShapeFault → String
  | unknownField name fields =>
    "unknown field " ++ inTicks name ++ ", expected one of " ++
      ", ".intercalate (fields.map inTicks)
  | invalidType found expected => "invalid type: " ++ found ++ ", expected " ++ expected

/-- A value as a message names it. -/
def describe : Toml.Value → String
  | .string s => "string " ++ Text.quoted s
  | .integer i => "integer " ++ inTicks (toString i)
  | .float x => "floating point " ++ inTicks x.textWithPoint
  | .boolean b => "boolean " ++ inTicks (toString b)
  | .moment => "map"
  | .table _ _ => "map"
  | .array _ => "sequence"
  | .tables _ => "sequence"

end ShapeFault

/-- One field of a record, and how a value sets it. -/
structure Field (σ : Type) where
  name : String
  set : Toml.Value → σ → Except ShapeFault σ

/-- A record: what messages call it, and its fields in order. -/
structure Shape (σ : Type) where
  expected : String
  fields : List (Field σ)

namespace Shape

variable {σ : Type}

def names (r : Shape σ) : List String := r.fields.map Field.name

/-- Sets the field that an entry names. -/
def setEntry (r : Shape σ) (s : σ) (e : String × Toml.Value) : Except ShapeFault σ :=
  match r.fields.find? (·.name = e.1) with
  | some f => f.set e.2 s
  | none => .error (.unknownField e.1 r.names)

/-- The field under which a moment keeps its text when it is taken for a record. -/
def momentField : String := "$__toml_private_datetime"

/-- Sets the fields in order from a list of values; values beyond the last field do not count. -/
def setInOrder (r : Shape σ) (s : σ) (items : List Toml.Value) : Except ShapeFault σ :=
  (r.fields.zip items).foldlM (fun s (f, v) => f.set v s) s

/-- Reads a record over its defaults. -/
def read (r : Shape σ) (v : Toml.Value) (s : σ) : Except ShapeFault σ :=
  match v with
  | .table _ es => es.foldlM r.setEntry s
  | .array items => r.setInOrder s items
  | .tables items => r.setInOrder s (items.map (Toml.Value.table .header))
  | .moment => .error (.unknownField momentField r.names)
  | v => .error (.invalidType (ShapeFault.describe v) r.expected)

end Shape

namespace Config

def textOf : Toml.Value → Except ShapeFault String
  | .string s => .ok s
  | v => .error (.invalidType (ShapeFault.describe v) "a string")

def textsOf : Toml.Value → Except ShapeFault (List String)
  | .array items => items.mapM textOf
  | .tables items => (items.map (Toml.Value.table .header)).mapM textOf
  | v => .error (.invalidType (ShapeFault.describe v) "a sequence")

/-- A float, or the float nearest to an integer. -/
def numberOf : Toml.Value → Except ShapeFault Number.Binary64
  | .float x => .ok x
  | .integer i => .ok (.ofInt i)
  | v => .error (.invalidType (ShapeFault.describe v) "f64")

def discoveryShape : Shape DiscoverySettings where
  expected := "struct DiscoveryConfig"
  fields :=
    [⟨"descriptor", fun v s => do return { s with descriptor := ← textOf v }⟩,
      ⟨"build_dir", fun v s => do return { s with buildDir := ← textOf v }⟩,
      ⟨"exclude", fun v s => do return { s with exclude := ← textsOf v }⟩]

def toolsShape : Shape ToolSettings where
  expected := "struct ToolsConfig"
  fields :=
    [⟨"idf", fun v s => do return { s with idf := ← textOf v }⟩,
      ⟨"target", fun v s => do return { s with target := ← textOf v }⟩,
      ⟨"lcov", fun v s => do return { s with lcov := ← textOf v }⟩,
      ⟨"genhtml", fun v s => do return { s with genhtml := ← textOf v }⟩]

def coverageShape : Shape CoverageSettings where
  expected := "struct CoverageSettings"
  fields :=
    [⟨"output_dir", fun v s => do return { s with outputDir := ← textOf v }⟩,
      ⟨"ignore_file", fun v s => do return { s with ignoreFile := ← textOf v }⟩,
      ⟨"title", fun v s => do return { s with title := ← textOf v }⟩,
      ⟨"fail_under", fun v s => do return { s with failUnder := some (← numberOf v) }⟩]

def shape : Shape Config where
  expected := "struct HostcovConfig"
  fields :=
    [⟨"discovery", fun v c => do return { c with discovery := ← discoveryShape.read v {} }⟩,
      ⟨"tools", fun v c => do return { c with tools := ← toolsShape.read v {} }⟩,
      ⟨"coverage", fun v c => do return { c with coverage := ← coverageShape.read v {} }⟩]

/-- The configuration that a document describes. -/
def ofDocument (es : Toml.Entries) : Except ShapeFault Config := shape.read (.table .header es) {}

end Config

/-- Why a text is no configuration. -/
inductive ConfigFault
  | malformed
  | shape (f : ShapeFault)
  | rule (f : RuleFault)
  deriving DecidableEq, Repr

namespace ConfigFault

private def unparsed (reason : String) : Fault :=
  .config ("Failed to parse " ++ Config.fileName ++ ": " ++ reason) (some Hint.invalidConfig)

def toFault : ConfigFault → Fault
  | malformed => unparsed "invalid TOML"
  | shape f => unparsed f.message
  | rule f => f.toFault

end ConfigFault

namespace Config

/-- Reads and checks a configuration. -/
def parse (text : String) : Except ConfigFault Config :=
  match Toml.document? text with
  | none => .error .malformed
  | some es =>
    match ofDocument es with
    | .error f => .error (.shape f)
    | .ok c =>
      match c.check with
      | .error f => .error (.rule f)
      | .ok _ => .ok c

/-- Loads the configuration of a root directory; without a file everything has its default. -/
def load (t : Tree) (base : Place) (root : Path) : Except Fault Config :=
  let path := root.join fileName
  if !t.isFile base path then .ok {}
  else
    match t.readText base path with
    | .error _ => .error (.config ("Failed to read " ++ path.text) (some Hint.invalidConfig))
    | .ok text => (parse text).mapError ConfigFault.toFault

end Config

end HostSuite
