import WordMachine.Document.Format
import WordMachine.Document.Json
import WordMachine.Document.Node
import WordMachine.Toml.Reader
import WordMachine.Yaml.Reader

/-!
# Reading documents

The three kinds of documents in the three formats. What is wrong with a JSON document is said; a
document in another format is refused as a whole.
-/

namespace WordMachine.Document

/-- Why a document is refused. -/
inductive Fault where
  | json (fault : Json.Fault)
  | toml
  | yaml

/-- How a document of some kind is read: from a JSON tree, and from a node, of which some parts may
have a limit on their nesting. -/
structure Kind (α : Type) where
  ofTree : Json.Tree → Json.Reading α
  ofNode : (nesting : Option Nat) → Node → Option α

/-- Configurations. -/
def config : Kind Config := ⟨Json.configOf, fun _ => configOf⟩

/-- Fixed hosts, as they are listed. -/
def listing : Kind HostListing := ⟨Json.listingOf, listingOf⟩

/-- Fixed hosts. -/
def host : Kind FixedHost := ⟨Json.hostOf, hostOf⟩

/-- Debug records. -/
def record : Kind Record := ⟨Json.recordOf, recordOf⟩

/-- Reads a document of a kind in a format. -/
def read {α : Type} (kind : Kind α) (format : Format) (text : String) : Except Fault α :=
  match format with
  | .json =>
    match Json.decode kind.ofTree text with
    | .ok a => .ok a
    | .error f => .error (.json f)
  | .toml =>
    match (Toml.document? text).bind (kind.ofNode none) with
    | some a => .ok a
    | none => .error .toml
  | .yaml =>
    match (Yaml.document? text).bind (kind.ofNode (some Yaml.maxNesting)) with
    | some a => .ok a
    | none => .error .yaml

end WordMachine.Document
