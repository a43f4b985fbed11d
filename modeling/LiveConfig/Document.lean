import LiveConfig.Properties.Document
import LiveConfig.Yaml.Flatten

/-!
# Embedded documents

An entry whose name ends in `.properties`, `.yaml` or `.yml` holds a document with properties of its
own in place of a single value.
-/

namespace LiveConfig.Document

/-- The formats of documents. -/
inductive Format where
  | properties
  | yaml
  deriving DecidableEq

/-- Whether a name ends in a text. -/
def endsIn (ending name : String) : Bool := ending.toList.isSuffixOf name.toList

/-- The format that the name of an entry announces. -/
def Format.ofName? (name : String) : Option Format :=
  if endsIn ".properties" name then some .properties
  else if endsIn ".yaml" name || endsIn ".yml" name then some .yaml
  else none

/-- Why a document has no properties. -/
inductive Fault where
  | properties (f : Properties.Fault)
  | yaml (f : Yaml.Fault)
  deriving DecidableEq

/-- The properties of a document. -/
def expand (format : Format) (content : String) : Except Fault (SortedMap String String) :=
  match format with
  | .properties => (Properties.read content.toList).mapError .properties
  | .yaml => (Yaml.read content.toList).mapError .yaml

end LiveConfig.Document
