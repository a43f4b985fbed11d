/-!
# What can be wrong with a YAML document
-/

namespace LiveConfig.Yaml

/-- Why a text is no stream of YAML documents, or a document no value. -/
inductive Fault where
  /-- A character that no document may contain. -/
  | character (c : Char)
  /-- No token begins so. -/
  | token
  /-- A key that has to be followed by a colon is not. -/
  | missingColon
  /-- A sequence entry, key or value where the layout allows none. -/
  | misplaced
  /-- A tab where only spaces indent. -/
  | tab
  /-- A directive of unknown name or form. -/
  | directive
  /-- A version or a tag handle that is declared twice. -/
  | repeatedDirective
  /-- A version that is not 1.1 or 1.2. -/
  | version
  /-- An anchor or alias without a proper name. -/
  | anchor
  /-- A tag of improper form. -/
  | tag
  /-- A tag handle that no directive declares. -/
  | undeclaredHandle
  /-- The header of a block scalar is malformed. -/
  | blockHeader
  /-- A quoted scalar runs into the end of its document. -/
  | unclosedQuote
  /-- An escape of unknown form in a quoted scalar. -/
  | escape
  /-- A colon inside a plain scalar of a flow collection. -/
  | colon
  /-- The tokens do not form a document. -/
  | grammar
  /-- An alias for a node that no anchor names. -/
  | unknownAlias
  /-- Collections are nested too deeply. -/
  | depth
  /-- Aliases repeat too much. -/
  | repetition
  /-- A mapping has a key twice. -/
  | repeatedKey
  /-- A scalar does not have the form that its tag demands. -/
  | scalarForm
  /-- An integer is too long. -/
  | integer
  /-- More than one document where one is expected. -/
  | severalDocuments
  deriving DecidableEq

end LiveConfig.Yaml
