import MarkupExport.Node.Basic

/-! Why an export stops, and the wording of it. -/

namespace MarkupExport

inductive TranscodeError where
  | unsupportedNodeKind (kind : NodeKind) (profile : String)
  | unsupportedListKind (kind profile : String)
  | unsupportedLinkType (type : String)
  | malformedLinkTarget (target : String)
  | headlineLevelOutOfRange (level : Int64) (max : Nat) (profile : String)
  | inlineFootnote (label : String)
  | unknownFootnote (label : String)
  | missingProperty (kind : NodeKind) (property : String)
deriving DecidableEq

def TranscodeError.message : TranscodeError → String
  | .unsupportedNodeKind kind profile =>
    "Node kind '" ++ kind.name ++ "' is not supported by the " ++ profile ++ " profile"
  | .unsupportedListKind kind profile =>
    "List kind '" ++ kind ++ "' is not supported by the " ++ profile ++ " profile"
  | .unsupportedLinkType type => "Unsupported link type '" ++ type ++ "'"
  | .malformedLinkTarget target => "Malformed internal link target '" ++ target ++ "'"
  | .headlineLevelOutOfRange level max profile =>
    "Headline level " ++ level.toInt.repr ++ " exceeds the maximum of " ++ max.repr ++
      " for the " ++ profile ++ " profile"
  | .inlineFootnote label =>
    "Inline footnote definitions are not supported (label '" ++ label ++ "')"
  | .unknownFootnote label => "No definition found for footnote '" ++ label ++ "'"
  | .missingProperty kind property =>
    "Node kind '" ++ kind.name ++ "' is missing required property '" ++ property ++ "'"

/-- Why a named format gives no output. -/
inductive FormatError where
  | formatNotFound (name : String)
  | unreadableTree
  | transcode (error : TranscodeError)
deriving DecidableEq

namespace Node

/-! Properties that a node cannot do without. -/

def requireText (node : Node) (name : String) : Except TranscodeError String :=
  match node.textProperty? name with
  | some value => .ok value
  | none => .error (.missingProperty node.kind name)

def requireInt (node : Node) (name : String) : Except TranscodeError Int64 :=
  match node.intProperty? name with
  | some value => .ok value
  | none => .error (.missingProperty node.kind name)

end Node

end MarkupExport
