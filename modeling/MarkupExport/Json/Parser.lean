import MarkupExport.Json.Token

/-!
From tokens to values. The values that are still open are kept as a list of frames, innermost
first, so nesting of any depth is read in one pass over the tokens.
-/

namespace MarkupExport.Json

abbrev Members := List (Option String × Json)

/-- An open array or object with the part of it that is complete, last item first. The object
waits for the value of its last key. -/
inductive Frame where
  | array (items : List Json)
  | object (members : Members) (key : Option String)

/-- What may come next, inside these frames. -/
inductive Progress where
  | awaitValue (frames : List Frame)
  | awaitItemOrEnd (frames : List Frame)
  | awaitKeyOrEnd (frames : List Frame)
  | awaitKey (members : Members) (frames : List Frame)
  | awaitColon (members : Members) (key : Option String) (frames : List Frame)
  | complete (value : Json) (frames : List Frame)

namespace Progress

/-- A value begins with this token. -/
def openValue (frames : List Frame) : Token → Option Progress
  | .null => some (.complete .null frames)
  | .bool value => some (.complete (.bool value) frames)
  | .number literal => some (.complete (.number literal) frames)
  | .text value => some (.complete (.text value) frames)
  | .arrayStart => some (.awaitItemOrEnd frames)
  | .objectStart => some (.awaitKeyOrEnd frames)
  | .arrayEnd | .objectEnd | .comma | .colon => none

def step : Progress → Token → Option Progress
  | .awaitValue frames, token => openValue frames token
  | .awaitItemOrEnd frames, .arrayEnd => some (.complete (.array []) frames)
  | .awaitItemOrEnd frames, token => openValue (.array [] :: frames) token
  | .awaitKeyOrEnd frames, .objectEnd => some (.complete (.object []) frames)
  | .awaitKeyOrEnd frames, .text key => some (.awaitColon [] key frames)
  | .awaitKey members frames, .text key => some (.awaitColon members key frames)
  | .awaitColon members key frames, .colon => some (.awaitValue (.object members key :: frames))
  | .complete value (.array items :: frames), .comma =>
    some (.awaitValue (.array (value :: items) :: frames))
  | .complete value (.array items :: frames), .arrayEnd =>
    some (.complete (.array (value :: items).reverse) frames)
  | .complete value (.object members key :: frames), .comma =>
    some (.awaitKey ((key, value) :: members) frames)
  | .complete value (.object members key :: frames), .objectEnd =>
    some (.complete (.object ((key, value) :: members).reverse) frames)
  | .awaitKeyOrEnd _, _ | .awaitKey _ _, _ | .awaitColon _ _ _, _ | .complete _ _, _ => none

def value? : Progress → Option Json
  | .complete value [] => some value
  | _ => none

end Progress

/-- The value that these tokens spell from first to last. -/
def ofTokens? (tokens : List Token) : Option Json :=
  (tokens.foldlM Progress.step (.awaitValue [])).bind Progress.value?

def parse? (text : String) : Option Json :=
  (Token.readAll text.toList).bind ofTokens?

end MarkupExport.Json
