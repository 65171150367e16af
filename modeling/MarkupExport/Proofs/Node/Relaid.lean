import MarkupExport.Proofs.Json.Grammar
import MarkupExport.Proofs.Node.Layout

/-!
A tree is read alike from all texts that lay it out. Blank space may stand anywhere between tokens,
so what a text is read as depends on the value that it spells, and to this any changes of layout may
have been made, as long as no more brackets than the reader allows are open in the end.
-/

namespace MarkupExport

/-- Parts may be laid out anew in any number of changes. -/
theorem Slot.rewrites {role part : Role} {context : Json → Json} {value other : Json}
    (slot : Slot role part context)
    (rewritten : Relation.ReflTransGen (Json.Rewrites part) value other) :
    Relation.ReflTransGen (Json.Rewrites role) (context value) (context other) :=
  rewritten.lift context fun _ _ => .part slot

/-- What each change keeps, any number of changes keep. The limit on brackets is not among it: a
layout in between may exceed it. -/
theorem Json.kept_of_rewrites {limit : Nat} {role : Role} {value layout : Json}
    {content : role.Content} (rewritten : Relation.ReflTransGen (Rewrites role) value layout)
    (valued : value.IsValued limit role) (read : role.ofJson? value = some content) :
    layout.IsValued limit role ∧ role.ofJson? layout = some content := by
  induction rewritten with
  | refl => exact ⟨valued, read⟩
  | tail _ step induction => exact ⟨step.isValued induction.1, step.ofJson? induction.2⟩

namespace Node

/-- When a text is read: it spells a value of which all has a value, no more brackets than the
reader allows are open outside of what is passed over, and the value says what the node is. -/
theorem read?_eq_some_iff {text : String} {node : Node} :
    read? text = some node ↔ ∃ value : Json, value.IsSpelledBy text ∧
      value.IsValued nestingLimit (.node false) ∧
      value.shownNesting (.node false) ≤ nestingLimit ∧ ofJson? value = some node := by
  constructor
  · intro read
    rcases Option.bind_eq_some_iff.mp read with ⟨value, parsed, read⟩
    rcases Option.bind_eq_some_iff.mp read with ⟨_, guarded, made⟩
    have readable := (Option.guard_eq_some' _).mp guarded
    rcases (Json.isReadable_readPart_iff value).mp readable with ⟨valued, shallow⟩
    exact ⟨value, Json.parse?_eq_some_iff.mp parsed, valued, shallow,
      (ofJson?_readPart value).symm.trans made⟩
  · rintro ⟨value, spelled, valued, shallow, made⟩
    have readable := (Json.isReadable_readPart_iff value).mpr ⟨valued, shallow⟩
    rw [read?, Json.parse?_eq_some_iff.mpr spelled, Option.bind_eq_bind, Option.bind_some]
    dsimp only
    rw [readable, (Option.guard_eq_some' ()).mpr rfl]
    exact (ofJson?_readPart value).trans made

/-- The other text lays out the value of the first anew, with no more brackets open than the reader
allows. Between the changes, blank space may come and go: it is no part of the value. -/
def IsRelaid (text other : String) : Prop :=
  ∃ value layout : Json, value.IsSpelledBy text ∧
    Relation.ReflTransGen (Json.Rewrites (.node false)) value layout ∧
    layout.shownNesting (.node false) ≤ nestingLimit ∧ layout.IsSpelledBy other

/-- Laying a tree out anew changes nothing of what is read. -/
theorem read?_relaid {text other : String} {node : Node} (read : read? text = some node)
    (relaid : IsRelaid text other) : read? other = some node := by
  rcases relaid with ⟨value, layout, spelled, rewritten, shallow, respelled⟩
  rcases read?_eq_some_iff.mp read with ⟨first, firstSpelled, valued, _, made⟩
  have same : some first = some value :=
    (Json.parse?_eq_some_iff.mpr firstSpelled).symm.trans (Json.parse?_eq_some_iff.mpr spelled)
  cases same
  have kept := Json.kept_of_rewrites rewritten valued made
  exact read?_eq_some_iff.mpr ⟨layout, respelled, kept.1, shallow, kept.2⟩

/-- A headline with an unknown member that has no value, with its members and its properties in
another order, without children, and with a node in its title as an array. -/
theorem read?_relaid_headline :
    let text := "\x7b\"children\":[],\"kind\":\"headline\"," ++
      "\"properties\":\x7b\"title\":[\x7b\"kind\":\"bold\"\x7d],\"level\":1\x7d\x7d"
    let other := "\x7b \"x\" : [1e999, \"\\ud800\"],\n\"properties\":\x7b\"level\":1," ++
      "\"title\":[[\x7b\"bold\":null\x7d,[],\x7b\x7d]]\x7d,\t\"kind\":\"headline\"\x7d\n"
    let headline : Node :=
      { kind := .headline
        properties := [("level", .int 1), ("title", .nodes [{ kind := .bold }])] }
    (read? text = some headline ∧ IsRelaid text other) ∧ read? other = some headline := by
  intro text other headline
  have read : read? text = some headline := by decide +kernel
  have spells {text : String} {value : Json}
      (tokens : Json.Token.readAll text.toList = some value.tokens) : value.IsSpelledBy text :=
    Json.Token.spells_of_readAll tokens
  let kind : Option String × Json := (some "kind", .text (some "headline"))
  let level : Option String × Json := (some "level", .number (.ofInt 1))
  let huge : NumberLiteral := ⟨false, ['1'], [], some (false, ['9', '9', '9'])⟩
  have inBold : Slot (.node true) (.field .kind true)
      fun value => .object [(some "kind", value)] := .member [] [] rfl
  have inTitle : Slot .property (.node true) fun value => .array [value] := .item [] [] rfl
  have inProperties : Slot (.field .properties false) .property
      fun value => .object [(some "title", value), level] := .member [] [level] rfl
  have inHeadline : Slot (.node false) (.field .properties false)
      fun value => .object [kind, (some "properties", value)] := .member [kind] [] rfl
  have bold : Relation.ReflTransGen (Json.Rewrites (.node true))
      (.object [(some "kind", .text (some "bold"))])
      (.array [.object [(some "bold", .null)], .array [], .object []]) :=
    .tail (.single (.part inBold (.kindAsObject "bold"))) (.asArray rfl rfl rfl)
  have properties := (inProperties.rewrites (inTitle.rewrites bold)).tail
    (.swap [] [] (by decide))
  have noChildren : Field.children.empty? = some (.array []) := rfl
  have foreign : Field.ofName? "x" = none := by decide
  have rewritten := (((inHeadline.rewrites properties).head (.leaveOut _ noChildren)).tail
    (.reorder (.swap _ _ []))).tail (.addUnknown (.array [.number huge, .text none]) _ foreign)
  have relaid : IsRelaid text other :=
    ⟨_, _, spells (by decide +kernel), rewritten, by decide +kernel, spells (by decide +kernel)⟩
  exact ⟨⟨read, relaid⟩, read?_relaid read relaid⟩

end Node

end MarkupExport
