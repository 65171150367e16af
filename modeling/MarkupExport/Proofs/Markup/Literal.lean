import MarkupExport.Proofs.Export.Requirements
import MarkupExport.Proofs.Text.Entity

/-!
Literal text in HTML. Inline code is escaped, so whatever it holds it neither opens nor closes a tag
and is read back as it was. A source block is written as the document has it, which comes to the
same only if nothing in it could be taken for markup.
-/

namespace MarkupExport.Html

/-- What a node shows literally: its value, of a source block without one line end at the end. -/
def literal? (node : Node) : Option String :=
  if node.kind = .sourceBlock then (node.textProperty? "value").map Rule.withoutFinalNewline
  else node.textProperty? "value"

/-- The tags that literal text stands between, and what follows them. -/
def literalTags (node : Node) : String × String :=
  if node.kind = .sourceBlock then
    let language := LanguageMap.standard.resolve (node.textProperty? "language")
    ("<pre lang=\"" ++ Text.escapeAttribute language ++ "\">", "</pre>\n")
  else ("<code>", "</code>")

/-- A text between tags that opens and closes no tag itself and is read as this value. -/
structure StandsFor (written value : String) : Prop where
  opensNone : '<' ∉ written.toList
  closesNone : '>' ∉ written.toList
  decoded : Text.decodeEntities written.toList = value.toList

/-- Nothing in the text could be taken for a tag or an entity. -/
structure IsUnmarked (value : String) : Prop where
  opensNone : '<' ∉ value.toList
  closesNone : '>' ∉ value.toList
  entityFree : ∀ entity ∈ Text.entities, ¬ entity <:+: value.toList

theorem standsFor_escapeText (value : String) : StandsFor (Text.escapeText value) value := by
  have written : (Text.escapeText value).toList = value.toList.flatMap Text.Escape.text.write :=
    Text.toList_mapChars Text.textEntity value
  constructor <;> rw [written]
  · exact Text.Escape.text.not_mem_flatMap (by decide) value.toList
  · exact Text.Escape.text.not_mem_flatMap (by decide) value.toList
  · exact Text.Escape.text.decode_flatMap value.toList

theorem standsFor_self_iff {value : String} : StandsFor value value ↔ IsUnmarked value := by
  constructor
  · intro stands
    exact ⟨stands.opensNone, stands.closesNone, Text.decodeEntities_eq_self_iff.mp stands.decoded⟩
  · intro unmarked
    exact ⟨unmarked.opensNone, unmarked.closesNone,
      Text.decodeEntities_eq_self_iff.mpr unmarked.entityFree⟩

variable {node : Node} {contents text : String}

theorem standsFor_monospace (other : node.kind ≠ .sourceBlock)
    (rendered : Rule.renderMonospace .html node = .ok text) :
    ∃ value written, literal? node = some value ∧
      text = (literalTags node).1 ++ written ++ (literalTags node).2 ∧ StandsFor written value := by
  obtain ⟨value, required, shown⟩ := bind_eq_ok_iff.mp rendered
  cases shown
  refine ⟨value, Text.escapeText value, ?_, ?_, standsFor_escapeText value⟩
  · simpa [literal?, other] using Node.requireText_eq_ok_iff.mp required
  · simp only [literalTags, if_neg other]
    rfl

theorem written_sourceBlock (source : node.kind = .sourceBlock)
    (rendered : Rule.renderSourceBlock .html node = .ok text) :
    ∃ value, literal? node = some value ∧
      text = (literalTags node).1 ++ value ++ (literalTags node).2 := by
  obtain ⟨value, required, shown⟩ := bind_eq_ok_iff.mp rendered
  cases shown
  refine ⟨Rule.withoutFinalNewline value, ?_, ?_⟩
  · simp [literal?, source, Node.requireText_eq_ok_iff.mp required]
  · simp only [literalTags, if_pos source]
    apply String.toList_inj.mp
    simp [Profile.html, Delimiters.wrap, Delimiters.attributes, Delimiters.namedValue,
      Delimiters.attributeValue, Delimiters.closing, Delimiters.left, Delimiters.right]

/-- Between its tags a literal is free of tags and is read as the value that it stands for. A source
block alone must not hold anything that could be taken for markup. -/
theorem literal_standsFor_iff {context : Context} {rule : Rule} (dialect : context.profile = .html)
    (literal : node.kind ∈ [.code, .verbatim, .sourceBlock])
    (handled : context.profile.policy node.kind = .handle (.rule rule))
    (rendered : rule.render context node contents = .ok text) :
    ∃ value written, literal? node = some value ∧
      text = (literalTags node).1 ++ written ++ (literalTags node).2 ∧
      (StandsFor written value ↔ (node.kind = .sourceBlock → IsUnmarked value)) := by
  rw [dialect] at handled
  by_cases source : node.kind = .sourceBlock
  · rw [source] at handled
    cases handled
    simp only [Rule.render, dialect] at rendered
    obtain ⟨value, shown, written⟩ := written_sourceBlock source rendered
    exact ⟨value, value, shown, written, by simpa [source] using standsFor_self_iff⟩
  · have inline : rule = .monospace := by
      have kinds : node.kind = .code ∨ node.kind = .verbatim := by simpa [source] using literal
      cases kinds with
      | inl code =>
          rw [code] at handled
          cases handled
          rfl
      | inr verbatim =>
          rw [verbatim] at handled
          cases handled
          rfl
    subst inline
    simp only [Rule.render, dialect] at rendered
    obtain ⟨value, written, shown, equal, stands⟩ := standsFor_monospace source rendered
    exact ⟨value, written, shown, equal, iff_of_true stands fun isSource => absurd isSource source⟩

/-- A literal that ends its own tag and looks like an entity. -/
def hostileLiteral (kind : NodeKind) : Node :=
  (Node.mk kind [] []).withProperty "value" (.text "</code>&lt;\n")

theorem literal_standsFor_iff_verbatim :
    let context := Context.start (hostileLiteral .verbatim) {} .html
    let text := "<code>&lt;/code&gt;&amp;lt;\n</code>"
    (hostileLiteral .verbatim).kind ∈ [.code, .verbatim, .sourceBlock] ∧
      context.profile.policy (hostileLiteral .verbatim).kind = .handle (.rule .monospace) ∧
      Rule.monospace.render context (hostileLiteral .verbatim) "" = .ok text ∧
      ∃ value written, literal? (hostileLiteral .verbatim) = some value ∧
        text = "<code>" ++ written ++ "</code>" ∧ StandsFor written value := by
  intro context text
  have literal : (hostileLiteral .verbatim).kind ∈ [.code, .verbatim, .sourceBlock] := by decide
  have rendered : Rule.monospace.render context (hostileLiteral .verbatim) "" = .ok text := rfl
  have dialect : context.profile = .html := rfl
  obtain ⟨value, written, shown, equal, stands⟩ :=
    literal_standsFor_iff dialect literal rfl rendered
  exact ⟨literal, rfl, rendered, value, written, shown, equal, stands.mpr nofun⟩

/-- A source block is not escaped, so what it holds is taken for markup. -/
theorem source_taken_for_markup :
    ¬ ∀ (context : Context) (node : Node) (contents text value written : String),
      context.profile = .html → Rule.sourceBlock.render context node contents = .ok text →
      node.kind = .sourceBlock → literal? node = some value →
      text = (literalTags node).1 ++ written ++ (literalTags node).2 → StandsFor written value := by
  intro always
  have stands := always (Context.start (hostileLiteral .sourceBlock) {} .html)
    (hostileLiteral .sourceBlock) "" "<pre lang=\"plaintext\"></code>&lt;</pre>\n" "</code>&lt;"
    "</code>&lt;" rfl rfl rfl (by decide +kernel) (by decide +kernel)
  exact absurd stands.opensNone (by decide +kernel)

end MarkupExport.Html
