import PreviewShots.Proofs.Synthesis

/-!
# Texts in any spelling

A text that is written through a spelling consists of fixed texts and of names. Written
with the names left open it is a template, and filling the template gives the text with
the names spelled at once, as long as a delimiter always opens or closes a name
(`render_eq_text`).
-/

open PreviewShots.Task

namespace PreviewShots

-- ---------------------------------------------------------------------------
-- Templates
-- ---------------------------------------------------------------------------

namespace Template

variable {spell : Text → Text} {text rest : Text}

theorem fill_plain (h : delimiter ∉ text) :
    fill spell (text ++ rest) = text ++ fill spell rest := by
  induction text with
  | nil => rfl
  | cons c cs ih =>
    simp only [List.mem_cons, not_or] at h
    simpa [fill, pieces, scan, Ne.symm h.1, Piece.fill] using ih h.2

theorem fill_placeholder {name : Text} (h : delimiter ∉ name) (hne : name ≠ []) :
    fill spell (placeholder name ++ rest) = spell name ++ fill spell rest := by
  simp [fill, pieces_placeholder h hne, Piece.fill]

end Template

-- ---------------------------------------------------------------------------
-- Spelled texts
-- ---------------------------------------------------------------------------

/-- The text is put together from fixed texts and from the names, in this order. -/
inductive IsSpelled : (Spelling → Text) → List Label → Prop
  | fixed (text : Text) : IsSpelled (fun _ => text) []
  | name (label : Label) : IsSpelled (fun spelling => spelling label) [label]
  | append {left right : Spelling → Text} {names more : List Label} : IsSpelled left names →
      IsSpelled right more → IsSpelled (fun spelling => left spelling ++ right spelling) (names ++ more)

/-- Nothing of a spelling matters but how the names are spelled. -/
theorem IsSpelled.congr {source : Spelling → Text} {names : List Label} (h : IsSpelled source names)
    {spelling other : Spelling} (hnames : ∀ name ∈ names, spelling name = other name) :
    source spelling = source other := by
  induction h with
  | fixed text => rfl
  | name label => exact hnames label List.mem_cons_self
  | append _ _ ihl ihr =>
    have hleft := ihl fun name hn => hnames name (List.mem_append_left _ hn)
    have hright := ihr fun name hn => hnames name (List.mem_append_right _ hn)
    simp only [hleft, hright]

/-- Each of the texts is spelled. -/
inductive AreSpelled : (Spelling → List Text) → List Label → Prop
  | nil : AreSpelled (fun _ => []) []
  | cons {text : Spelling → Text} {texts : Spelling → List Text} {names more : List Label} :
      IsSpelled text names → AreSpelled texts more →
      AreSpelled (fun spelling => text spelling :: texts spelling) (names ++ more)

theorem IsSpelled.ite {left right : Spelling → Text} {names more : List Label} (b : Bool)
    (hl : IsSpelled left names) (hr : IsSpelled right more) :
    IsSpelled (fun spelling => if b then left spelling else right spelling)
      (if b then names else more) := by
  cases b
  · exact hr
  · exact hl

theorem AreSpelled.append {left right : Spelling → List Text} {names more : List Label}
    (hl : AreSpelled left names) (hr : AreSpelled right more) :
    AreSpelled (fun spelling => left spelling ++ right spelling) (names ++ more) := by
  induction hl with
  | nil => exact hr
  | cons hfirst _ ih =>
    rw [List.append_assoc]
    exact .cons hfirst ih

theorem AreSpelled.map {α : Type} {items : List α} {text : α → Spelling → Text}
    {names : α → List Label} (h : ∀ item ∈ items, IsSpelled (text item) (names item)) :
    AreSpelled (fun spelling => items.map (text · spelling)) (items.flatMap names) := by
  induction items with
  | nil => exact .nil
  | cons item items ih =>
    exact .cons (h item List.mem_cons_self) (ih fun other ho => h other (List.mem_cons_of_mem _ ho))

theorem AreSpelled.fixed (texts : List Text) : AreSpelled (fun _ => texts) [] := by
  induction texts with
  | nil => exact .nil
  | cons text texts ih => exact .cons (.fixed text) ih

theorem AreSpelled.joinWith {texts : Spelling → List Text} {names : List Label} (sep : Text)
    (h : AreSpelled texts names) :
    IsSpelled (fun spelling => Text.joinWith sep (texts spelling)) names := by
  induction h with
  | nil => exact .fixed []
  | cons hfirst hrest ih =>
    cases hrest with
    | nil => simpa [Text.joinWith] using hfirst
    | cons hnext hmore => simpa [Text.joinWith] using (hfirst.append (.fixed sep)).append ih

-- ---------------------------------------------------------------------------
-- Literals and types
-- ---------------------------------------------------------------------------

theorem isSpelled_labelled (label : Label) {text : Spelling → Text} {names : List Label}
    (h : IsSpelled text names) : IsSpelled (fun spelling => labelled label (text spelling)) names := by
  have hfull := (IsSpelled.fixed (label.plain ++ " = ")).append h
  simpa [labelled] using hfull.ite label.isTruthy h

mutual
theorem Literal.isSpelled : ∀ value : Literal, IsSpelled (value.source ·) value.names
  | .string text => .fixed _
  | .classRef name => (IsSpelled.name name).append (.fixed "::class")
  | .list items => by
    simpa [Literal.source, Literal.names] using
      ((IsSpelled.fixed "[").append ((Literal.areSpelled items).joinWith ", ")).append (.fixed "]")
  | .nested value => value.isSpelled
  | .other value source => .fixed _
theorem Literal.areSpelled : ∀ items : List Literal,
    AreSpelled (Literal.sources · items) (Literal.allNames items)
  | [] => .nil
  | item :: items => .cons item.isSpelled (Literal.areSpelled items)
theorem Annotation.isSpelled : ∀ a : Annotation, IsSpelled (a.source ·) a.names
  | ⟨typeName, shortName, arguments, _⟩ => by
    have hname := (IsSpelled.name typeName).ite typeName.isTruthy (.fixed shortName.plain)
    have hlist := (Argument.areSpelled arguments).joinWith ", "
    simpa [ Annotation.source, Annotation.names] using
      ((hname.append (.fixed "(")).append hlist).append (.fixed ")")
theorem Argument.areSpelled : ∀ arguments : List Argument,
    AreSpelled (Argument.sources · arguments) (Argument.allNames arguments)
  | [] => .nil
  | ⟨name, value⟩ :: rest => .cons (isSpelled_labelled name value.isSpelled) (Argument.areSpelled rest)
end

theorem isSpelled_projection (variance : Label) {text : Spelling → Text} {names : List Label}
    (h : IsSpelled text names) :
    IsSpelled (fun spelling => TypeRef.argumentSources.projection variance (text spelling)) names := by
  have hfull := (IsSpelled.fixed (variance.plain ++ " ")).append h
  simpa [TypeRef.argumentSources.projection] using hfull.ite variance.isTruthy h

mutual
theorem TypeRef.isSpelled : ∀ type : TypeRef, IsSpelled (type.source ·) type.names
  | ⟨name, arguments, nullable, _⟩ => by
    have hname := (IsSpelled.name name).ite name.isTruthy (.fixed "Any")
    have happlied : IsSpelled (fun spelling => TypeRef.source spelling ⟨name, arguments, false, false⟩)
        ((if name.isTruthy then [name] else []) ++ TypeRef.argumentNames arguments) := by
      cases arguments with
      | nil => simpa [TypeRef.source, TypeRef.argumentNames] using hname
      | cons argument rest =>
        have hlist := (TypeRef.argumentsAreSpelled (argument :: rest)).joinWith ", "
        simpa [TypeRef.source] using ((hname.append (.fixed "<")).append hlist).append (.fixed ">")
    have hmark := (happlied.append (.fixed "?")).ite nullable happlied
    simpa [TypeRef.source, TypeRef.names] using hmark
theorem TypeRef.argumentsAreSpelled : ∀ arguments : List TypeArgument,
    AreSpelled (TypeRef.argumentSources · arguments) (TypeRef.argumentNames arguments)
  | [] => .nil
  | .star :: rest => .cons (.fixed "*") (TypeRef.argumentsAreSpelled rest)
  | .projected variance none :: rest =>
    .cons (isSpelled_projection variance (.fixed "*")) (TypeRef.argumentsAreSpelled rest)
  | .projected variance (some type) :: rest =>
    .cons (isSpelled_projection variance type.isSpelled) (TypeRef.argumentsAreSpelled rest)
end

-- ---------------------------------------------------------------------------
-- Tests
-- ---------------------------------------------------------------------------

namespace Synthesis

variable {table : SymbolTable} {config : Config} {eligible : Eligible}

theorem isSpelled_written (table : SymbolTable) (a : Annotation) (arguments : List Argument) :
    IsSpelled (written · table a arguments) (writtenNames table a arguments) := by
  have hlist : AreSpelled (fun spelling => arguments.map (·.source spelling))
      (arguments.flatMap (·.value.names)) :=
    .map fun argument _ => isSpelled_labelled argument.name argument.value.isSpelled
  have happlied : IsSpelled (fun spelling => if arguments.isEmpty then ""
      else "(" ++ Text.joinWith ", " (arguments.map (·.source spelling)) ++ ")")
      (arguments.flatMap (·.value.names)) := by
    cases arguments with
    | nil => exact .fixed ""
    | cons argument rest =>
      simpa using ((IsSpelled.fixed "(").append (hlist.joinWith ", ")).append (.fixed ")")
  cases h : typeName? table a with
  | none =>
    simpa only [written, writtenNames, h, Option.toList_none] using
      (IsSpelled.fixed ("@" ++ a.shortName.plain)).append happlied
  | some name =>
    simpa only [written, writtenNames, h, Option.toList_some, List.nil_append] using
      ((IsSpelled.fixed "@").append (.name name)).append happlied

theorem areSpelled_annotations (table : SymbolTable) (config : Config) (markers : List Annotation) :
    AreSpelled (annotations · table config markers) (annotationNames table config markers) := by
  have hfixed : AreSpelled (fun spelling => (fixedNames config).map (fixed spelling))
      ((fixedNames config).flatMap fun name => [name]) :=
    .map fun name _ => (IsSpelled.fixed "@").append (.name name)
  rw [List.flatMap_singleton'] at hfixed
  exact .append (.map fun a _ => isSpelled_written table a _) hfixed

theorem isSpelled_signature (table : SymbolTable) (provider : Option Provider) :
    IsSpelled (signature · table provider) ((provider.map (declaredNames table)).getD []) := by
  cases provider with
  | none => exact .fixed []
  | some provider =>
    have hwritten := isSpelled_written table provider.mark (providerArguments provider.mark.arguments)
    have hname := (hwritten.append (.fixed " ")).append (.fixed (Name.escape provider.parameter.name.plain))
    simpa [signature, declared, declaredNames] using
      (hname.append (.fixed ": ")).append provider.parameter.type.isSpelled

theorem areSpelled_body (config : Config) (function : FunctionDecl) (call : Text)
    {signature : Spelling → Text} {names : List Label} (h : IsSpelled signature names) :
    AreSpelled (fun spelling => body config function (signature spelling) call) names := by
  have hhead := ((IsSpelled.fixed (modifier function ++ "fun " ++
    Name.escape (testName config function) ++ "(")).append h).append (.fixed ") \x7b")
  simpa [body] using AreSpelled.cons hhead (.fixed _)

/-- The text of a test is spelled with its names. -/
theorem isSpelled_text (table : SymbolTable) (config : Config) (eligible : Eligible) :
    IsSpelled (text · table config eligible) (names table config eligible) := by
  let provider := provider? table config eligible.function
  have hbody := areSpelled_body config eligible.function (call provider)
    (isSpelled_signature table provider)
  exact ((areSpelled_annotations table config eligible.markers).append hbody).joinWith "\n"

end Synthesis

-- ---------------------------------------------------------------------------
-- Filling a template
-- ---------------------------------------------------------------------------

/-- The text without its names. -/
def Spelling.blank : Spelling := fun _ => []

theorem IsSpelled.fill {source : Spelling → Text} {names : List Label} (h : IsSpelled source names)
    (hnames : ∀ name ∈ names, name.nameText ≠ [] ∧ Template.delimiter ∉ name.nameText)
    (hfixed : Template.delimiter ∉ source .blank) (spell : Text → Text) (rest : Text) :
    Template.fill spell (source .deferred ++ rest) =
      source (fun name => spell name.nameText) ++ Template.fill spell rest := by
  induction h generalizing rest with
  | fixed text => exact Template.fill_plain hfixed
  | name label =>
    obtain ⟨hne, hm⟩ := hnames label List.mem_cons_self
    have hplain : label.plain = label.nameText := by
      cases label with
      | string text => rfl
      | _ => exact absurd rfl hne
    simpa [Spelling.deferred, hplain] using Template.fill_placeholder hm hne
  | append _ _ ihl ihr =>
    simp only [List.mem_append, not_or] at hfixed
    rw [List.append_assoc, ihl (fun name hn => hnames name (List.mem_append_left _ hn)) hfixed.1,
      ihr (fun name hn => hnames name (List.mem_append_right _ hn)) hfixed.2, List.append_assoc]

namespace Synthesis

variable {table : SymbolTable} {config : Config} {eligible : Eligible} {fragment : Fragment}

/-- No name is empty, and a delimiter stands neither in a name nor beside the names. -/
structure IsClean (table : SymbolTable) (config : Config) (eligible : Eligible) : Prop where
  nonempty : ∀ name ∈ names table config eligible, name.nameText ≠ []
  names : ∀ name ∈ names table config eligible, Template.delimiter ∉ name.nameText
  text : Template.delimiter ∉ text .blank table config eligible

theorem render_of_fragment? (h : fragment? table config eligible = some fragment)
    (hclean : IsClean table config eligible) (qualified : List Text) :
    fragment.render qualified =
      text (fun name => Template.spelling qualified name.nameText) table config eligible := by
  have hfill := (isSpelled_text table config eligible).fill
    (fun name hn => ⟨hclean.nonempty name hn, hclean.names name hn⟩) hclean.text
    (Template.spelling qualified) []
  rw [Fragment.render, Template.resolve, eq_of_fragment? h]
  simpa [Synthesis.fragment, Template.fill, Template.pieces, Template.scan] using hfill

/-- What a synthesized fragment is rendered to is the text that the synthesis writes with
every name spelled at once: in full if it is one of the qualified names, by its simple
name otherwise. -/
theorem render_eq_text {classifier classifier' : Classifier} {world world' : World}
    (h : Ends (eligible.synthesize table config) classifier world fragment classifier' world')
    (hclean : IsClean table config eligible) (qualified : List Text) :
    fragment.render qualified = text (fun name =>
      if name.nameText ∈ qualified then Name.escapeQualified name.nameText
      else Name.escape (Name.simple name.nameText)) table config eligible := by
  obtain ⟨hfragment, -, -, -⟩ := Eligible.ends_synthesize h
  exact render_of_fragment? hfragment hclean qualified

/-- A function whose marker holds an annotation, a list and a class literal, and whose
provider is of a generic type. -/
def gallery : Eligible :=
  let device : Annotation := .make (.string "app.Device") .null
    [⟨.string "sizes", .list [.classRef (.string "app.Small"), .classRef (.string "kotlin.Int")]⟩] none
  let marker : Annotation := .make (.string "Preview") .null
    [⟨.string "name", .string "Gallery"⟩, ⟨.string "device", .nested device⟩] none
  let provider : Annotation := .make (.string "Provider") .null
    [⟨.null, .classRef (.string "app.Items")⟩] none
  let items : TypeRef := ⟨.string "kotlin.collections.List",
    [.star, .projected (.string "out") (some ⟨.string "app.Item", [], true, false⟩)], false, false⟩
  let function : FunctionDecl := ⟨.string "Gallery", .string "app", .isInternal, [marker],
    [⟨.string "items", items, [provider], none⟩], none, .kotlin, true, .string "Gallery.kt"⟩
  ⟨⟨.string "Gallery.kt", .string "app", .kotlin, [.function function]⟩, function, [marker]⟩

def galleryConfig : Config :=
  { preview := .string "Preview", previewParameter := .string "Provider" }

theorem gallery_rendered : IsClean ⟨[], [], none⟩ galleryConfig gallery ∧
    ∃ fragment classifier' world', Ends (gallery.synthesize ⟨[], [], none⟩ galleryConfig)
      (.ofBase galleryConfig.preview) (.ofFiles .empty) fragment classifier' world' ∧
    fragment.render [Text.ofString "app.Item"] = text (fun name =>
      if name.nameText ∈ [Text.ofString "app.Item"] then Name.escapeQualified name.nameText
      else Name.escape (Name.simple name.nameText)) ⟨[], [], none⟩ galleryConfig gallery := by
  have hclean : IsClean ⟨[], [], none⟩ galleryConfig gallery :=
    ⟨by decide +kernel, by decide +kernel, by decide +kernel⟩
  obtain ⟨fragment, classifier', world', h⟩ := exists_ends
    (gallery.synthesize ⟨[], [], none⟩ galleryConfig) (.ofBase galleryConfig.preview)
    (.ofFiles .empty) (by decide +kernel)
  exact ⟨hclean, fragment, classifier', world', h, render_eq_text h hclean _⟩

end Synthesis

end PreviewShots
