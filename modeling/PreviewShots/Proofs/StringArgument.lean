import PreviewShots.Proofs.Name
import PreviewShots.Proofs.References
import PreviewShots.Proofs.StringLiteral
import PreviewShots.Proofs.TestFile

/-!
# Strings in the text of a test

A string that a marker keeps, as an argument or deep in one, has its place in the text of the
test. Filling the template leaves the literal of the string at that place if the string has no
delimiter in it, and never otherwise, where no delimiter stands beside the names before it
(`string_stands_iff`).
-/

open PreviewShots.Task

namespace PreviewShots

-- ---------------------------------------------------------------------------
-- Delimiters in a template
-- ---------------------------------------------------------------------------

namespace Template

variable {c : CodePoint} {text rest : Text}

/-- The spelling of a name does not open with a delimiter. -/
theorem spelling_eq_cons {name : Text} (qualified : List Text) (hne : name ≠ [])
    (hm : delimiter ∉ name) : ∃ d more, spelling qualified name = d :: more ∧ d ≠ delimiter := by
  have hspelled : spelling qualified name ≠ [] ∧ delimiter ∉ spelling qualified name := by
    unfold spelling
    split
    · refine ⟨Name.escapeQualified_ne_nil hne, fun h => ?_⟩
      rcases Name.mem_escapeQualified h with hname | htick | hdot
      · exact hm hname
      · exact absurd htick (by decide)
      · exact absurd hdot (by decide)
    · refine ⟨Name.escape_ne_nil _, fun h => ?_⟩
      rcases Name.mem_escape h with hname | htick
      · exact hm (Name.simple_subset name hname)
      · exact absurd htick (by decide)
  obtain ⟨d, more, hcons⟩ := List.exists_cons_of_ne_nil hspelled.1
  exact ⟨d, more, hcons, fun hd => hspelled.2 (by simp [hcons, hd])⟩

/-- A delimiter in front of something that goes on to a further delimiter opens a name, and is
not written. -/
theorem not_prefix_resolve_opened (qualified : List Text) (hc : c ≠ delimiter)
    (hrest : delimiter ∈ rest) :
    ¬ delimiter :: c :: text <+: resolve qualified (delimiter :: c :: rest) := by
  obtain ⟨name, behind, rfl, hname⟩ := List.eq_append_cons_of_mem hrest
  have hm : delimiter ∉ c :: name := by simp [hname, Ne.symm hc]
  have hfill : resolve qualified (placeholder (c :: name) ++ behind) = _ :=
    fill_placeholder hm (by simp)
  obtain ⟨d, more, hspelled, hd⟩ := spelling_eq_cons qualified (by simp) hm
  simp only [placeholder, List.cons_append, List.append_assoc, List.nil_append, hspelled] at hfill
  rw [hfill, List.cons_prefix_cons]
  exact fun h => hd h.1.symm

/-- Of some delimiters in a row only the last one opens a name. -/
theorem not_prefix_resolve_cons (qualified : List Text) (hc : c ≠ delimiter)
    (hrest : delimiter ∈ rest) (text : Text) :
    ¬ delimiter :: (text ++ [c]) <+: resolve qualified (delimiter :: (text ++ c :: rest)) := by
  induction text with
  | nil => exact not_prefix_resolve_opened qualified hc hrest
  | cons d text ih =>
    by_cases hd : d = delimiter
    · subst hd
      intro h
      exact ih (List.cons_prefix_cons.mp h).2
    · exact not_prefix_resolve_opened qualified hd (by simp [hrest])

/-- A text with a delimiter does not stand in a template with a delimiter behind the text. -/
theorem not_prefix_resolve (qualified : List Text) (hc : c ≠ delimiter) (htext : delimiter ∈ text)
    (hrest : delimiter ∈ rest) :
    ¬ text ++ [c] <+: resolve qualified (text ++ c :: rest) := by
  obtain ⟨before, behind, rfl, hbefore⟩ := List.eq_append_cons_of_mem htext
  simp only [List.append_assoc, List.cons_append]
  rw [resolve, fill_plain hbefore, List.prefix_append_right_inj]
  exact not_prefix_resolve_cons qualified hc hrest behind

end Template

theorem StringLiteral.delimiter_mem_encode {text : Text} :
    Template.delimiter ∈ encode text ↔ Template.delimiter ∈ text := by
  have hchar (c : CodePoint) : Template.delimiter ∈ encodeChar c ↔ Template.delimiter = c := by
    by_cases hspecial : IsSpecial c
    · rcases hspecial with rfl | rfl | rfl | rfl | rfl | rfl <;> decide
    · simp [encodeChar_of_not_isSpecial hspecial]
  simp [encode, List.mem_flatMap, hchar]

/-- In front of a text with a delimiter, a literal stands as it is just if there is none in it. -/
theorem StringLiteral.prefix_resolve_iff {text rest : Text} (qualified : List Text)
    (hrest : Template.delimiter ∈ rest) :
    ofText text <+: Template.resolve qualified (ofText text ++ rest) ↔
      Template.delimiter ∉ text := by
  have hquote : Text.ofString "\"" = [.char '"'] := rfl
  constructor
  · intro hstands hm
    have htext : Template.delimiter ∈ "\"" ++ encode text :=
      List.mem_append_right _ (delimiter_mem_encode.mpr hm)
    have hnot := Template.not_prefix_resolve qualified (c := '"') (by decide) htext hrest
    exact hnot (by simpa [ofText, hquote] using hstands)
  · intro hm
    have hliteral : Template.delimiter ∉ ofText text := by
      have hdiffer : Template.delimiter ≠ .char '"' := by decide
      simp [ofText, hquote, hdiffer, delimiter_mem_encode, hm]
    rw [Template.resolve, Template.fill_plain hliteral]
    exact List.prefix_append _ _

-- ---------------------------------------------------------------------------
-- Places
-- ---------------------------------------------------------------------------

namespace Text

/-- Each of the parts with the separator behind it. -/
def leading (sep : Text) (parts : List Text) : Text :=
  parts.flatMap (· ++ sep)

/-- Each of the parts with the separator in front of it. -/
def trailing (sep : Text) (parts : List Text) : Text :=
  parts.flatMap (sep ++ ·)

theorem joinWith_cons_eq (sep part : Text) (parts : List Text) :
    joinWith sep (part :: parts) = part ++ trailing sep parts := by
  induction parts generalizing part with
  | nil => simp [joinWith, trailing]
  | cons next parts ih =>
    rw [joinWith_cons_cons, ih]
    simp [trailing]

theorem joinWith_append_cons (sep part : Text) (front back : List Text) :
    joinWith sep (front ++ part :: back) = leading sep front ++ part ++ trailing sep back := by
  induction front with
  | nil => simpa [leading] using joinWith_cons_eq sep part back
  | cons first front ih =>
    rw [List.cons_append, joinWith_cons sep first (by simp), ih]
    simp [leading]

end Text

/-- What stands before a place in a text that is written through a spelling, and behind it. -/
structure Place where
  before : Spelling → Text
  after : Spelling → Text

namespace Place

/-- All of a text is the place. -/
def whole : Place := ⟨fun _ => [], fun _ => []⟩

/-- The place in a text that goes on at both ends. -/
def within (place : Place) (before after : Spelling → Text) : Place :=
  ⟨fun spelling => before spelling ++ place.before spelling,
    fun spelling => place.after spelling ++ after spelling⟩

/-- The place in a text that is joined of parts. -/
def among (place : Place) (sep : Text) (front back : Spelling → List Text) : Place :=
  place.within (fun spelling => Text.leading sep (front spelling))
    (fun spelling => Text.trailing sep (back spelling))

/-- The text that is spelled with the names has the part at the place. -/
structure Has (place : Place) (source : Spelling → Text) (names : List Label) (part : Text) :
    Prop where
  source_eq : ∀ spelling, source spelling = place.before spelling ++ part ++ place.after spelling
  spelled : ∃ early late, IsSpelled place.before early ∧ IsSpelled place.after late ∧
    names = early ++ late

variable {place : Place} {source : Spelling → Text} {names : List Label} {part : Text}

theorem has_whole (part : Text) : whole.Has (fun _ => part) [] part :=
  ⟨fun _ => (List.append_nil part).symm, [], [], .fixed [], .fixed [], rfl⟩

theorem Has.within (h : place.Has source names part) {before after : Spelling → Text}
    {early late : List Label} (hb : IsSpelled before early) (ha : IsSpelled after late) :
    (place.within before after).Has (fun spelling => before spelling ++ source spelling ++
      after spelling) (early ++ names ++ late) part := by
  obtain ⟨heq, first, last, hfirst, hlast, rfl⟩ := h
  exact ⟨fun spelling => by simp [Place.within, heq],
    early ++ first, last ++ late, hb.append hfirst, hlast.append ha, by simp⟩

theorem isSpelled_leading {texts : Spelling → List Text} (sep : Text)
    (h : AreSpelled texts names) :
    IsSpelled (fun spelling => Text.leading sep (texts spelling)) names := by
  induction h with
  | nil => exact .fixed []
  | cons hfirst _ ih =>
    simpa [Text.leading] using (hfirst.append (.fixed sep)).append ih

theorem isSpelled_trailing {texts : Spelling → List Text} (sep : Text)
    (h : AreSpelled texts names) :
    IsSpelled (fun spelling => Text.trailing sep (texts spelling)) names := by
  induction h with
  | nil => exact .fixed []
  | cons hfirst _ ih =>
    simpa [Text.trailing] using ((IsSpelled.fixed sep).append hfirst).append ih

theorem Has.among (h : place.Has source names part) (sep : Text)
    {front back : Spelling → List Text} {early late : List Label} (hf : AreSpelled front early)
    (hb : AreSpelled back late) :
    (place.among sep front back).Has (fun spelling => Text.joinWith sep
      (front spelling ++ source spelling :: back spelling)) (early ++ names ++ late) part := by
  simp only [Text.joinWith_append_cons]
  exact h.within (isSpelled_leading sep hf) (isSpelled_trailing sep hb)

end Place

-- ---------------------------------------------------------------------------
-- Strings that are kept
-- ---------------------------------------------------------------------------

theorem Literal.sources_eq_map (spelling : Spelling) (items : List Literal) :
    Literal.sources spelling items = items.map (Literal.source spelling) := by
  induction items with
  | nil => rfl
  | cons item rest ih => simp [Literal.sources, ih]

/-- The name of an argument and what sets it apart from the value. -/
def Argument.lead (argument : Argument) : Text :=
  if argument.name.isTruthy then argument.name.plain ++ " = " else []

theorem Argument.source_eq (argument : Argument) (spelling : Spelling) :
    argument.source spelling = argument.lead ++ argument.value.source spelling := by
  simp only [Argument.source, labelled, Argument.lead]
  split <;> simp

/-- What an annotation is called inside another one. -/
def Annotation.head (a : Annotation) (spelling : Spelling) : Text :=
  if a.typeName.isTruthy then spelling a.typeName else a.shortName.plain

theorem Annotation.isSpelled_head (a : Annotation) :
    IsSpelled a.head (if a.typeName.isTruthy then [a.typeName] else []) :=
  (IsSpelled.name a.typeName).ite a.typeName.isTruthy (.fixed a.shortName.plain)

theorem Annotation.source_eq (a : Annotation) (spelling : Spelling) :
    a.source spelling = a.head spelling ++ "(" ++
      Text.joinWith ", " (a.arguments.map (·.source spelling)) ++ ")" := by
  obtain ⟨typeName, shortName, arguments, defaults⟩ := a
  simp only [ Annotation.source, Annotation.head, Argument.sources_eq_map]

theorem Annotation.names_eq (a : Annotation) :
    a.names = (if a.typeName.isTruthy then [a.typeName] else []) ++
      a.arguments.flatMap (·.value.names) := by
  obtain ⟨typeName, shortName, arguments, defaults⟩ := a
  simp only [ Annotation.names, Argument.allNames_eq]

/-- The place of a value among the arguments of an annotation. -/
def Place.ofArgument (place : Place) (head : Spelling → Text) (front : List Argument)
    (argument : Argument) (back : List Argument) : Place :=
  ((place.within (fun _ => argument.lead) (fun _ => [])).among ", "
    (fun spelling => front.map (·.source spelling))
    (fun spelling => back.map (·.source spelling))).within
      (fun spelling => head spelling ++ "(") (fun _ => ")")

/-- The literal is the string, or has it in an item or an argument at any depth; this is the
place of the string in what the literal is written as. -/
inductive Literal.StringAt (text : Text) : Literal → Place → Prop
  | here : StringAt text (.string text) .whole
  | item {front back : List Literal} {item : Literal} {place : Place} :
      StringAt text item place →
      StringAt text (.list (front ++ item :: back))
        ((place.among ", " (fun spelling => front.map (·.source spelling))
          (fun spelling => back.map (·.source spelling))).within (fun _ => "[") (fun _ => "]"))
  | argument {a : Annotation} {front back : List Argument} {argument : Argument} {place : Place} :
      a.arguments = front ++ argument :: back → StringAt text argument.value place →
      StringAt text (.nested a) (place.ofArgument a.head front argument back)

section

variable {place : Place} {part : Text} {argument : Argument} {names : List Label}

theorem Place.Has.ofArgument
    (h : place.Has (argument.value.source ·) argument.value.names part)
    {head : Spelling → Text} (hhead : IsSpelled head names) (front back : List Argument) :
    (place.ofArgument head front argument back).Has (fun spelling => head spelling ++ "(" ++
      Text.joinWith ", " ((front ++ argument :: back).map (·.source spelling)) ++ ")")
      (names ++ (front ++ argument :: back).flatMap (·.value.names)) part := by
  have hsources (arguments : List Argument) :
      AreSpelled (fun spelling => arguments.map (·.source spelling))
        (arguments.flatMap (·.value.names)) :=
    .map fun argument _ => isSpelled_labelled argument.name argument.value.isSpelled
  have hargument := h.within (.fixed argument.lead) (.fixed [])
  have hlist := hargument.among ", " (hsources front) (hsources back)
  have hall := hlist.within (hhead.append (.fixed "(")) (.fixed ")")
  simpa [Place.ofArgument, Argument.source_eq] using hall

theorem Literal.StringAt.has {text : Text} {value : Literal} (h : value.StringAt text place) :
    place.Has (value.source ·) value.names (StringLiteral.ofText text) := by
  induction h with
  | here => exact Place.has_whole _
  | @item front back item place _ ih =>
    have hsources (items : List Literal) :
        AreSpelled (fun spelling => items.map (·.source spelling)) (items.flatMap (·.names)) :=
      .map fun item _ => item.isSpelled
    have hlist := (ih.among ", " (hsources front) (hsources back)).within (.fixed "[") (.fixed "]")
    simpa [Literal.source, Literal.sources_eq_map, Literal.names, Literal.allNames_eq] using hlist
  | @argument a front back argument place harguments _ ih =>
    have hall := ih.ofArgument a.isSpelled_head front back
    simpa [Literal.source, Literal.names, Annotation.source_eq, Annotation.names_eq,
      harguments] using hall

end

-- ---------------------------------------------------------------------------
-- Strings in a test
-- ---------------------------------------------------------------------------

namespace Synthesis

variable {table : SymbolTable} {config : Config} {eligible : Eligible} {string : Text}
  {place : Place}

/-- What an annotation of a test is called, behind its mark. -/
def mark (table : SymbolTable) (a : Annotation) (spelling : Spelling) : Text :=
  "@" ++ ((typeName? table a).map spelling).getD a.shortName.plain

theorem isSpelled_mark (table : SymbolTable) (a : Annotation) :
    IsSpelled (mark table a) (typeName? table a).toList := by
  unfold mark
  cases typeName? table a with
  | none => exact .fixed ("@" ++ a.shortName.plain)
  | some name => exact (IsSpelled.fixed "@").append (.name name)

theorem written_eq (spelling : Spelling) (table : SymbolTable) (a : Annotation)
    {arguments : List Argument} (h : arguments ≠ []) :
    written spelling table a arguments = mark table a spelling ++ "(" ++
      Text.joinWith ", " (arguments.map (·.source spelling)) ++ ")" := by
  have hempty : arguments.isEmpty = false := List.isEmpty_eq_false_iff.mpr h
  cases hname : typeName? table a <;> simp [written, mark, hname, hempty]

/-- The markers of a test, each in its line, with the arguments they keep. -/
def markerLines (table : SymbolTable) (markers : List Annotation) (spelling : Spelling) :
    List Text :=
  markers.map fun a => written spelling table a (keptArguments table a)

/-- The lines of a test behind its markers. -/
def closingLines (table : SymbolTable) (config : Config) (function : FunctionDecl)
    (spelling : Spelling) : List Text :=
  let provider := provider? table config function
  (fixedNames config).map (fixed spelling) ++
    body config function (signature spelling table provider) (call provider)

theorem text_eq (spelling : Spelling) (table : SymbolTable) (config : Config)
    (eligible : Eligible) : text spelling table config eligible =
      Text.joinWith "\n" (markerLines table eligible.markers spelling ++
        closingLines table config eligible.function spelling) := by
  simp [text, annotations, markerLines, closingLines]

/-- A marker of the function keeps an argument with the string in it; this is the place of the
string in the text of the test. -/
inductive KeepsAt (table : SymbolTable) (config : Config) (eligible : Eligible) (string : Text) :
    Place → Prop
  | argument {marker : Annotation} {earlier later : List Annotation} {argument : Argument}
      {front back : List Argument} {place : Place} :
      eligible.markers = earlier ++ marker :: later →
      keptArguments table marker = front ++ argument :: back →
      argument.value.StringAt string place →
      KeepsAt table config eligible string
        ((place.ofArgument (mark table marker) front argument back).among "\n"
          (markerLines table earlier)
          (fun spelling => markerLines table later spelling ++
            closingLines table config eligible.function spelling))

theorem areSpelled_markerLines (table : SymbolTable) (markers : List Annotation) :
    AreSpelled (markerLines table markers)
      (markers.flatMap fun a => writtenNames table a (keptArguments table a)) :=
  .map fun a _ => isSpelled_written table a _

theorem areSpelled_closingLines (table : SymbolTable) (config : Config)
    (function : FunctionDecl) : AreSpelled (closingLines table config function)
      (fixedNames config ++
        ((provider? table config function).map (declaredNames table)).getD []) :=
  (areSpelled_annotations table config []).append
    (areSpelled_body config function _ (isSpelled_signature table _))

/-- The text of the test has the literal of the string at its place. -/
theorem KeepsAt.has (h : KeepsAt table config eligible string place) :
    place.Has (text · table config eligible) (names table config eligible)
      (StringLiteral.ofText string) := by
  cases h with
  | @argument marker earlier later argument front back place hmarkers hkept hstring =>
    have hmarker := hstring.has.ofArgument (isSpelled_mark table marker) front back
    have hall := hmarker.among "\n" (areSpelled_markerLines table earlier)
      ((areSpelled_markerLines table later).append
        (areSpelled_closingLines table config eligible.function))
    have hlist : front ++ argument :: back ≠ [] := by simp
    have hsource (spelling : Spelling) : text spelling table config eligible =
        Text.joinWith "\n" (markerLines table earlier spelling ++
          written spelling table marker (front ++ argument :: back) ::
          (markerLines table later spelling ++
            closingLines table config eligible.function spelling)) := by
      simp [text_eq, hmarkers, markerLines, hkept]
    have hnames : names table config eligible =
        earlier.flatMap (fun a => writtenNames table a (keptArguments table a)) ++
        writtenNames table marker (front ++ argument :: back) ++
        (later.flatMap (fun a => writtenNames table a (keptArguments table a)) ++
          (fixedNames config ++
            ((provider? table config eligible.function).map (declaredNames table)).getD [])) := by
      simp [names, annotationNames, hmarkers, hkept]
    simp only [hsource, hnames, written_eq _ _ _ hlist]
    exact hall

/-- The name of the first annotation behind the markers is open. -/
theorem delimiter_mem_closingLines (table : SymbolTable) (config : Config)
    (function : FunctionDecl) : Template.delimiter ∈
      Text.trailing "\n" (closingLines table config function .deferred) := by
  refine List.mem_flatMap.mpr ⟨fixed .deferred config.previewTest, List.mem_cons_self, ?_⟩
  simp [fixed, Spelling.deferred, Template.placeholder]

theorem KeepsAt.delimiter_mem_after (h : KeepsAt table config eligible string place) :
    Template.delimiter ∈ place.after .deferred := by
  cases h with
  | argument =>
    have hclosing := delimiter_mem_closingLines table config eligible.function
    simp only [Place.among, Place.within, Text.trailing, List.flatMap_append]
    exact List.mem_append_right _ (List.mem_append_right _ hclosing)

/-- A string that a marker keeps stands in the rendered test as its literal, right behind what
is written before it, just if there is no delimiter in the string. -/
theorem string_stands_iff {fragment : Fragment} {classifier classifier' : Classifier}
    {world world' : World}
    (h : Ends (eligible.synthesize table config) classifier world fragment classifier' world')
    (hnames : ∀ name ∈ names table config eligible,
      name.nameText ≠ [] ∧ Template.delimiter ∉ name.nameText)
    (hkept : KeepsAt table config eligible string place)
    (hbefore : Template.delimiter ∉ place.before .blank) (qualified : List Text) :
    let spelled : Spelling := fun name => Template.spelling qualified name.nameText
    (∀ spelling, text spelling table config eligible =
      place.before spelling ++ StringLiteral.ofText string ++ place.after spelling) ∧
    (place.before spelled ++ StringLiteral.ofText string <+: fragment.render qualified ↔
      Template.delimiter ∉ string) := by
  intro spelled
  obtain ⟨hfragment, -, -, -⟩ := Eligible.ends_synthesize h
  obtain ⟨hsource, early, late, hearly, -, hnames_eq⟩ := hkept.has
  refine ⟨hsource, ?_⟩
  have hfill := hearly.fill (fun name hn => hnames name (hnames_eq ▸ List.mem_append_left _ hn))
    hbefore (Template.spelling qualified)
    (StringLiteral.ofText string ++ place.after .deferred)
  have hrender : fragment.render qualified = place.before spelled ++
      Template.resolve qualified (StringLiteral.ofText string ++ place.after .deferred) := by
    rw [eq_of_fragment? hfragment, Fragment.render, Template.resolve, Template.resolve, ← hfill,
      ← List.append_assoc, ← hsource]
    rfl
  rw [hrender, List.prefix_append_right_inj]
  exact StringLiteral.prefix_resolve_iff qualified hkept.delimiter_mem_after

/-- A function whose marker has a class literal and a string in a list. -/
def tagged : Eligible :=
  TestFile.markedBy "app.Tags" ⟨.string "tags",
    .list [.classRef (.string "app.Dark"), .string "\"$\\\t\""]⟩

theorem tagged_keepsAt : ∃ place, KeepsAt ⟨[], [], none⟩ galleryConfig tagged "\"$\\\t\"" place ∧
    Template.delimiter ∉ place.before .blank := by
  have hstring : (Literal.list ([.classRef (.string "app.Dark")] ++
      .string "\"$\\\t\"" :: [])).StringAt "\"$\\\t\"" _ := .item .here
  have hmarkers : tagged.markers = [] ++ _ :: [] := rfl
  exact ⟨_, .argument hmarkers (show keptArguments _ _ = [] ++ _ :: [] from rfl) hstring,
    by decide +kernel⟩

theorem tagged_string_stands : (∀ name ∈ names ⟨[], [], none⟩ galleryConfig tagged,
      name.nameText ≠ [] ∧ Template.delimiter ∉ name.nameText) ∧
    ∃ fragment classifier' world' place, Ends (tagged.synthesize ⟨[], [], none⟩ galleryConfig)
      (.ofBase galleryConfig.preview) (.ofFiles .empty) fragment classifier' world' ∧
    KeepsAt ⟨[], [], none⟩ galleryConfig tagged "\"$\\\t\"" place ∧
    Template.delimiter ∉ place.before .blank ∧
    let spelled : Spelling := fun name => Template.spelling [] name.nameText
    (∀ spelling, text spelling ⟨[], [], none⟩ galleryConfig tagged =
      place.before spelling ++ StringLiteral.ofText "\"$\\\t\"" ++ place.after spelling) ∧
    (place.before spelled ++ StringLiteral.ofText "\"$\\\t\"" <+: fragment.render [] ↔
      Template.delimiter ∉ Text.ofString "\"$\\\t\"") := by
  have hnames : ∀ name ∈ names ⟨[], [], none⟩ galleryConfig tagged,
      name.nameText ≠ [] ∧ Template.delimiter ∉ name.nameText := by
    decide +kernel
  obtain ⟨place, hkept, hbefore⟩ := tagged_keepsAt
  obtain ⟨fragment, classifier', world', h⟩ := exists_ends
    (tagged.synthesize ⟨[], [], none⟩ galleryConfig) (.ofBase galleryConfig.preview)
    (.ofFiles .empty) (by decide +kernel)
  exact ⟨hnames, fragment, classifier', world', place, h, hkept, hbefore,
    string_stands_iff h hnames hkept hbefore []⟩

/-- A function whose marker has a string with two delimiters. -/
def delimited : Eligible :=
  TestFile.markedBy "Preview" ⟨.string "name", .string "\x1fapp.Dark\x1f"⟩

/-- What stands between the delimiters of the string is written like the name of a type. -/
theorem delimited_respelled : ∃ fragment classifier' world' place,
    Ends (delimited.synthesize ⟨[], [], none⟩ galleryConfig) (.ofBase galleryConfig.preview)
      (.ofFiles .empty) fragment classifier' world' ∧
    KeepsAt ⟨[], [], none⟩ galleryConfig delimited "\x1fapp.Dark\x1f" place ∧
    Text.ofString "(name = \"Dark\")" <:+: fragment.render [] ∧
    ¬ StringLiteral.ofText "\x1fapp.Dark\x1f" <:+: fragment.render [] := by
  obtain ⟨fragment, classifier', world', h⟩ := exists_ends
    (delimited.synthesize ⟨[], [], none⟩ galleryConfig) (.ofBase galleryConfig.preview)
    (.ofFiles .empty) (by decide +kernel)
  have hmarkers : delimited.markers = [] ++ _ :: [] := rfl
  refine ⟨fragment, classifier', world', _, h,
    .argument hmarkers (show keptArguments _ _ = [] ++ _ :: [] from rfl) .here, ?_⟩
  rw [eq_of_fragment? (Eligible.ends_synthesize h).1]
  decide +kernel

end Synthesis

end PreviewShots
