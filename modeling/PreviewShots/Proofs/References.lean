import PreviewShots.Proofs.Spelling

/-!
# Names that a test refers to

The names that a template leaves open are those its fragment refers to, and they are the
types that occur in what the test shows: in the marks and the arguments they keep, and in
the parameter that is forwarded (`refers_to_uses`).
-/

open PreviewShots.Task

namespace PreviewShots

-- ---------------------------------------------------------------------------
-- Open names
-- ---------------------------------------------------------------------------

namespace Template

def Piece.name? : Piece → Option Text
  | .plain _ => none
  | .name text => some text

/-- The names that a template leaves open, in order. -/
def openNames (template : Text) : List Text :=
  (pieces template).filterMap (·.name?)

theorem openNames_plain {text : Text} (h : delimiter ∉ text) (rest : Text) :
    openNames (text ++ rest) = openNames rest := by
  induction text with
  | nil => rfl
  | cons c cs ih =>
    simp only [List.mem_cons, not_or] at h
    simpa [openNames, pieces, scan, Ne.symm h.1, Piece.name?] using ih h.2

theorem openNames_placeholder {name : Text} (h : delimiter ∉ name) (hne : name ≠ [])
    (rest : Text) : openNames (placeholder name ++ rest) = name :: openNames rest := by
  simp [openNames, pieces_placeholder h hne, Piece.name?]

end Template

/-- Where no text holds a delimiter, the names of a spelled text are left open in order. -/
theorem IsSpelled.openNames {source : Spelling → Text} {names : List Label}
    (h : IsSpelled source names)
    (hnames : ∀ name ∈ names, name.nameText ≠ [] ∧ Template.delimiter ∉ name.nameText)
    (hfixed : Template.delimiter ∉ source .blank) (rest : Text) :
    Template.openNames (source .deferred ++ rest) =
      names.map (·.nameText) ++ Template.openNames rest := by
  induction h generalizing rest with
  | fixed text => exact Template.openNames_plain hfixed rest
  | name label =>
    obtain ⟨hne, hm⟩ := hnames label List.mem_cons_self
    have hplain : label.plain = label.nameText := by
      cases label with
      | string text => rfl
      | _ => exact absurd rfl hne
    simpa [Spelling.deferred, hplain] using Template.openNames_placeholder hm hne rest
  | append _ _ ihl ihr =>
    simp only [List.mem_append, not_or] at hfixed
    rw [List.append_assoc, ihl (fun name hn => hnames name (List.mem_append_left _ hn)) hfixed.1,
      ihr (fun name hn => hnames name (List.mem_append_right _ hn)) hfixed.2, List.map_append,
      List.append_assoc]

-- ---------------------------------------------------------------------------
-- Types that occur
-- ---------------------------------------------------------------------------

/-- A type occurs in a literal: as a class literal or as that of an annotation, at any
depth. -/
inductive Literal.Mentions (name : Label) : Literal → Prop
  | classRef : Mentions name (.classRef name)
  | item {items : List Literal} {item : Literal} : item ∈ items → Mentions name item →
      Mentions name (.list items)
  | type {value : Annotation} : value.typeName = name → name.isTruthy →
      Mentions name (.nested value)
  | argument {value : Annotation} {argument : Argument} : argument ∈ value.arguments →
      Mentions name argument.value → Mentions name (.nested value)

/-- A name occurs in a type: as its own or as that of an argument, at any depth. -/
inductive TypeRef.Mentions (name : Label) : TypeRef → Prop
  | self {type : TypeRef} : type.name = name → name.isTruthy → Mentions name type
  | argument {type inner : TypeRef} {variance : Label} :
      .projected variance (some inner) ∈ type.arguments → Mentions name inner →
      Mentions name type

section

variable {name : Label}

theorem Literal.allNames_eq (items : List Literal) :
    Literal.allNames items = items.flatMap (·.names) := by
  induction items with
  | nil => rfl
  | cons item items ih => rw [Literal.allNames, ih, List.flatMap_cons]

theorem Argument.allNames_eq (arguments : List Argument) :
    Argument.allNames arguments = arguments.flatMap (·.value.names) := by
  induction arguments with
  | nil => rfl
  | cons argument rest ih =>
    obtain ⟨name, value⟩ := argument
    rw [Argument.allNames, ih, List.flatMap_cons]

theorem Literal.mem_names_of_mentions {value : Literal} (h : value.Mentions name) :
    name ∈ value.names := by
  induction h with
  | classRef => exact List.mem_cons_self
  | item hm _ ih =>
    rw [Literal.names, Literal.allNames_eq]
    exact List.mem_flatMap_of_mem hm ih
  | @type value ht hn =>
    obtain ⟨typeName, shortName, arguments, defaults⟩ := value
    cases ht
    simp [Literal.names, Annotation.names, hn]
  | @argument value _ hm _ ih =>
    obtain ⟨typeName, shortName, arguments, defaults⟩ := value
    rw [Literal.names, Annotation.names, Argument.allNames_eq]
    exact List.mem_append_right _ (List.mem_flatMap_of_mem hm ih)

mutual
theorem Literal.mentions_of_mem : ∀ value : Literal, name ∈ value.names → value.Mentions name
  | .string _, h => nomatch h
  | .classRef _, h => by
    cases List.mem_singleton.mp h
    exact .classRef
  | .list items, h => by
    obtain ⟨item, hm, hi⟩ := Literal.exists_mentions items h
    exact .item hm hi
  | .nested value, h => value.mentions_of_mem h
  | .other _ _, h => nomatch h
theorem Literal.exists_mentions : ∀ items : List Literal, name ∈ Literal.allNames items →
    ∃ item ∈ items, item.Mentions name
  | [], h => nomatch h
  | item :: items, h => by
    rw [Literal.allNames, List.mem_append] at h
    rcases h with h | h
    · exact ⟨item, List.mem_cons_self, item.mentions_of_mem h⟩
    · obtain ⟨other, hm, ho⟩ := Literal.exists_mentions items h
      exact ⟨other, List.mem_cons_of_mem _ hm, ho⟩
theorem Annotation.mentions_of_mem : ∀ value : Annotation, name ∈ value.names →
    (Literal.nested value).Mentions name
  | ⟨typeName, shortName, arguments, defaults⟩, h => by
    rw [ Annotation.names, List.mem_append] at h
    rcases h with h | h
    · split at h
      · next ht =>
        cases List.mem_singleton.mp h
        exact .type rfl ht
      · cases h
    · obtain ⟨argument, hm, ha⟩ := Argument.exists_mentions arguments h
      exact .argument hm ha
theorem Argument.exists_mentions : ∀ arguments : List Argument,
    name ∈ Argument.allNames arguments → ∃ argument ∈ arguments, argument.value.Mentions name
  | [], h => nomatch h
  | ⟨key, value⟩ :: rest, h => by
    rw [Argument.allNames, List.mem_append] at h
    rcases h with h | h
    · exact ⟨⟨key, value⟩, List.mem_cons_self, value.mentions_of_mem h⟩
    · obtain ⟨argument, hm, ha⟩ := Argument.exists_mentions rest h
      exact ⟨argument, List.mem_cons_of_mem _ hm, ha⟩
end

theorem Literal.mem_names_iff {value : Literal} : name ∈ value.names ↔ value.Mentions name :=
  ⟨value.mentions_of_mem, Literal.mem_names_of_mentions⟩

theorem TypeRef.mem_argumentNames {arguments : List TypeArgument} :
    name ∈ TypeRef.argumentNames arguments ↔
      ∃ variance inner, .projected variance (some inner) ∈ arguments ∧ name ∈ inner.names := by
  induction arguments with
  | nil => simp [TypeRef.argumentNames]
  | cons argument rest ih =>
    rcases argument with _ | ⟨variance, _ | inner⟩
    · simp [TypeRef.argumentNames, ih]
    · simp [TypeRef.argumentNames, ih]
    · simp [TypeRef.argumentNames, ih, or_and_right, exists_or]

theorem TypeRef.mem_names_of_mentions {type : TypeRef} (h : type.Mentions name) :
    name ∈ type.names := by
  induction h with
  | @self type ht hn =>
    obtain ⟨own, arguments, nullable, isError⟩ := type
    cases ht
    simp [TypeRef.names, hn]
  | @argument type inner variance hm _ ih =>
    obtain ⟨own, arguments, nullable, isError⟩ := type
    rw [TypeRef.names]
    exact List.mem_append_right _ (TypeRef.mem_argumentNames.mpr ⟨variance, inner, hm, ih⟩)

mutual
theorem TypeRef.mentions_of_mem : ∀ type : TypeRef, name ∈ type.names → type.Mentions name
  | ⟨own, arguments, nullable, isError⟩, h => by
    rw [TypeRef.names, List.mem_append] at h
    rcases h with h | h
    · split at h
      · next ht =>
        cases List.mem_singleton.mp h
        exact .self rfl ht
      · cases h
    · obtain ⟨variance, inner, hm, hi⟩ := TypeRef.exists_mentions arguments h
      exact .argument hm hi
theorem TypeRef.exists_mentions : ∀ arguments : List TypeArgument,
    name ∈ TypeRef.argumentNames arguments →
      ∃ variance inner, .projected variance (some inner) ∈ arguments ∧ inner.Mentions name
  | [], h => nomatch h
  | .star :: rest, h | .projected _ none :: rest, h => by
    obtain ⟨variance, inner, hm, hi⟩ := TypeRef.exists_mentions rest h
    exact ⟨variance, inner, List.mem_cons_of_mem _ hm, hi⟩
  | .projected variance (some inner) :: rest, h => by
    rw [TypeRef.argumentNames, List.mem_append] at h
    rcases h with h | h
    · exact ⟨variance, inner, List.mem_cons_self, inner.mentions_of_mem h⟩
    · obtain ⟨other, last, hm, hi⟩ := TypeRef.exists_mentions rest h
      exact ⟨other, last, List.mem_cons_of_mem _ hm, hi⟩
end

theorem TypeRef.mem_names_iff {type : TypeRef} : name ∈ type.names ↔ type.Mentions name :=
  ⟨type.mentions_of_mem, TypeRef.mem_names_of_mentions⟩

end

-- ---------------------------------------------------------------------------
-- Types that a test shows
-- ---------------------------------------------------------------------------

theorem Name.sorted_nodup (names : List Text) : (Name.sorted names).Nodup := by
  refine (Name.sorted_pairwise names).imp ?_
  rintro name _ hlt rfl
  exact List.lt_irrefl name hlt

theorem Label.eq_map_of_texts? {labels : List Label} {texts : List Text}
    (h : Label.texts? labels = some texts) : labels = texts.map .string := by
  induction labels generalizing texts with
  | nil =>
    cases h
    rfl
  | cons label labels ih =>
    cases label with
    | string text =>
      obtain ⟨rest, hrest, rfl⟩ := Option.map_eq_some_iff.mp h
      rw [ih hrest, List.map_cons]
    | _ => simp [Label.texts?] at h

namespace Synthesis

variable {table : SymbolTable} {config : Config} {eligible : Eligible}

/-- A type that the test of a function shows: that of a mark, one in an argument that a
mark keeps, one of the two fixed annotations, or one of the parameter that is forwarded,
with its mark. -/
inductive Uses (table : SymbolTable) (config : Config) (eligible : Eligible) (name : Label) : Prop
  | marker {a : Annotation} : a ∈ eligible.markers → typeName? table a = some name → Uses ..
  | kept {a : Annotation} {argument : Argument} : a ∈ eligible.markers →
      argument ∈ keptArguments table a → argument.value.Mentions name → Uses ..
  | fixed : name ∈ fixedNames config → Uses ..
  | provider {provider : Provider} : provider? table config eligible.function = some provider →
      typeName? table provider.mark = some name → Uses ..
  | provided {provider : Provider} {argument : Argument} :
      provider? table config eligible.function = some provider →
      argument ∈ providerArguments provider.mark.arguments →
      argument.value.Mentions name → Uses ..
  | parameter {provider : Provider} : provider? table config eligible.function = some provider →
      provider.parameter.type.Mentions name → Uses ..

theorem mem_writtenNames {a : Annotation} {arguments : List Argument} {name : Label} :
    name ∈ writtenNames table a arguments ↔ typeName? table a = some name ∨
      ∃ argument ∈ arguments, argument.value.Mentions name := by
  simp [writtenNames, Literal.mem_names_iff]

theorem mem_names_iff {name : Label} :
    name ∈ names table config eligible ↔ Uses table config eligible name := by
  simp only [names, annotationNames, List.mem_append, List.mem_flatMap, mem_writtenNames]
  constructor
  · rintro ((⟨a, ha, ht | ⟨argument, hm, hv⟩⟩ | hf) | hp)
    · exact .marker ha ht
    · exact .kept ha hm hv
    · exact .fixed hf
    · cases hprovider : provider? table config eligible.function with
      | none => simp [hprovider] at hp
      | some provider =>
        simp only [hprovider, Option.map_some, Option.getD_some, declaredNames, List.mem_append,
          mem_writtenNames] at hp
        rcases hp with (ht | ⟨argument, hm, hv⟩) | htype
        · exact .provider hprovider ht
        · exact .provided hprovider hm hv
        · exact .parameter hprovider (TypeRef.mem_names_iff.mp htype)
  · have hprovided {provider : Provider} (hm : name ∈ declaredNames table provider)
        (hp : provider? table config eligible.function = some provider) :
        name ∈ ((provider? table config eligible.function).map (declaredNames table)).getD [] := by
      simpa [hp] using hm
    rintro (⟨ha, ht⟩ | ⟨ha, hm, hv⟩ | hf | ⟨hp, ht⟩ | ⟨hp, hm, hv⟩ | ⟨hp, ht⟩)
    · exact .inl (.inl ⟨_, ha, .inl ht⟩)
    · exact .inl (.inl ⟨_, ha, .inr ⟨_, hm, hv⟩⟩)
    · exact .inl (.inr hf)
    · exact .inr (hprovided (List.mem_append_left _ (mem_writtenNames.mpr (.inl ht))) hp)
    · exact .inr (hprovided (List.mem_append_left _ (mem_writtenNames.mpr (.inr ⟨_, hm, hv⟩))) hp)
    · exact .inr (hprovided (List.mem_append_right _ (TypeRef.mem_names_iff.mpr ht)) hp)

/-- The names that a fragment leaves open are those it refers to; it requires the ones
that are not imported anyway; and they are the types that the test shows. -/
theorem refers_to_uses {fragment : Fragment} {classifier classifier' : Classifier}
    {world world' : World}
    (h : Ends (eligible.synthesize table config) classifier world fragment classifier' world')
    (hclean : IsClean table config eligible) :
    ∃ referenced required : List Text, fragment.referencedNames = referenced.map .string ∧
      fragment.requiredImports = required.map .string ∧ referenced.Nodup ∧ required.Nodup ∧
      ∀ name, (name ∈ Template.openNames fragment.template.nameText ↔ name ∈ referenced) ∧
        (name ∈ required ↔ name ∈ referenced ∧ Name.isImplicit name = false) ∧
        (name ∈ referenced ↔ Uses table config eligible (.string name)) := by
  obtain ⟨hfragment, -, -, -⟩ := Eligible.ends_synthesize h
  unfold fragment? at hfragment
  split at hfragment
  · cases hfragment
  · obtain ⟨texts, htexts, rfl⟩ := Option.map_eq_some_iff.mp hfragment
    have hnames := Label.eq_map_of_texts? htexts
    have hopen := (isSpelled_text table config eligible).openNames
      (fun name hn => ⟨hclean.nonempty name hn, hclean.names name hn⟩) hclean.text []
    have htemplate : Template.openNames (text .deferred table config eligible) = texts := by
      have hnil : Template.openNames [] = [] := rfl
      rwa [List.append_nil, hnil, List.append_nil, hnames, List.map_map, List.map_id''] at hopen
      exact fun _ => rfl
    refine ⟨Name.sorted texts, Name.sorted (texts.filter fun n => !Name.isImplicit n), rfl, rfl,
      Name.sorted_nodup _, Name.sorted_nodup _, fun name => ⟨?_, ?_, ?_⟩⟩
    · rw [Synthesis.fragment, Label.nameText_string, htemplate, Name.mem_sorted]
    · simp [List.mem_filter]
    · rw [Name.mem_sorted, ← mem_names_iff, hnames]
      simp

/-- The type in the arguments of the parameter's type is open and has to be imported; a
class literal of a default package is open only. -/
theorem gallery_refers : IsClean ⟨[], [], none⟩ galleryConfig gallery ∧
    ∃ fragment classifier' world', Ends (gallery.synthesize ⟨[], [], none⟩ galleryConfig)
      (.ofBase galleryConfig.preview) (.ofFiles .empty) fragment classifier' world' ∧
      Text.ofString "app.Item" ∈ Template.openNames fragment.template.nameText ∧
      .string "app.Item" ∈ fragment.requiredImports ∧
      Text.ofString "kotlin.Int" ∈ Template.openNames fragment.template.nameText ∧
      .string "kotlin.Int" ∉ fragment.requiredImports := by
  have hclean : IsClean ⟨[], [], none⟩ galleryConfig gallery :=
    ⟨by decide +kernel, by decide +kernel, by decide +kernel⟩
  obtain ⟨fragment, classifier', world', h⟩ := exists_ends
    (gallery.synthesize ⟨[], [], none⟩ galleryConfig) (.ofBase galleryConfig.preview)
    (.ofFiles .empty) (by decide +kernel)
  obtain ⟨referenced, required, -, hrequired, -, -, hnames⟩ := refers_to_uses h hclean
  have hitem : Uses ⟨[], [], none⟩ galleryConfig gallery (.string "app.Item") :=
    .parameter rfl (.argument (List.mem_cons_of_mem _ List.mem_cons_self) (.self rfl rfl))
  have hint : Uses ⟨[], [], none⟩ galleryConfig gallery (.string "kotlin.Int") := by
    refine .kept List.mem_cons_self (List.mem_cons_of_mem _ List.mem_cons_self) ?_
    exact .argument List.mem_cons_self (.item (List.mem_cons_of_mem _ List.mem_cons_self) .classRef)
  obtain ⟨hopenItem, hrequiredItem, husesItem⟩ := hnames (Text.ofString "app.Item")
  obtain ⟨hopenInt, hrequiredInt, husesInt⟩ := hnames (Text.ofString "kotlin.Int")
  have hmem {name : Text} : .string name ∈ fragment.requiredImports ↔ name ∈ required := by
    simp [hrequired]
  refine ⟨hclean, fragment, classifier', world', h, hopenItem.mpr (husesItem.mpr hitem),
    hmem.mpr (hrequiredItem.mpr ⟨husesItem.mpr hitem, by decide⟩),
    hopenInt.mpr (husesInt.mpr hint), fun hr => ?_⟩
  exact absurd (hrequiredInt.mp (hmem.mp hr)).2 (by decide)

end Synthesis

end PreviewShots
