import PreviewShots.Dump.Table
import PreviewShots.Proofs.Json.Reader

/-!
# What is wrong with a dump

The defects of a dump are all that is wrong with it, in the order of its entries: an entry
that is malformed, and a value of a kind that has no meaning where it stands. The table is
read up to the first of them and stops there with its fault (`table_stopsAt`).
-/

namespace PreviewShots.Dump

inductive Defect where
  /-- A value of a kind that has no meaning where it stands. -/
  | misplaced
  | malformed (cause : DumpFault)

def Defect.fault : Defect → Fault
  | .misplaced => .illTyped
  | .malformed cause => .dump cause

def Defect.isMisplaced : Defect → Bool
  | .misplaced => true
  | .malformed _ => false

-- ---------------------------------------------------------------------------
-- Defects of entries
-- ---------------------------------------------------------------------------

namespace Defects

def expect (holds : Bool) (defect : Defect) : List Defect :=
  if holds then [] else [defect]

/-- The elements of a list; none where there is no list. -/
def items (entry : Option Json) : List Json :=
  (entry.bind (·.elements?)).getD []

/-- A list may be absent, but nothing else may stand in its place. -/
def ofList (ofItem : Json → List Defect) (entry : Option Json) : List Defect :=
  expect (entry.all (·.elements?.isSome)) .misplaced ++ (items entry).flatMap ofItem

def ofObject (ofMembers : List Member → List Defect) : Json → List Defect
  | .object ms => ofMembers ms
  | _ => [.misplaced]

def ofNotation (text : Text) : List Defect :=
  match TypeRef.parse text with
  | .ok _ => []
  | .error fault => [.malformed (.typeNotation text fault)]

def ofArgumentText (text : Text) : List Defect :=
  if text = "*" then [] else ofNotation text

mutual
def ofType : Json → List Defect
  | .null => []
  | .string text => ofNotation text
  | .object ms => ofTypeArgumentsIn ms
  | value => [.malformed (.typeKind value.kind)]
def ofTypeIn : List Member → List Defect
  | [] => []
  | ⟨key, value⟩ :: ms => if key = "type" then ofType value else ofTypeIn ms
def ofTypeArgumentsIn : List Member → List Defect
  | [] => []
  | ⟨key, value⟩ :: ms => if key = "arguments" then ofTypeArguments value else ofTypeArgumentsIn ms
def ofTypeArguments : Json → List Defect
  | .array items => ofTypeArgumentList items
  | .string text => text.flatMap fun c => ofArgumentText [c]
  | .object ms => ms.flatMap fun m => ofArgumentText m.key
  | _ => [.misplaced]
def ofTypeArgumentList : List Json → List Defect
  | [] => []
  | item :: items => ofTypeArgument item ++ ofTypeArgumentList items
def ofTypeArgument : Json → List Defect
  | .string text => ofArgumentText text
  | .object ms => if hasMember "variance" ms then ofTypeIn ms else ofTypeArgumentsIn ms
  | item => ofType item
end

/-- Where an annotation has no short name, it is taken from its type, which has to be a name. -/
def ofShortName (ms : List Member) : List Defect :=
  expect ((label "shortName" ms).isTruthy || (label "type" ms).isName) .misplaced

mutual
def ofLiteral : Json → List Defect
  | .array items => ofLiterals items
  | .object ms =>
    if hasMember "class" ms then []
    else if hasMember "annotation" ms then ofAnnotationIn ms
    else expect (hasMember "source" ms)
      (.malformed (.unknownLiteral (Name.sorted (ms.map (·.key)))))
  | _ => []
def ofLiterals : List Json → List Defect
  | [] => []
  | item :: items => ofLiteral item ++ ofLiterals items
def ofLiteralIn : List Member → List Defect
  | [] => []
  | ⟨key, value⟩ :: ms => if key = "value" then ofLiteral value else ofLiteralIn ms
def ofAnnotationIn : List Member → List Defect
  | [] => []
  | ⟨key, value⟩ :: ms => if key = "annotation" then ofAnnotationValue value else ofAnnotationIn ms
def ofAnnotationValue : Json → List Defect
  | .string _ => []
  | .object ms => ofArgumentsIn "arguments" ms ++ ofArgumentsIn "defaults" ms ++ ofShortName ms
  | value => [.malformed (.annotationKind value.kind)]
def ofArgumentsIn (wanted : Text) : List Member → List Defect
  | [] => []
  | ⟨key, value⟩ :: ms => if key = wanted then ofArguments value else ofArgumentsIn wanted ms
def ofArguments : Json → List Defect
  | .null => []
  | .object ms => ofNamedArguments ms
  | .array items => ofArgumentEntries items
  | .string text => text.map fun c => .malformed (.argumentWithoutValue (.string [c]))
  | _ => [.misplaced]
def ofNamedArguments : List Member → List Defect
  | [] => []
  | ⟨_, value⟩ :: ms => ofLiteral value ++ ofNamedArguments ms
def ofArgumentEntries : List Json → List Defect
  | [] => []
  | item :: items => ofArgumentEntry item ++ ofArgumentEntries items
def ofArgumentEntry : Json → List Defect
  | .object ms =>
    if hasMember "value" ms then ofLiteralIn ms
    else [.malformed (.argumentWithoutValue (.object ms))]
  | item => [.malformed (.argumentWithoutValue item)]
end

def ofAnnotations (ms : List Member) : List Defect :=
  ofList ofAnnotationValue (getMember? "annotations" ms)

def ofOptionalType (entry : Option Json) : List Defect :=
  entry.elim [] ofType

def ofParameter (entry : Json) : List Defect :=
  entry |> ofObject fun ms =>
    expect (label "name" ms).isTruthy (.malformed (.parameterWithoutName entry)) ++
      ofOptionalType (getMember? "type" ms) ++ ofAnnotations ms ++
      (getMember? "default" ms).elim [] ofLiteral

def ofParameters (ms : List Member) : List Defect :=
  ofList ofParameter (getMember? "parameters" ms)

-- ---------------------------------------------------------------------------
-- Defects of declarations
-- ---------------------------------------------------------------------------

/-- A text that is given has to be the name of an origin; nothing else may be given. -/
def ofOrigin (path : Label) (entry : Option Json) : List Defect :=
  match entry.filter (·.isTruthy) with
  | none => []
  | some (.string text) =>
    expect (Origin.ofName? (text.map capital)).isSome (.malformed (.unknownOrigin text path.plain))
  | some _ => [.misplaced]

/-- Without an origin the path tells it, and has to be a text. -/
def ofFileOrigin (path : Label) (entry : Option Json) : List Defect :=
  ofOrigin path entry ++
    expect (entry.any (·.isTruthy) || path.text?.isSome) .misplaced

def ofVisibility : Option Json → List Defect
  | none | some .null => []
  | some (.string text) =>
    expect (Visibility.ofName? (Text.lower text)).isSome (.malformed (.unknownVisibility text))
  | some _ => [.misplaced]

def ofFunction (path : Label) (ms : List Member) : List Defect :=
  expect (label "name" ms).isTruthy (.malformed (.functionWithoutName path.plain)) ++
    ofOrigin path (getMember? "origin" ms) ++ ofVisibility (getMember? "visibility" ms) ++
    ofAnnotations ms ++ ofParameters ms ++ ofOptionalType (getMember? "returnType" ms)

/-- A kind that is given has to be the name of one. -/
def ofClassKind : Option Json → List Defect
  | none => []
  | some (.string text) =>
    expect (ClassKind.ofName? text).isSome (.malformed (.unknownKind (.string text)))
  | some value => [.malformed (.unknownKind value)]

def ofClass (ms : List Member) : List Defect :=
  ofClassKind (getMember? "kind" ms) ++ ofAnnotations ms ++ ofParameters ms

def ofDeclaration (path : Label) : Json → List Defect :=
  ofObject fun ms => if isFunction ms then ofFunction path ms else ofClass ms

def ofSourceFile : Json → List Defect :=
  ofObject fun ms =>
    let path := label "path" ms
    expect path.isTruthy (.malformed .fileWithoutPath) ++
      ofFileOrigin path (getMember? "origin" ms) ++
      ofList (ofDeclaration path) (getMember? "declarations" ms)

-- ---------------------------------------------------------------------------
-- Defects of the whole
-- ---------------------------------------------------------------------------

/-- The full name of a class that is declared. -/
def classNames (package : Label) : Json → List Label
  | .object ms => if isFunction ms then [] else [className package ms]
  | _ => []

def classNamesIn : Json → List Label
  | .object ms =>
    (items (getMember? "declarations" ms)).flatMap
      (classNames ((getMember? "package" ms).getD (.string "")))
  | _ => []

def libraryClassNames : Json → List Label
  | .object ms => [className .null ms]
  | _ => []

/-- Classes are found by their names, which are no lists or objects. -/
def ofClassNames (ms : List Member) : List Defect :=
  expect (((items (getMember? "classes" ms)).flatMap libraryClassNames ++
    (items (getMember? "files" ms)).flatMap classNamesIn).all (!·.isCompound)) .misplaced

/-- The new paths are a list of scalars, or null. -/
def ofNewPaths : Option Json → List Defect
  | none | some .null => []
  | some value => expect (value.elements?.any (·.all Label.isScalar)) .misplaced

end Defects

open Defects in
/-- All that is wrong with a dump. -/
def defects : Json → List Defect
  | .object ms =>
    ofList ofSourceFile (getMember? "files" ms) ++
      ofList (ofObject ofClass) (getMember? "classes" ms) ++ ofClassNames ms ++
      ofNewPaths (getMember? "newFiles" ms)
  | value => [.malformed (.rootKind value.kind)]

-- ---------------------------------------------------------------------------
-- Reading up to the first defect
-- ---------------------------------------------------------------------------

variable {α β : Type}

def fault? : Except Fault α → Option Fault
  | .ok _ => none
  | .error fault => some fault

/-- What is read stops with the fault of the first defect, and comes to its end where there
is none. -/
def StopsAt (result : Except Fault α) (found : List Defect) : Prop :=
  fault? result = found.head?.map (·.fault)

section

variable {result : Except Fault α} {next : α → Except Fault β} {found later : List Defect}

theorem stopsAt_ok {a : α} : StopsAt (.ok a) [] := rfl

theorem StopsAt.eq_nil {a : α} (h : StopsAt (.ok a) found) : found = [] := by
  cases found with
  | nil => rfl
  | cons => simp [StopsAt, fault?] at h

theorem StopsAt.exists_ok_iff (h : StopsAt result found) : (∃ a, result = .ok a) ↔ found = [] := by
  cases result with
  | ok a => simp [h.eq_nil]
  | error fault =>
    have hne : found ≠ [] := fun hnil => by simp [hnil, StopsAt, fault?] at h
    simp [hne]

theorem StopsAt.error_iff (h : StopsAt result found) {fault : Fault} :
    result = .error fault ↔ ∃ defect, found.head? = some defect ∧ defect.fault = fault := by
  rw [← Option.map_eq_some_iff, ← h]
  cases result <;> simp [fault?]

theorem StopsAt.bind (h : StopsAt result found)
    (hnext : ∀ a, result = .ok a → StopsAt (next a) later) :
    StopsAt (result >>= next) (found ++ later) := by
  cases result with
  | ok a =>
    obtain rfl := h.eq_nil
    exact hnext a rfl
  | error fault =>
    cases found with
    | nil => simp [StopsAt, fault?] at h
    | cons defect rest => exact h

/-- What is made of the result adds no defect. -/
theorem StopsAt.map {make : α → β} (h : StopsAt result found) :
    StopsAt (result >>= fun a => pure (make a)) found := by
  have hmap : StopsAt (result >>= fun a => pure (make a)) (found ++ []) :=
    h.bind fun _ _ => stopsAt_ok
  rwa [List.append_nil] at hmap

theorem stopsAt_mapM {f : α → Except Fault β} {ofItem : α → List Defect} {items : List α}
    (h : ∀ item ∈ items, StopsAt (f item) (ofItem item)) :
    StopsAt (items.mapM f) (items.flatMap ofItem) := by
  induction items with
  | nil => exact stopsAt_ok
  | cons item items ih =>
    obtain ⟨hitem, hitems⟩ := List.forall_mem_cons.mp h
    rw [List.mapM_cons, List.flatMap_cons]
    exact hitem.bind fun _ _ => (ih hitems).map

/-- A condition that is tested before the rest is read. -/
theorem stopsAt_expect {holds : Bool} {defect : Defect} {fault : Fault}
    {rest : Unit → Except Fault α} (hfault : fault = defect.fault) (h : StopsAt (rest ()) found) :
    StopsAt (if !holds then throw fault >>= rest else rest ())
      (Defects.expect holds defect ++ found) := by
  subst hfault
  cases holds with
  | false => rfl
  | true => exact h

end

-- ---------------------------------------------------------------------------
-- Entries
-- ---------------------------------------------------------------------------

open Defects

theorem elements_stopsAt (entry : Option Json) :
    StopsAt (elements entry) (expect (entry.all (·.elements?.isSome)) .misplaced) := by
  cases entry with
  | none => rfl
  | some value =>
    simp only [elements, Option.all_some]
    cases value.elements? <;> rfl

theorem eq_items_of_elements {entry : Option Json} {found : List Json}
    (h : elements entry = .ok found) : found = items entry := by
  cases entry with
  | none => exact (Except.ok.inj h).symm
  | some value =>
    simp only [elements] at h
    split at h
    · next listed hlisted => simpa [items, hlisted] using (Except.ok.inj h).symm
    · cases h

/-- A list is read before what is made of it. -/
theorem list_bind_stopsAt {read : Json → Except Fault α} {ofItem : Json → List Defect}
    {next : List α → Except Fault β} {later : List Defect} (entry : Option Json)
    (h : ∀ item, StopsAt (read item) (ofItem item))
    (hnext : ∀ found, (items entry).mapM read = .ok found → StopsAt (next found) later) :
    StopsAt (elements entry >>= fun found => found.mapM read >>= next)
      (ofList ofItem entry ++ later) := by
  rw [ofList, List.append_assoc]
  refine (elements_stopsAt entry).bind fun found hfound => ?_
  rw [eq_items_of_elements hfound]
  exact (stopsAt_mapM fun item _ => h item).bind hnext

theorem list_stopsAt {read : Json → Except Fault α} {ofItem : Json → List Defect}
    (h : ∀ item, StopsAt (read item) (ofItem item)) (entry : Option Json) :
    StopsAt (elements entry >>= fun found => found.mapM read) (ofList ofItem entry) := by
  have hlist : StopsAt (elements entry >>= fun found => found.mapM read >>= pure)
      (ofList ofItem entry ++ []) :=
    list_bind_stopsAt entry h fun _ _ => stopsAt_ok
  simpa only [bind_pure, List.append_nil] using hlist

theorem object_stopsAt {read : List Member → Except Fault α} {ofMembers : List Member → List Defect}
    (h : ∀ ms, StopsAt (read ms) (ofMembers ms)) (entry : Json) :
    StopsAt (members entry >>= read) (ofObject ofMembers entry) := by
  cases entry with
  | object ms => exact h ms
  | _ => rfl

theorem option_stopsAt {read : Json → Except Fault α} {ofValue : Json → List Defect}
    (h : ∀ value, StopsAt (read value) (ofValue value)) (entry : Option Json) :
    StopsAt (entry.mapM read) (entry.elim [] ofValue) := by
  cases entry with
  | none => exact stopsAt_ok
  | some value => exact (h value).map

-- ---------------------------------------------------------------------------
-- Types
-- ---------------------------------------------------------------------------

theorem typeOfText_stopsAt (text : Text) : StopsAt (typeOfText text) (ofNotation text) := by
  simp only [typeOfText, ofNotation]
  cases TypeRef.parse text <;> rfl

theorem argumentOfText_stopsAt (text : Text) :
    StopsAt (argumentOfText text) (ofArgumentText text) := by
  simp only [argumentOfText, ofArgumentText]
  split
  · exact stopsAt_ok
  · exact (typeOfText_stopsAt text).map

theorem argumentsOfTexts_stopsAt (texts : List Text) :
    StopsAt (argumentsOfTexts texts) (texts.flatMap ofArgumentText) := by
  induction texts with
  | nil => exact stopsAt_ok
  | cons text texts ih => exact (argumentOfText_stopsAt text).bind fun _ _ => ih.map

mutual
theorem type_stopsAt : ∀ value, StopsAt (type value) (ofType value)
  | .null => by
    rw [type, ofType]
    exact stopsAt_ok
  | .string text => by
    rw [type, ofType]
    exact (typeOfText_stopsAt text).map
  | .object ms => by
    rw [type, ofType]
    exact (typeArgumentsIn_stopsAt ms).map
  | .bool _ | .int _ | .float _ | .array _ => by
    simp only [type, ofType]
    rfl
theorem typeIn_stopsAt : ∀ ms, StopsAt (typeIn ms) (ofTypeIn ms)
  | [] => by
    rw [typeIn, ofTypeIn]
    exact stopsAt_ok
  | ⟨key, value⟩ :: ms => by
    rw [typeIn, ofTypeIn]
    split
    · exact type_stopsAt value
    · exact typeIn_stopsAt ms
theorem typeArgumentsIn_stopsAt : ∀ ms, StopsAt (typeArgumentsIn ms) (ofTypeArgumentsIn ms)
  | [] => by
    rw [typeArgumentsIn, ofTypeArgumentsIn]
    exact stopsAt_ok
  | ⟨key, value⟩ :: ms => by
    rw [typeArgumentsIn, ofTypeArgumentsIn]
    split
    · exact typeArguments_stopsAt value
    · exact typeArgumentsIn_stopsAt ms
theorem typeArguments_stopsAt : ∀ value, StopsAt (typeArguments value) (ofTypeArguments value)
  | .array items => by
    rw [typeArguments, ofTypeArguments]
    exact typeArgumentList_stopsAt items
  | .string text => by
    simpa only [typeArguments, ofTypeArguments, List.flatMap_map] using
      argumentsOfTexts_stopsAt (text.map fun c => [c])
  | .object ms => by
    simpa only [typeArguments, ofTypeArguments, List.flatMap_map] using
      argumentsOfTexts_stopsAt (ms.map (·.key))
  | .null | .bool _ | .int _ | .float _ => by
    simp only [typeArguments, ofTypeArguments]
    rfl
theorem typeArgumentList_stopsAt :
    ∀ items, StopsAt (typeArgumentList items) (ofTypeArgumentList items)
  | [] => by
    rw [typeArgumentList, ofTypeArgumentList]
    exact stopsAt_ok
  | item :: items => by
    rw [typeArgumentList, ofTypeArgumentList]
    exact (typeArgument_stopsAt item).bind fun _ _ => (typeArgumentList_stopsAt items).map
theorem typeArgument_stopsAt : ∀ item, StopsAt (typeArgument item) (ofTypeArgument item)
  | .string text => by
    rw [typeArgument, ofTypeArgument]
    exact argumentOfText_stopsAt text
  | .object ms => by
    rw [typeArgument, ofTypeArgument, hasMember]
    cases getMember? "variance" ms with
    | none => exact (typeArgumentsIn_stopsAt ms).map
    | some variance => exact (typeIn_stopsAt ms).map
  | .null | .bool _ | .int _ | .float _ | .array _ => by
    simp only [typeArgument, ofTypeArgument, type, ofType]
    rfl
end

-- ---------------------------------------------------------------------------
-- Literals and annotations
-- ---------------------------------------------------------------------------

theorem annotationOfMembers_stopsAt (ms : List Member) (arguments : List Argument)
    (defaults : Option (List Argument)) :
    StopsAt (annotationOfMembers ms arguments defaults) (ofShortName ms) := by
  simp only [annotationOfMembers, ofShortName, expect]
  split <;> rfl

theorem argumentsOfTexts?_stopsAt (texts : List Text) :
    StopsAt (argumentsOfTexts? texts)
      (texts.map fun text => .malformed (.argumentWithoutValue (.string text))) := by
  cases texts <;> rfl

mutual
theorem literal_stopsAt : ∀ value, StopsAt (literal value) (ofLiteral value)
  | .array items => (literals_stopsAt items).map
  | .object ms => by
    have hmember (key : Text) : hasMember key ms = (getMember? key ms).isSome := rfl
    rw [literal, ofLiteral, hmember "class", hmember "source"]
    cases getMember? "class" ms with
    | some name => exact stopsAt_ok
    | none =>
      simp only [Option.isSome_none, Bool.false_eq_true, ↓reduceIte]
      split
      · next h => exact (annotationIn_stopsAt ms h).map
      · cases getMember? "source" ms <;> rfl
  | .null | .bool _ | .int _ | .float _ | .string _ => stopsAt_ok
theorem literals_stopsAt : ∀ items, StopsAt (literals items) (ofLiterals items)
  | [] => stopsAt_ok
  | item :: items => (literal_stopsAt item).bind fun _ _ => (literals_stopsAt items).map
theorem literalIn_stopsAt : ∀ ms, hasMember "value" ms = true →
    StopsAt (literalIn ms) (ofLiteralIn ms)
  | [], h => by simp [hasMember, getMember?] at h
  | ⟨key, value⟩ :: ms, h => by
    rw [literalIn, ofLiteralIn]
    split
    · exact literal_stopsAt value
    · next hkey => exact literalIn_stopsAt ms (by simpa [hasMember, getMember?, hkey] using h)
theorem annotationIn_stopsAt : ∀ ms, hasMember "annotation" ms = true →
    StopsAt (annotationIn ms) (ofAnnotationIn ms)
  | [], h => by simp [hasMember, getMember?] at h
  | ⟨key, value⟩ :: ms, h => by
    rw [annotationIn, ofAnnotationIn]
    split
    · exact annotationOf_stopsAt value
    · next hkey => exact annotationIn_stopsAt ms (by simpa [hasMember, getMember?, hkey] using h)
theorem annotationOf_stopsAt : ∀ value, StopsAt (annotationOf value) (ofAnnotationValue value)
  | .string _ => stopsAt_ok
  | .object ms => by
    rw [annotationOf, ofAnnotationValue, List.append_assoc]
    exact (argumentsIn_stopsAt "arguments" ms).bind fun _ _ =>
      (argumentsIn_stopsAt "defaults" ms).bind fun _ _ => annotationOfMembers_stopsAt ms _ _
  | .null | .bool _ | .int _ | .float _ | .array _ => rfl
theorem argumentsIn_stopsAt (wanted : Text) :
    ∀ ms, StopsAt (argumentsIn wanted ms) (ofArgumentsIn wanted ms)
  | [] => stopsAt_ok
  | ⟨key, value⟩ :: ms => by
    rw [argumentsIn, ofArgumentsIn]
    split
    · exact arguments_stopsAt value
    · exact argumentsIn_stopsAt wanted ms
theorem arguments_stopsAt : ∀ value, StopsAt (arguments value) (ofArguments value)
  | .null => stopsAt_ok
  | .object ms => (namedArguments_stopsAt ms).map
  | .array items => (argumentEntries_stopsAt items).map
  | .string text => by
    have htexts := argumentsOfTexts?_stopsAt (text.map fun c => [c])
    rw [List.map_map] at htexts
    exact htexts.map
  | .bool _ | .int _ | .float _ => rfl
theorem namedArguments_stopsAt : ∀ ms, StopsAt (namedArguments ms) (ofNamedArguments ms)
  | [] => stopsAt_ok
  | ⟨_, value⟩ :: ms => (literal_stopsAt value).bind fun _ _ => (namedArguments_stopsAt ms).map
theorem argumentEntries_stopsAt :
    ∀ items, StopsAt (argumentEntries items) (ofArgumentEntries items)
  | [] => stopsAt_ok
  | item :: items => (argumentEntry_stopsAt item).bind fun _ _ =>
    (argumentEntries_stopsAt items).map
theorem argumentEntry_stopsAt : ∀ item, StopsAt (argumentEntry item) (ofArgumentEntry item)
  | .object ms => by
    rw [argumentEntry, ofArgumentEntry]
    split
    · next h => exact (literalIn_stopsAt ms h).map
    · rfl
  | .null | .bool _ | .int _ | .float _ | .string _ | .array _ => rfl
end

theorem annotations_stopsAt (ms : List Member) : StopsAt (annotations ms) (ofAnnotations ms) :=
  list_stopsAt annotationOf_stopsAt _

theorem optionalType_stopsAt (entry : Option Json) :
    StopsAt (optionalType entry) (ofOptionalType entry) := by
  cases entry with
  | none => exact stopsAt_ok
  | some value => exact type_stopsAt value

-- ---------------------------------------------------------------------------
-- Declarations
-- ---------------------------------------------------------------------------

theorem parameter_stopsAt (entry : Json) : StopsAt (parameter entry) (ofParameter entry) := by
  refine object_stopsAt (fun ms => ?_) entry
  simp only [List.append_assoc]
  refine stopsAt_expect rfl ?_
  exact (optionalType_stopsAt _).bind fun _ _ => (annotations_stopsAt ms).bind fun _ _ =>
    (option_stopsAt literal_stopsAt _).map

theorem parameters_stopsAt (ms : List Member) : StopsAt (parameters ms) (ofParameters ms) :=
  list_stopsAt parameter_stopsAt _

theorem originOfText_stopsAt (path text : Text) : StopsAt (originOfText path text)
    (expect (Origin.ofName? (text.map capital)).isSome (.malformed (.unknownOrigin text path))) := by
  simp only [originOfText]
  cases Origin.ofName? (text.map capital) <;> rfl

/-- The origin that is named is read up to its defect, and where none is named there is none. -/
theorem truthyText?_stopsAt {path : Label} {entry : Option Json}
    {next : Option Text → Except Fault Origin} {later : List Defect}
    (hgiven : ∀ text, next (some text) = originOfText path.plain text)
    (hnone : entry.any (·.isTruthy) = false → StopsAt (next none) later)
    (hlater : entry.any (·.isTruthy) = true → later = []) :
    StopsAt (truthyText? entry >>= next) (ofOrigin path entry ++ later) := by
  cases entry with
  | none => exact hnone rfl
  | some value =>
    by_cases ht : value.isTruthy = true
    · obtain rfl := hlater ht
      rw [List.append_nil]
      simp only [truthyText?, ht, ↓reduceIte, ofOrigin, Option.filter_some]
      cases value with
      | string text =>
        have hread := originOfText_stopsAt path.plain text
        rwa [← hgiven] at hread
      | null => cases ht
      | _ => rfl
    · simp only [truthyText?, ht, Bool.false_eq_true, ↓reduceIte, ofOrigin, Option.filter_some]
      exact hnone (by simpa using ht)

theorem originIn_stopsAt (path : Label) (fileOrigin : Origin) (ms : List Member) :
    StopsAt (originIn path fileOrigin ms) (ofOrigin path (getMember? "origin" ms)) := by
  have hread : StopsAt (originIn path fileOrigin ms)
      (ofOrigin path (getMember? "origin" ms) ++ []) :=
    truthyText?_stopsAt (fun _ => rfl) (fun _ => stopsAt_ok) (fun _ => rfl)
  rwa [List.append_nil] at hread

theorem fileOrigin_stopsAt (path : Label) (ms : List Member) :
    StopsAt (fileOrigin path ms) (ofFileOrigin path (getMember? "origin" ms)) := by
  refine truthyText?_stopsAt (fun _ => rfl) (fun h => ?_) (fun h => by simp [h, expect])
  rw [h, Bool.false_or]
  cases path.text? <;> rfl

theorem visibility_stopsAt (entry : Option Json) :
    StopsAt (visibility entry) (ofVisibility entry) := by
  match entry with
  | none | some .null => rfl
  | some (.string text) =>
    simp only [visibility, text?, ofVisibility, bind, Except.bind]
    cases Visibility.ofName? (Text.lower text) <;> rfl
  | some (.bool _) | some (.int _) | some (.float _) | some (.array _) | some (.object _) => rfl

theorem function_stopsAt (package path : Label) (fileOrigin : Origin) (ms : List Member) :
    StopsAt (function package path fileOrigin ms) (ofFunction path ms) := by
  simp only [function, ofFunction, List.append_assoc]
  refine stopsAt_expect rfl ?_
  exact (originIn_stopsAt path fileOrigin ms).bind fun _ _ => (visibility_stopsAt _).bind fun _ _ =>
    (annotations_stopsAt ms).bind fun _ _ => (parameters_stopsAt ms).bind fun _ _ =>
    (optionalType_stopsAt _).map

theorem classKind_stopsAt (entry : Option Json) :
    StopsAt (classKind entry) (ofClassKind entry) := by
  match entry with
  | none => rfl
  | some (.string text) =>
    simp only [classKind, ofClassKind]
    cases ClassKind.ofName? text <;> rfl
  | some .null | some (.bool _) | some (.int _) | some (.float _) | some (.array _)
  | some (.object _) => rfl

theorem classDecl_stopsAt (package path : Label) (origin : Origin) (ms : List Member) :
    StopsAt (classDecl package path origin ms) (ofClass ms) := by
  simp only [classDecl, ofClass, List.append_assoc]
  exact (classKind_stopsAt _).bind fun _ _ => (annotations_stopsAt ms).bind fun _ _ =>
    (parameters_stopsAt ms).map

theorem declaration_stopsAt (package path : Label) (origin : Origin) (entry : Json) :
    StopsAt (declaration package path origin entry) (ofDeclaration path entry) := by
  refine object_stopsAt (fun ms => ?_) entry
  split
  · exact (function_stopsAt package path origin ms).map
  · exact (classDecl_stopsAt package path origin ms).map

theorem sourceFile_stopsAt (entry : Json) : StopsAt (sourceFile entry) (ofSourceFile entry) := by
  refine object_stopsAt (fun ms => ?_) entry
  simp only [List.append_assoc]
  refine stopsAt_expect rfl ?_
  refine (fileOrigin_stopsAt _ ms).bind fun origin _ => ?_
  rw [← List.append_nil (ofList _ _)]
  exact list_bind_stopsAt _ (declaration_stopsAt _ _ origin) fun _ _ => stopsAt_ok

theorem newPaths_stopsAt (entry : Option Json) : StopsAt (newPaths entry) (ofNewPaths entry) := by
  have hscalars (paths : List Label) :
      StopsAt (if paths.all (·.isScalar) then pure (some paths) else throw .illTyped)
        (expect (paths.all (·.isScalar)) .misplaced) := by
    cases paths.all (·.isScalar) <;> rfl
  match entry with
  | none | some .null | some (.bool _) | some (.int _) | some (.float _) => rfl
  | some (.string _) | some (.array _) | some (.object _) => exact hscalars _

-- ---------------------------------------------------------------------------
-- Names of classes
-- ---------------------------------------------------------------------------

theorem members_eq_ok {entry : Json} {ms : List Member} :
    members entry = .ok ms ↔ entry = .object ms := by
  cases entry <;> simp [members]

/-- What is seen of the results is told by the items. -/
theorem flatMap_of_mapM {γ : Type} {read : α → Except Fault β} {view : β → List γ}
    {ofItem : α → List γ} (h : ∀ item b, read item = .ok b → view b = ofItem item) {items : List α}
    {found : List β} (hfound : items.mapM read = .ok found) :
    found.flatMap view = items.flatMap ofItem := by
  induction items generalizing found with
  | nil =>
    cases hfound
    rfl
  | cons item items ih =>
    rw [List.mapM_cons] at hfound
    obtain ⟨b, hb, hfound⟩ := bind_eq_ok.mp hfound
    obtain ⟨rest, hrest, hfound⟩ := bind_eq_ok.mp hfound
    cases hfound
    rw [List.flatMap_cons, List.flatMap_cons, h item b hb, ih hrest]

theorem qualifiedName_of_classDecl {package path : Label} {origin : Origin} {ms : List Member}
    {decl : ClassDecl} (h : classDecl package path origin ms = .ok decl) :
    decl.qualifiedName = className package ms := by
  obtain ⟨_, -, hread⟩ := bind_eq_ok.mp h
  obtain ⟨_, -, hread⟩ := bind_eq_ok.mp hread
  obtain ⟨_, -, hread⟩ := bind_eq_ok.mp hread
  cases hread
  rfl

theorem classNames_of_declaration {package path : Label} {origin : Origin} {entry : Json}
    {decl : Declaration} (h : declaration package path origin entry = .ok decl) :
    decl.class?.toList.map (·.qualifiedName) = classNames package entry := by
  obtain ⟨ms, hentry, hread⟩ := bind_eq_ok.mp h
  obtain rfl := members_eq_ok.mp hentry
  rw [classNames]
  split at hread
  · next hfunction =>
    obtain ⟨function, -, hread⟩ := bind_eq_ok.mp hread
    cases hread
    rw [if_pos hfunction]
    rfl
  · next hfunction =>
    obtain ⟨found, hfound, hread⟩ := bind_eq_ok.mp hread
    cases hread
    rw [if_neg hfunction, ← qualifiedName_of_classDecl hfound]
    rfl

theorem map_qualifiedName_classes (file : SourceFile) : file.classes.map (·.qualifiedName) =
    file.declarations.flatMap fun decl => decl.class?.toList.map (·.qualifiedName) := by
  rw [SourceFile.classes]
  induction file.declarations with
  | nil => rfl
  | cons decl rest ih => cases decl <;> simpa [Declaration.class?] using ih

theorem classNamesIn_of_sourceFile {entry : Json} {file : SourceFile}
    (h : sourceFile entry = .ok file) :
    file.classes.map (·.qualifiedName) = classNamesIn entry := by
  obtain ⟨ms, hentry, hread⟩ := bind_eq_ok.mp h
  obtain rfl := members_eq_ok.mp hentry
  simp only at hread
  split at hread
  · cases hread
  obtain ⟨origin, -, hread⟩ := bind_eq_ok.mp hread
  obtain ⟨entries, hentries, hread⟩ := bind_eq_ok.mp hread
  obtain ⟨declarations, hdeclarations, hread⟩ := bind_eq_ok.mp hread
  cases hread
  obtain rfl := eq_items_of_elements hentries
  rw [map_qualifiedName_classes]
  exact flatMap_of_mapM (fun _ _ => classNames_of_declaration) hdeclarations

theorem libraryClassNames_of_libraryClass {entry : Json} {decl : ClassDecl}
    (h : libraryClass entry = .ok decl) : [decl.qualifiedName] = libraryClassNames entry := by
  obtain ⟨ms, hentry, hread⟩ := bind_eq_ok.mp h
  obtain rfl := members_eq_ok.mp hentry
  rw [libraryClassNames, qualifiedName_of_classDecl hread]

/-- The names of the classes that were read are those that stand in the dump. -/
theorem canFind_of_read {ms : List Member} {files : List SourceFile} {classes : List ClassDecl}
    (hfiles : (items (getMember? "files" ms)).mapM sourceFile = .ok files)
    (hclasses : (items (getMember? "classes" ms)).mapM libraryClass = .ok classes) :
    canFind files classes = (((items (getMember? "classes" ms)).flatMap libraryClassNames ++
      (items (getMember? "files" ms)).flatMap classNamesIn).all (!·.isCompound)) := by
  rw [← flatMap_of_mapM (fun _ _ => libraryClassNames_of_libraryClass) hclasses,
    ← flatMap_of_mapM (fun _ _ => classNamesIn_of_sourceFile) hfiles]
  simp [canFind, List.all_flatMap, Function.comp_def]

-- ---------------------------------------------------------------------------
-- The whole
-- ---------------------------------------------------------------------------

theorem libraryClass_stopsAt (entry : Json) :
    StopsAt (libraryClass entry) (ofObject ofClass entry) :=
  object_stopsAt (classDecl_stopsAt .null .null .kotlinLibrary) entry

/-- A dump is read up to its first defect. -/
theorem table_stopsAt (dump : Json) : StopsAt (table dump) (defects dump) := by
  cases dump with
  | object ms =>
    simp only [table, defects, List.append_assoc]
    refine list_bind_stopsAt _ sourceFile_stopsAt fun files hfiles => ?_
    refine list_bind_stopsAt _ libraryClass_stopsAt fun classes hclasses => ?_
    rw [ofClassNames, ← canFind_of_read hfiles hclasses]
    exact stopsAt_expect rfl (newPaths_stopsAt _).map
  | _ => rfl

theorem table_eq_dump_iff {dump : Json} {cause : DumpFault} :
    table dump = .error (.dump cause) ↔ (defects dump).head? = some (.malformed cause) := by
  rw [(table_stopsAt dump).error_iff]
  constructor
  · rintro ⟨_ | found, hhead, hfault⟩
    · cases hfault
    · cases hfault
      exact hhead
  · exact fun hhead => ⟨_, hhead, rfl⟩

end PreviewShots.Dump
