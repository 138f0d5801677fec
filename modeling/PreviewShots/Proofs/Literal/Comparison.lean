import PreviewShots.Dump.Literal
import PreviewShots.Proofs.Literal.Equality

/-!
# Literals that can be compared

Any two literals of a dump can be compared, if their arguments have names that can be
looked up. On those in which nothing is no number, to be told equal is an equivalence,
and a literal that is compared with its own copy is equal to it.
-/

namespace PreviewShots

/-- Conditions on the labels that a literal is compared by: those it holds and, apart
from these, the names of arguments. -/
inductive Literal.Holds (label name : Label → Prop) : Literal → Prop
  | string (text : Text) : Holds label name (.string text)
  | classRef {className : Label} : label className → Holds label name (.classRef className)
  | list {items : List Literal} : (∀ item ∈ items, Holds label name item) →
      Holds label name (.list items)
  | nested {value : Annotation} : label value.typeName →
      (∀ argument ∈ value.arguments, name argument.name) →
      (∀ argument ∈ value.arguments, Holds label name argument.value) →
      Holds label name (.nested value)
  | other {value source : Label} : label value → label source →
      Holds label name (.other value source)

namespace Literal

variable {left middle right : Literal}

theorem Holds.and {label name label' name' : Label → Prop} {literal : Literal}
    (h : literal.Holds label name) (h' : literal.Holds label' name') :
    literal.Holds (fun l => label l ∧ label' l) (fun n => name n ∧ name' n) := by
  induction h with
  | string text => exact .string text
  | classRef hn =>
    cases h' with
    | classRef hn' => exact .classRef ⟨hn, hn'⟩
  | list _ ih =>
    cases h' with
    | list hitems' => exact .list fun item hm => ih item hm (hitems' item hm)
  | nested ht hn _ ih =>
    cases h' with
    | nested ht' hn' hvalues' =>
      exact .nested ⟨ht, ht'⟩ (fun a hm => ⟨hn a hm, hn' a hm⟩)
        fun a hm => ih a hm (hvalues' a hm)
  | other hv hs =>
    cases h' with
    | other hv' hs' => exact .other ⟨hv, hv'⟩ ⟨hs, hs'⟩

-- ---------------------------------------------------------------------------
-- Equality as a relation
-- ---------------------------------------------------------------------------

/-- Each label is equal to itself, and each argument can be looked up by its name. -/
abbrev IsRegular (literal : Literal) : Prop :=
  literal.Holds (fun label => label.IsRead ∧ label ≠ .float .nan) (Label.isScalar ·)

theorem equal?_refl {literal : Literal} (h : literal.IsRegular) :
    literal.equal? literal = some true := by
  induction h with
  | string text => exact equal?_string.mpr rfl
  | classRef hn => exact equal?_classRef.mpr ⟨_, rfl, hn.1.equal_refl hn.2⟩
  | list _ ih => exact equal?_list.mpr ⟨_, rfl, List.forall₂_same.mpr ih⟩
  | @nested value ht hn _ ih =>
    have hkeys : Argument.haveKeys value.arguments := List.all_eq_true.mpr hn
    refine equal?_nested.mpr ⟨_, rfl, Annotation.equal?_iff.mpr ?_⟩
    refine ⟨ht.1.equal_refl ht.2, hkeys, hkeys, fun name => ?_⟩
    cases hlast : Argument.lastNamed? name value.arguments with
    | none => exact .none
    | some other =>
      obtain ⟨argument, hm, -, rfl⟩ := Argument.exists_of_lastNamed? hlast
      exact .some (ih argument hm)
  | other hv hs =>
    refine equal?_other.mpr ⟨_, _, rfl, ?_, hs.1.equal_refl hs.2⟩
    exact Json.same_iff.mpr ⟨rfl, hv.1.equal_refl hv.2⟩

theorem equal?_symm (hl : left.IsRegular) (hr : right.IsRegular)
    (h : left.equal? right = some true) : right.equal? left = some true := by
  induction hl generalizing right with
  | string text =>
    cases equal?_string.mp h
    exact h
  | classRef hn =>
    obtain ⟨_, rfl, he⟩ := equal?_classRef.mp h
    cases hr with
    | classRef hn' => exact equal?_classRef.mpr ⟨_, rfl, hn.1.equal_symm hn'.1 he⟩
  | list _ ih =>
    obtain ⟨_, rfl, hitems⟩ := equal?_list.mp h
    cases hr with
    | list hothers =>
      refine equal?_list.mpr ⟨_, rfl, forall₂_symm hitems ?_⟩
      exact fun item hi other ho => ih item hi (hothers other ho)
  | nested ht _ _ ih =>
    obtain ⟨_, rfl, he⟩ := equal?_nested.mp h
    obtain ⟨htype, hkeys, hkeys', hnames⟩ := Annotation.equal?_iff.mp he
    cases hr with
    | nested ht' _ hvalues' =>
      refine equal?_nested.mpr ⟨_, rfl, Annotation.equal?_iff.mpr ?_⟩
      refine ⟨ht.1.equal_symm ht'.1 htype, hkeys', hkeys, fun name => ?_⟩
      obtain ⟨hsome, hvalues⟩ := optionRel_iff.mp (hnames name)
      refine optionRel_iff.mpr ⟨hsome.symm, fun other value hother hvalue => ?_⟩
      have heq := hvalues value other hvalue hother
      obtain ⟨a, ha, -, rfl⟩ := Argument.exists_of_lastNamed? hvalue
      obtain ⟨b, hb, -, rfl⟩ := Argument.exists_of_lastNamed? hother
      exact ih a ha (hvalues' b hb) heq
  | other hv hs =>
    obtain ⟨_, _, rfl, hsame, he⟩ := equal?_other.mp h
    obtain ⟨hkind, hvalue⟩ := Json.same_iff.mp hsame
    cases hr with
    | other hv' hs' =>
      refine equal?_other.mpr ⟨_, _, rfl, ?_, hs.1.equal_symm hs'.1 he⟩
      exact Json.same_iff.mpr ⟨hkind.symm, hv.1.equal_symm hv'.1 hvalue⟩

theorem equal?_trans (hl : left.IsRegular) (h : left.equal? middle = some true)
    (h' : middle.equal? right = some true) : left.equal? right = some true := by
  induction hl generalizing middle right with
  | string text =>
    cases equal?_string.mp h
    exact h'
  | classRef hn =>
    obtain ⟨_, rfl, he⟩ := equal?_classRef.mp h
    obtain ⟨_, rfl, he'⟩ := equal?_classRef.mp h'
    exact equal?_classRef.mpr ⟨_, rfl, hn.1.equal_trans he he'⟩
  | list _ ih =>
    obtain ⟨_, rfl, hitems⟩ := equal?_list.mp h
    obtain ⟨_, rfl, hitems'⟩ := equal?_list.mp h'
    refine equal?_list.mpr ⟨_, rfl, forall₂_trans hitems hitems' ?_⟩
    exact fun item hi _ _ he he' => ih item hi he he'
  | nested ht _ _ ih =>
    obtain ⟨_, rfl, he⟩ := equal?_nested.mp h
    obtain ⟨_, rfl, he'⟩ := equal?_nested.mp h'
    obtain ⟨htype, hkeys, -, hnames⟩ := Annotation.equal?_iff.mp he
    obtain ⟨htype', -, hkeys', hnames'⟩ := Annotation.equal?_iff.mp he'
    refine equal?_nested.mpr ⟨_, rfl, Annotation.equal?_iff.mpr ?_⟩
    refine ⟨ht.1.equal_trans htype htype', hkeys, hkeys', fun name => ?_⟩
    obtain ⟨hsome, hvalues⟩ := optionRel_iff.mp (hnames name)
    obtain ⟨hsome', hvalues'⟩ := optionRel_iff.mp (hnames' name)
    refine optionRel_iff.mpr ⟨hsome.trans hsome', fun value last hvalue hlast => ?_⟩
    rw [hvalue] at hsome
    obtain ⟨other, hother⟩ := Option.isSome_iff_exists.mp hsome.symm
    have heq := hvalues value other hvalue hother
    obtain ⟨a, ha, -, rfl⟩ := Argument.exists_of_lastNamed? hvalue
    exact ih a ha heq (hvalues' other last hother hlast)
  | other hv hs =>
    obtain ⟨_, _, rfl, hsame, he⟩ := equal?_other.mp h
    obtain ⟨_, _, rfl, hsame', he'⟩ := equal?_other.mp h'
    obtain ⟨hkind, hvalue⟩ := Json.same_iff.mp hsame
    obtain ⟨hkind', hvalue'⟩ := Json.same_iff.mp hsame'
    refine equal?_other.mpr ⟨_, _, rfl, ?_, hs.1.equal_trans he he'⟩
    exact Json.same_iff.mpr ⟨hkind.trans hkind', hv.1.equal_trans hvalue hvalue'⟩

/-- It can be told whether two literals are equal. -/
theorem isSome_equal?_of_holds {label label' : Label → Prop}
    (hl : left.Holds label (Label.isScalar ·)) (hr : right.Holds label' (Label.isScalar ·)) :
    (left.equal? right).isSome := by
  induction hl generalizing right with
  | string text => cases hr <;> rfl
  | classRef => cases hr <;> rfl
  | list _ ih =>
    cases hr with
    | list hothers =>
      simp only [equal?]
      split
      · exact isSome_allEqual? fun item hi other ho => ih item hi (hothers other ho)
      · rfl
    | _ => rfl
  | nested _ hn _ ih =>
    cases hr with
    | nested _ hn' hvalues' =>
      refine Annotation.isSome_equal? (List.all_eq_true.mpr hn) (List.all_eq_true.mpr hn') ?_
      exact fun a ha b hb => ih a ha (hvalues' b hb)
    | _ => rfl
  | other => cases hr <;> rfl

end Literal

-- ---------------------------------------------------------------------------
-- Literals of a dump
-- ---------------------------------------------------------------------------

namespace Dump

open Json (IsRead isRead_array isRead_object)

/-- A literal with labels that were read. -/
abbrev HoldsRead (literal : Literal) : Prop :=
  literal.Holds IsRead fun _ => True

theorem isRead_label {members : List Member} (h : ∀ m ∈ members, m.value.IsRead) (key : Text) :
    (label key members).IsRead := by
  unfold label
  cases hm : getMember? key members with
  | none => exact .scalar rfl
  | some value => exact h _ (exists_of_getMember? hm)

theorem holdsRead_make {typeName shortName : Label} {arguments : List Argument}
    {defaults : Option (List Argument)} (ht : typeName.IsRead)
    (h : ∀ a ∈ arguments, HoldsRead a.value) :
    HoldsRead (.nested (.make typeName shortName arguments defaults)) :=
  .nested ht (fun _ _ => trivial) h

mutual
theorem holdsRead_literal : ∀ (value : Json) {found : Literal}, value.IsRead →
    literal value = .ok found → HoldsRead found
  | .string text, found, _, h => by
    cases h
    exact .string text
  | .array items, found, hv, h => by
    obtain ⟨values, hvalues, he⟩ := bind_eq_ok.mp h
    cases he
    exact .list (holdsRead_literals items (isRead_array.mp hv) hvalues)
  | .object members, found, hv, h => by
    have hmembers := (isRead_object.mp hv).2
    rw [literal] at h
    split at h
    · next name hname =>
      cases h
      exact .classRef (hmembers _ (exists_of_getMember? hname))
    · split at h
      · obtain ⟨value, hvalue, he⟩ := bind_eq_ok.mp h
        cases he
        exact holdsRead_annotationIn members hmembers hvalue
      · split at h
        · next source hsource =>
          cases h
          exact .other (isRead_label hmembers _)
            (hmembers _ (exists_of_getMember? hsource))
        · cases h
  | .null, found, hv, h | .bool _, found, hv, h | .int _, found, hv, h | .float _, found, hv, h => by
    cases h
    exact .other hv (.scalar rfl)
theorem holdsRead_literals : ∀ (items : List Json) {found : List Literal},
    (∀ item ∈ items, item.IsRead) → literals items = .ok found →
      ∀ value ∈ found, HoldsRead value
  | [], found, _, h => by
    cases h
    simp
  | item :: items, found, hv, h => by
    rw [literals] at h
    obtain ⟨value, hvalue, h⟩ := bind_eq_ok.mp h
    obtain ⟨values, hvalues, he⟩ := bind_eq_ok.mp h
    cases he
    rw [List.forall_mem_cons] at hv ⊢
    exact ⟨holdsRead_literal item hv.1 hvalue, holdsRead_literals items hv.2 hvalues⟩
theorem holdsRead_literalIn : ∀ (members : List Member) {found : Literal},
    (∀ m ∈ members, m.value.IsRead) → literalIn members = .ok found → HoldsRead found
  | [], _, _, h => nomatch h
  | ⟨key, value⟩ :: members, found, hv, h => by
    rw [List.forall_mem_cons] at hv
    rw [literalIn] at h
    split at h
    · exact holdsRead_literal value hv.1 h
    · exact holdsRead_literalIn members hv.2 h
theorem holdsRead_annotationIn : ∀ (members : List Member) {found : Annotation},
    (∀ m ∈ members, m.value.IsRead) → annotationIn members = .ok found →
      HoldsRead (.nested found)
  | [], _, _, h => nomatch h
  | ⟨key, value⟩ :: members, found, hv, h => by
    rw [List.forall_mem_cons] at hv
    rw [annotationIn] at h
    split at h
    · exact holdsRead_annotationOf value hv.1 h
    · exact holdsRead_annotationIn members hv.2 h
theorem holdsRead_annotationOf : ∀ (value : Json) {found : Annotation}, value.IsRead →
    annotationOf value = .ok found → HoldsRead (.nested found)
  | .string text, found, _, h => by
    cases h
    exact holdsRead_make (.scalar rfl) (by simp)
  | .object members, found, hv, h => by
    have hmembers := (isRead_object.mp hv).2
    rw [annotationOf] at h
    obtain ⟨arguments, harguments, h⟩ := bind_eq_ok.mp h
    obtain ⟨defaults, -, h⟩ := bind_eq_ok.mp h
    unfold annotationOfMembers at h
    dsimp only at h
    split at h
    · cases h
      exact holdsRead_make (isRead_label hmembers _)
        (holdsRead_argumentsIn _ members hmembers harguments)
    · cases h
  | .null, _, _, h | .bool _, _, _, h | .int _, _, _, h | .float _, _, _, h
  | .array _, _, _, h => nomatch h
theorem holdsRead_argumentsIn (wanted : Text) :
    ∀ (members : List Member) {found : Option (List Argument)},
    (∀ m ∈ members, m.value.IsRead) → argumentsIn wanted members = .ok found →
      ∀ a ∈ found.getD [], HoldsRead a.value
  | [], _, _, h => by
    cases h
    simp
  | ⟨key, value⟩ :: members, found, hv, h => by
    rw [List.forall_mem_cons] at hv
    rw [argumentsIn] at h
    split at h
    · exact holdsRead_arguments value hv.1 h
    · exact holdsRead_argumentsIn wanted members hv.2 h
theorem holdsRead_arguments : ∀ (value : Json) {found : Option (List Argument)},
    value.IsRead → arguments value = .ok found → ∀ a ∈ found.getD [], HoldsRead a.value
  | .null, _, _, h => by
    cases h
    simp
  | .object members, found, hv, h => by
    obtain ⟨entries, hentries, he⟩ := bind_eq_ok.mp h
    cases he
    exact holdsRead_namedArguments members (isRead_object.mp hv).2 hentries
  | .array items, found, hv, h => by
    obtain ⟨entries, hentries, he⟩ := bind_eq_ok.mp h
    cases he
    exact holdsRead_argumentEntries items (isRead_array.mp hv) hentries
  | .string text, found, _, h => by
    obtain ⟨entries, hentries, he⟩ := bind_eq_ok.mp h
    cases he
    cases text with
    | nil =>
      cases hentries
      simp
    | cons c cs => cases hentries
  | .bool _, _, _, h | .int _, _, _, h | .float _, _, _, h => nomatch h
theorem holdsRead_namedArguments : ∀ (members : List Member) {found : List Argument},
    (∀ m ∈ members, m.value.IsRead) → namedArguments members = .ok found →
      ∀ a ∈ found, HoldsRead a.value
  | [], _, _, h => by
    cases h
    simp
  | ⟨key, value⟩ :: members, found, hv, h => by
    rw [namedArguments] at h
    obtain ⟨first, hfirst, h⟩ := bind_eq_ok.mp h
    obtain ⟨rest, hrest, he⟩ := bind_eq_ok.mp h
    cases he
    rw [List.forall_mem_cons] at hv ⊢
    exact ⟨holdsRead_literal value hv.1 hfirst, holdsRead_namedArguments members hv.2 hrest⟩
theorem holdsRead_argumentEntries : ∀ (items : List Json) {found : List Argument},
    (∀ item ∈ items, item.IsRead) → argumentEntries items = .ok found →
      ∀ a ∈ found, HoldsRead a.value
  | [], _, _, h => by
    cases h
    simp
  | item :: items, found, hv, h => by
    rw [argumentEntries] at h
    obtain ⟨first, hfirst, h⟩ := bind_eq_ok.mp h
    obtain ⟨rest, hrest, he⟩ := bind_eq_ok.mp h
    cases he
    rw [List.forall_mem_cons] at hv ⊢
    exact ⟨holdsRead_argumentEntry item hv.1 hfirst,
      holdsRead_argumentEntries items hv.2 hrest⟩
theorem holdsRead_argumentEntry : ∀ (item : Json) {found : Argument}, item.IsRead →
    argumentEntry item = .ok found → HoldsRead found.value
  | .object members, found, hv, h => by
    have hmembers := (isRead_object.mp hv).2
    rw [argumentEntry] at h
    split at h
    · obtain ⟨value, hvalue, he⟩ := bind_eq_ok.mp h
      cases he
      exact holdsRead_literalIn members hmembers hvalue
    · cases h
  | .null, _, _, h | .bool _, _, _, h | .int _, _, _, h | .float _, _, _, h
  | .string _, _, _, h | .array _, _, _, h => nomatch h
end

end Dump

-- ---------------------------------------------------------------------------
-- Comparison
-- ---------------------------------------------------------------------------

namespace Literal

/-- A literal that a value of a dump stands for. No label that it is compared by is no
number, and the names of all arguments can be looked up. -/
structure IsComparable (literal : Literal) : Prop where
  isRead : ∃ value : Json, value.IsRead ∧ Dump.literal value = .ok literal
  labels : literal.Holds (· ≠ .float .nan) (Label.isScalar ·)

theorem IsComparable.isRegular {literal : Literal} (h : literal.IsComparable) :
    literal.IsRegular := by
  obtain ⟨value, hv, hl⟩ := h.isRead
  simpa only [true_and] using (Dump.holdsRead_literal value hv hl).and h.labels

/-- Of comparable literals it can be told whether they are equal, which is an
equivalence, and a look at whether they are one and the same does not change it. -/
theorem equal?_equivalence :
    (∀ left right : {literal : Literal // literal.IsComparable},
        (left.1.equal? right.1).isSome) ∧
      Equivalence (fun left right : {literal : Literal // literal.IsComparable} =>
        left.1.equal? right.1 = some true) ∧
      ∀ literal : {literal : Literal // literal.IsComparable},
        literal.1.equalTo? .itself = literal.1.equalTo? (.literal literal.1) := by
  refine ⟨fun left right => ?_, ⟨?_, ?_, ?_⟩, fun literal => ?_⟩
  · exact isSome_equal?_of_holds left.2.labels right.2.labels
  · exact fun literal => equal?_refl literal.2.isRegular
  · exact fun {left right} h => equal?_symm left.2.isRegular right.2.isRegular h
  · exact fun {left _ _} h h' => equal?_trans left.2.isRegular h h'
  · exact (equal?_refl literal.2.isRegular).symm

/-- A list in a dump: a value beside its source, and an annotation with two arguments
without a name. -/
def tagsDump (value : Json) : Json :=
  .array [.object [⟨"source", .string "x"⟩, ⟨"value", value⟩], .object [⟨"annotation",
    .object [⟨"type", .string "A"⟩, ⟨"arguments", .array
      [.object [⟨"value", .bool true⟩], .object [⟨"value", .int 2⟩]]⟩]⟩]]

def tags (value : Json) : Literal :=
  .list [.other value (.string "x"), .nested (.make (.string "A") .null
    [⟨.null, .other (.bool true) .null⟩, ⟨.null, .other (.int 2) .null⟩] none)]

theorem tags_isComparable {value : Json} (h : value.IsRead) (hn : value ≠ .float .nan) :
    (tags value).IsComparable where
  isRead := by
    refine ⟨tagsDump value, ?_, rfl⟩
    simp +decide [tagsDump, h]
  labels := by
    refine .list (List.forall_mem_cons.mpr ⟨.other hn nofun, List.forall_mem_singleton.mpr ?_⟩)
    have harguments (value : Json) (hv : value ≠ .float .nan) :
        (other value .null).Holds (· ≠ .float .nan) (Label.isScalar ·) := .other hv nofun
    exact .nested nofun (by simp [Label.isScalar, Annotation.make])
      (by simp [harguments, Annotation.make])

/-- One object as it was written, and again with its members the other way round and
its numbers in other forms. -/
def plainPayload : Json :=
  .object [⟨"a", .int 1⟩, ⟨"b", .array [.bool true]⟩]

def loosePayload : Json :=
  .object [⟨"b", .array [.float (.finite false 1 0)]⟩, ⟨"a", .bool true⟩]

theorem tags_compared :
    ∃ left right : {literal : Literal // literal.IsComparable},
      left.1 = tags plainPayload ∧ right.1 = tags loosePayload ∧
        left.1.equal? right.1 = some true ∧ right.1.equal? left.1 = some true := by
  have h : plainPayload.IsRead ∧ loosePayload.IsRead := by simp +decide [plainPayload, loosePayload]
  have heq : (tags plainPayload).equal? (tags loosePayload) = some true := by decide +kernel
  exact ⟨⟨_, tags_isComparable h.1 nofun⟩, ⟨_, tags_isComparable h.2 nofun⟩, rfl, rfl, heq,
    equal?_equivalence.2.1.symm heq⟩

/-- An annotation in a dump whose argument has a list for a name. -/
def listNamedDump : Json :=
  .object [⟨"annotation", .object [⟨"type", .string "A"⟩, ⟨"arguments", .array
    [.object [⟨"name", .array []⟩, ⟨"value", .int 0⟩]]⟩]⟩]

def listNamed : Literal :=
  .nested (.make (.string "A") .null [⟨.array [], .other (.int 0) .null⟩] none)

/-- Without names that can be looked up not even a copy is told to be equal. -/
theorem listNamed_not_told :
    Dump.literal listNamedDump = .ok listNamed ∧ listNamedDump.IsRead ∧
      listNamed.Holds (· ≠ .float .nan) (· ≠ .float .nan) ∧
      listNamed.equalTo? .itself = some true ∧ listNamed.equal? listNamed = none := by
  refine ⟨rfl, by simp +decide [listNamedDump], ?_, rfl, by decide⟩
  exact .nested nofun (List.forall_mem_singleton.mpr nofun)
    (List.forall_mem_singleton.mpr (.other nofun nofun))

end Literal

end PreviewShots
