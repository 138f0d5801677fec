import PreviewShots.Json.Indented
import PreviewShots.Proofs.Json.Reader
import PreviewShots.Proofs.Json.Strings

/-!
# Indented texts read back

An indented text is ASCII. Read from the left it gives back the value it was written from with
its strings joined, and leaves what follows it, if there are no numbers in the value and its
objects hold each key once (`parse_indented`). Joined strings are those that can be read at all
(`isJoined_iff`).
-/

namespace PreviewShots.Json

open Text

-- ---------------------------------------------------------------------------
-- Values
-- ---------------------------------------------------------------------------

theorem skipSpace_cons {c : Char} (h : isSpace c = false) (rest : List Char) :
    skipSpace (c :: rest) = c :: rest := by
  simp [skipSpace, h]

theorem skipSpace_newLine (depth : Nat) (rest : List Char) :
    skipSpace (characters (newLine depth) ++ rest) = skipSpace rest := by
  have hblanks (n : Nat) :
      skipSpace (characters (List.replicate n (.char ' ')) ++ rest) = skipSpace rest := by
    induction n with
    | zero => rfl
    | succ n ih => exact ih
  exact hblanks (2 * depth)

mutual
/-- The value as it is read back, with its strings joined. -/
def rejoined : Json → Json
  | .string text => .string (joined text)
  | .array items => .array (rejoinedItems items)
  | .object members => .object (rejoinedMembers members)
  | found => found
def rejoinedItems : List Json → List Json
  | [] => []
  | item :: items => item.rejoined :: rejoinedItems items
def rejoinedMembers : List Member → List Member
  | [] => []
  | ⟨key, value⟩ :: members => ⟨joined key, value.rejoined⟩ :: rejoinedMembers members
end

theorem rejoinedItems_eq (items : List Json) : rejoinedItems items = items.map rejoined := by
  induction items with
  | nil => rfl
  | cons item items ih => exact congrArg (item.rejoined :: ·) ih

def rejoinedMember (member : Member) : Member :=
  ⟨joined member.key, member.value.rejoined⟩

theorem rejoinedMembers_eq (members : List Member) :
    rejoinedMembers members = members.map rejoinedMember := by
  induction members with
  | nil => rfl
  | cons member members ih =>
    cases member
    exact congrArg (List.cons _) ih

/-- The text of the value is read as the value, whatever follows it; it does not start like the
end of an array. -/
structure ReadsBack (limit : Option Nat) (found : Json) : Prop where
  head : ∀ depth, ∃ c cs, characters (found.indented depth) = c :: cs ∧
    isSpace c = false ∧ c ≠ ']'
  value_eq : ∀ depth fuel rest, (characters (found.indented depth)).length ≤ fuel →
    value limit fuel (characters (found.indented depth) ++ rest) = .ok (found.rejoined, rest)

section

variable {limit : Option Nat}

theorem ReadsBack.skipSpace_eq {found : Json} (h : ReadsBack limit found) (depth : Nat)
    (rest : List Char) : skipSpace (characters (found.indented depth) ++ rest) =
      characters (found.indented depth) ++ rest := by
  obtain ⟨c, cs, hcs, hspace, -⟩ := h.head depth
  rw [hcs]
  exact skipSpace_cons hspace _

/-- Items are read up to the closing bracket. -/
theorem items_indented {items : List Json} {item : Json} {depth outer fuel : Nat}
    (h : ∀ found ∈ item :: items, ReadsBack limit found)
    (hfuel : (characters (item.indented depth ++ indentedItems depth items)).length < fuel)
    (rest : List Char) :
    Json.items limit fuel (characters (item.indented depth ++ indentedItems depth items) ++
      (characters (newLine outer) ++ ']' :: rest)) = .ok ((item :: items).map rejoined, rest) := by
  induction items generalizing item fuel with
  | nil =>
    cases fuel with
    | zero => cases hfuel
    | succ fuel =>
      have hitem := h item List.mem_cons_self
      simp only [indentedItems, List.append_nil] at hfuel ⊢
      rw [Json.items, hitem.value_eq depth fuel _ (by omega)]
      simp only [bind, Except.bind, skipSpace_newLine, skipSpace_cons (c := ']') rfl]
      rfl
  | cons next items ih =>
    cases fuel with
    | zero => cases hfuel
    | succ fuel =>
      have hitem := h item List.mem_cons_self
      have hnext := h next (List.mem_cons_of_mem _ List.mem_cons_self)
      have hlater := @ih next fuel fun found hf => h found (List.mem_cons_of_mem _ hf)
      simp only [indentedItems, characters_append, List.append_assoc, List.length_append] at *
      rw [Json.items, hitem.value_eq depth fuel _ (by omega)]
      have hcomma : characters (ofString ",") = [','] := rfl
      simp only [bind, Except.bind, hcomma, List.cons_append, List.nil_append,
        skipSpace_cons (c := ',') rfl, skipSpace_newLine, hnext.skipSpace_eq]
      rw [hlater (by simp only [hcomma, List.length_singleton] at hfuel; omega)]
      rfl

theorem setMember_of_not_mem {key : Text} {members : List Member}
    (h : key ∉ members.map (·.key)) (found : Json) :
    setMember key found members = members ++ [⟨key, found⟩] := by
  induction members with
  | nil => rfl
  | cons first rest ih =>
    simp only [List.map_cons, List.mem_cons, not_or] at h
    simp [setMember, Ne.symm h.1, ih h.2]

theorem characters_quote (text : Text) : characters (quote true text) =
    '"' :: (characters (text.flatMap (escapeCode true)) ++ ['"']) := by
  simp [quote]

/-- A key and its value as they are written. -/
def indentedMember (depth : Nat) (member : Member) : Text :=
  quote true member.key ++ ": " ++ member.value.indented depth

theorem characters_indentedMember (depth : Nat) (member : Member) :
    ∃ cs, characters (indentedMember depth member) = '"' :: cs := by
  simp [indentedMember, characters_quote]

theorem indentedMembers_cons (depth : Nat) (member : Member) (members : List Member) :
    indentedMembers depth (member :: members) = "," ++ newLine depth ++
      indentedMember depth member ++ indentedMembers depth members := by
  cases member
  simp [indentedMembers, indentedMember]

theorem members_member {before : List Member} {member : Member} {depth fuel : Nat}
    (h : ReadsBack limit member.value) (hfree : joined member.key ∉ before.map (·.key))
    (hfuel : (characters (indentedMember depth member)).length ≤ fuel) (tail : List Char) :
    Json.members limit (fuel + 1) before (characters (indentedMember depth member) ++ tail) =
      match skipSpace tail with
      | '\x7d' :: rest => .ok (before ++ [rejoinedMember member], rest)
      | ',' :: rest => Json.members limit fuel (before ++ [rejoinedMember member]) (skipSpace rest)
      | _ => .error .malformed := by
  have hcolon : characters (ofString ": ") = [':', ' '] := rfl
  have hblank (rest : List Char) : skipSpace (' ' :: rest) = skipSpace rest := rfl
  simp only [indentedMember, characters_append, characters_quote, hcolon, List.cons_append,
    List.append_assoc, List.nil_append, List.length_cons, List.length_append] at hfuel ⊢
  rw [Json.members, string?_escaped]
  simp only [skipSpace_cons (c := ':') rfl, hblank, h.skipSpace_eq]
  rw [h.value_eq depth fuel _ (by omega)]
  simp only [bind, Except.bind, setMember_of_not_mem hfree]
  rfl

theorem indented_object (depth : Nat) (member : Member) (members : List Member) :
    indented depth (.object (member :: members)) = "\x7b" ++ newLine (depth + 1) ++
      indentedMember (depth + 1) member ++ indentedMembers (depth + 1) members ++
        newLine depth ++ "\x7d" := by
  cases member
  simp [indented, indentedMember]

theorem key_not_mem_before {members before : List Member} {member : Member}
    (h : ((before ++ (member :: members).map rejoinedMember).map (·.key)).Nodup) :
    joined member.key ∉ before.map (·.key) := by
  simp only [List.map_append, List.nodup_append, List.map_cons] at h
  exact fun hm => h.2.2 _ hm _ List.mem_cons_self rfl

/-- Members are read up to the closing brace, behind those that were read before. -/
theorem members_indented {members before : List Member} {member : Member}
    {depth outer fuel : Nat} (h : ∀ other ∈ member :: members, ReadsBack limit other.value)
    (hnodup : ((before ++ (member :: members).map rejoinedMember).map (·.key)).Nodup)
    (hfuel : (characters (indentedMember depth member ++ indentedMembers depth members)).length <
      fuel)
    (rest : List Char) :
    Json.members limit fuel before (characters (indentedMember depth member ++
      indentedMembers depth members) ++ (characters (newLine outer) ++ '\x7d' :: rest)) =
        .ok (before ++ (member :: members).map rejoinedMember, rest) := by
  induction members generalizing before member fuel with
  | nil =>
    cases fuel with
    | zero => cases hfuel
    | succ fuel =>
      simp only [indentedMembers, List.append_nil] at hfuel ⊢
      rw [members_member (h member List.mem_cons_self)
        (key_not_mem_before hnodup) (by omega), skipSpace_newLine, skipSpace_cons rfl]
      rfl
  | cons next members ih =>
    cases fuel with
    | zero => cases hfuel
    | succ fuel =>
      have hlater := @ih (before ++ [rejoinedMember member]) next fuel
        (fun other ho => h other (List.mem_cons_of_mem _ ho)) (by simpa using hnodup)
      have hcomma : characters (ofString ",") = [','] := rfl
      obtain ⟨cs, hquote⟩ := characters_indentedMember depth next
      simp only [indentedMembers_cons, characters_append, List.append_assoc, hcomma,
        List.length_append, List.length_cons, List.cons_append, List.nil_append] at hfuel hlater ⊢
      rw [members_member (h member List.mem_cons_self)
        (key_not_mem_before hnodup) (by omega), skipSpace_cons rfl]
      simp only [skipSpace_newLine, hquote, List.length_cons, List.cons_append,
        skipSpace_cons (c := '"') rfl] at hfuel hlater ⊢
      exact hlater (by omega)

/-- No numbers are in the value, and no two keys of an object in it are read back alike. -/
inductive IsLegible : Json → Prop
  | null : IsLegible .null
  | bool (value : Bool) : IsLegible (.bool value)
  | string (text : Text) : IsLegible (.string text)
  | array {items : List Json} : (∀ item ∈ items, IsLegible item) → IsLegible (.array items)
  | object {members : List Member} : (members.map fun member => joined member.key).Nodup →
      (∀ member ∈ members, IsLegible member.value) → IsLegible (.object members)

theorem readsBack_literal {found : Json} (c : Char) (cs : List Char)
    (htext : ∀ depth, characters (found.indented depth) = c :: cs)
    (hsame : found.rejoined = found)
    (hread : ∀ rest, literal? (c :: (cs ++ rest)) = some (found, rest))
    (hc : isSpace c = false ∧ c ≠ ']' ∧ c ≠ '"' ∧ c ≠ '[' ∧ c ≠ '\x7b') :
    ReadsBack limit found where
  head depth := ⟨c, cs, htext depth, hc.1, hc.2.1⟩
  value_eq := by
    intro depth fuel rest hfuel
    rw [htext] at hfuel ⊢
    cases fuel with
    | zero => cases hfuel
    | succ fuel => simp [Json.value, hc, hread, hsame]

theorem readsBack_string (text : Text) : ReadsBack limit (.string text) where
  head _ := ⟨'"', _, characters_quote text, rfl, by decide⟩
  value_eq := by
    intro depth fuel rest hfuel
    rw [indented, characters_quote] at hfuel ⊢
    cases fuel with
    | zero => cases hfuel
    | succ fuel => simp [Json.value, string?_escaped, rejoined]

theorem value_array {text behind : List Char} {c : Char} (h : skipSpace text = c :: behind)
    (hc : c ≠ ']') (fuel : Nat) : Json.value limit (fuel + 1) ('[' :: text) =
      (items limit fuel (c :: behind)).map fun (found, rest) => (.array found, rest) := by
  simp only [Json.value, h]
  split
  · next hopen => cases hopen
  split
  · split
    · next hclose => exact absurd (List.cons.inj hclose).1 hc
    · rfl
  · next hopen => exact absurd trivial hopen

theorem characters_array (depth : Nat) (item : Json) (items : List Json) :
    characters (indented depth (.array (item :: items))) = '[' ::
      (characters (newLine (depth + 1)) ++
        (characters (item.indented (depth + 1) ++ indentedItems (depth + 1) items) ++
          (characters (newLine depth) ++ [']']))) := by
  simp [indented]

theorem readsBack_array {items : List Json} (h : ∀ item ∈ items, ReadsBack limit item) :
    ReadsBack limit (.array items) where
  head depth := by
    cases items with
    | nil => exact ⟨'[', _, rfl, rfl, by decide⟩
    | cons item items => exact ⟨'[', _, characters_array depth item items, rfl, by decide⟩
  value_eq := by
    intro depth fuel rest hfuel
    cases items with
    | nil =>
      cases fuel with
      | zero => cases hfuel
      | succ fuel =>
        simp [indented, Json.value, skipSpace_cons (c := ']') rfl, rejoined, rejoinedItems]
    | cons item items =>
      rw [characters_array] at hfuel ⊢
      cases fuel with
      | zero => cases hfuel
      | succ fuel =>
        have hitems := @items_indented limit items item (depth + 1) depth fuel h
        obtain ⟨c, cs, hcs, hspace, hc⟩ := (h item List.mem_cons_self).head (depth + 1)
        simp only [characters_append, hcs, List.length_cons, List.length_append, List.append_assoc,
          List.cons_append, List.nil_append, List.length_nil] at hfuel hitems ⊢
        have hopen := skipSpace_newLine (depth + 1)
        rw [value_array ((hopen _).trans (skipSpace_cons hspace _)) hc, hitems (by omega),
          rejoined, rejoinedItems_eq]
        rfl

theorem value_object {text behind : List Char} {c : Char} (h : skipSpace text = c :: behind)
    (hc : c ≠ '\x7d') (fuel : Nat) : Json.value limit (fuel + 1) ('\x7b' :: text) =
      (members limit fuel [] (c :: behind)).map fun (found, rest) => (.object found, rest) := by
  simp only [Json.value, h]
  split
  · next hopen => cases hopen
  split
  · next hopen => cases hopen
  split
  · split
    · next hclose => exact absurd (List.cons.inj hclose).1 hc
    · rfl
  · next hopen => exact absurd trivial hopen

theorem characters_object (depth : Nat) (member : Member) (members : List Member) :
    characters (indented depth (.object (member :: members))) = '\x7b' ::
      (characters (newLine (depth + 1)) ++
        (characters (indentedMember (depth + 1) member ++ indentedMembers (depth + 1) members) ++
          (characters (newLine depth) ++ ['\x7d']))) := by
  simp [indented_object]

theorem readsBack_object {members : List Member}
    (hnodup : (members.map fun member => joined member.key).Nodup)
    (h : ∀ member ∈ members, ReadsBack limit member.value) :
    ReadsBack limit (.object members) where
  head depth := by
    cases members with
    | nil => exact ⟨'\x7b', _, rfl, rfl, by decide⟩
    | cons member members =>
      exact ⟨'\x7b', _, characters_object depth member members, rfl, by decide⟩
  value_eq := by
    intro depth fuel rest hfuel
    cases members with
    | nil =>
      cases fuel with
      | zero => cases hfuel
      | succ fuel =>
        simp [indented, Json.value, skipSpace_cons (c := '\x7d') rfl, rejoined, rejoinedMembers]
    | cons member members =>
      rw [characters_object] at hfuel ⊢
      cases fuel with
      | zero => cases hfuel
      | succ fuel =>
        have hkeys : (([] ++ (member :: members).map rejoinedMember).map Member.key).Nodup := by
          rwa [List.nil_append, List.map_map]
        have hmembers := @members_indented limit members [] member (depth + 1) depth fuel h hkeys
        obtain ⟨cs, hquote⟩ := characters_indentedMember (depth + 1) member
        simp only [characters_append, hquote, List.length_cons, List.length_append,
          List.append_assoc, List.cons_append, List.nil_append, List.length_nil] at hfuel hmembers ⊢
        have hopen := skipSpace_newLine (depth + 1)
        rw [value_object ((hopen _).trans (skipSpace_cons rfl _)) (by decide),
          hmembers (by omega), rejoined, rejoinedMembers_eq]
        rfl

theorem IsLegible.readsBack {found : Json} (h : found.IsLegible) : ReadsBack limit found := by
  induction h with
  | null => exact readsBack_literal 'n' ['u', 'l', 'l'] (fun _ => rfl) rfl (fun _ => rfl) (by decide)
  | bool value =>
    cases value with
    | true =>
      exact readsBack_literal 't' ['r', 'u', 'e'] (fun _ => rfl) rfl (fun _ => rfl) (by decide)
    | false =>
      exact readsBack_literal 'f' ['a', 'l', 's', 'e'] (fun _ => rfl) rfl (fun _ => rfl) (by decide)
  | string text => exact readsBack_string text
  | array _ ih => exact readsBack_array ih
  | object hnodup _ ih => exact readsBack_object hnodup ih

end

-- ---------------------------------------------------------------------------
-- Whole texts
-- ---------------------------------------------------------------------------

theorem isAscii_hexDigits (width n : Nat) : (hexDigits width n).IsAscii := by
  have hdigit : ∀ d < 16, IsAscii [.char (hexDigit d)] := by decide
  induction width generalizing n with
  | zero => exact nofun
  | succ width ih => exact isAscii_append.mpr ⟨ih _, hdigit _ (Nat.mod_lt _ (by decide))⟩

theorem isAscii_unitEscape (n : Nat) : (unitEscape n).IsAscii :=
  isAscii_append.mpr ⟨by decide, isAscii_hexDigits 4 n⟩

theorem isAscii_escapeCode (c : CodePoint) : (escapeCode true c).IsAscii := by
  unfold escapeCode
  split
  · next escape hescape =>
    unfold shortEscape? at hescape
    repeat' split at hescape
    case isFalse => cases hescape
    all_goals
      cases hescape
      decide
  split
  · intro d hd
    obtain ⟨n, -, hm⟩ := List.mem_flatMap.mp hd
    exact isAscii_unitEscape n d hm
  · next hplain =>
    intro d hd
    obtain rfl := List.mem_singleton.mp hd
    simpa using Or.inr hplain

theorem isAscii_quote (text : Text) : (quote true text).IsAscii := by
  refine isAscii_append.mpr ⟨isAscii_append.mpr ⟨by decide, fun d hd => ?_⟩, by decide⟩
  obtain ⟨c, -, hm⟩ := List.mem_flatMap.mp hd
  exact isAscii_escapeCode c d hm

theorem isAscii_newLine (depth : Nat) : (newLine depth).IsAscii := by
  rintro c (_ | ⟨_, hc⟩)
  · exact .inl rfl
  · exact .inr (List.eq_of_mem_replicate hc ▸ by decide)

theorem isAscii_indentedItems {items : List Json} {depth : Nat}
    (h : ∀ item ∈ items, (item.indented depth).IsAscii) : (indentedItems depth items).IsAscii := by
  induction items with
  | nil => exact nofun
  | cons item items ih =>
    obtain ⟨hitem, hitems⟩ := List.forall_mem_cons.mp h
    have hcomma : IsAscii "," := by decide
    simp [indentedItems, isAscii_newLine, hcomma, hitem, ih hitems]

theorem isAscii_indentedMember {member : Member} {depth : Nat}
    (h : (member.value.indented depth).IsAscii) : (indentedMember depth member).IsAscii :=
  isAscii_append.mpr ⟨isAscii_append.mpr ⟨isAscii_quote _, by decide⟩, h⟩

theorem isAscii_indentedMembers {members : List Member} {depth : Nat}
    (h : ∀ member ∈ members, (member.value.indented depth).IsAscii) :
    (indentedMembers depth members).IsAscii := by
  induction members with
  | nil => exact nofun
  | cons member members ih =>
    obtain ⟨hmember, hmembers⟩ := List.forall_mem_cons.mp h
    have hcomma : IsAscii "," := by decide
    simp [indentedMembers_cons, isAscii_newLine, hcomma, isAscii_indentedMember hmember,
      ih hmembers]

theorem IsLegible.isAscii {found : Json} (h : found.IsLegible) (depth : Nat) :
    (found.indented depth).IsAscii := by
  induction h generalizing depth with
  | null => exact (by decide : IsAscii "null")
  | bool value =>
    cases value with
    | true => exact (by decide : IsAscii "true")
    | false => exact (by decide : IsAscii "false")
  | string => exact isAscii_quote _
  | @array items _ ih =>
    cases items with
    | nil => exact (by decide : IsAscii "[]")
    | cons item items =>
      obtain ⟨hitem, hitems⟩ := List.forall_mem_cons.mp ih
      have hopen : IsAscii "[" ∧ IsAscii "]" := by decide
      simp [indented, isAscii_newLine, hopen, hitem,
        isAscii_indentedItems fun other ho => hitems other ho (depth + 1)]
  | @object members _ _ ih =>
    cases members with
    | nil => exact (by decide : IsAscii "\x7b\x7d")
    | cons member members =>
      obtain ⟨hmember, hmembers⟩ := List.forall_mem_cons.mp ih
      have hopen : IsAscii "\x7b" ∧ IsAscii "\x7d" := by decide
      simp [indented_object, isAscii_newLine, hopen, isAscii_indentedMember (hmember _),
        isAscii_indentedMembers fun other ho => hmembers other ho (depth + 1)]

/-- The indented text of a legible value is read as the value with its strings joined, whatever
the limit of the integers. -/
theorem parse_indented {found : Json} (h : found.IsLegible) (limit : Option Nat) :
    parse limit (characters (found.indented 0)) = .ok found.rejoined := by
  have hread : ReadsBack limit found := h.readsBack
  have hskip := hread.skipSpace_eq 0 []
  have hvalue := hread.value_eq 0 (2 * (characters (found.indented 0)).length + 2) [] (by omega)
  simp only [List.append_nil] at hskip hvalue
  simp only [parse, hskip, hvalue]
  rfl

-- ---------------------------------------------------------------------------
-- Strings that were read
-- ---------------------------------------------------------------------------

theorem isJoined_of_value {limit : Option Nat} {fuel : Nat} {chars rest : List Char} {text : Text}
    (h : value limit fuel chars = .ok (.string text, rest)) : IsJoined text := by
  cases fuel with
  | zero => cases h
  | succ fuel =>
    cases chars with
    | nil => cases h
    | cons c cs =>
      unfold value at h
      repeat' split at h
      · next hstring =>
        cases h
        obtain ⟨⟨found, behind⟩, -, he⟩ := Option.map_eq_some_iff.mp hstring
        cases he
        exact isJoined_ofUnits found
      · cases h
      · cases h
      · obtain ⟨_, -, he⟩ := map_eq_ok.mp h
        cases he
      · cases h
      · obtain ⟨_, -, he⟩ := map_eq_ok.mp h
        cases he
      · next hliteral =>
        cases h
        unfold literal? at hliteral
        split at hliteral <;> cases hliteral
      · unfold number at h
        repeat' split at h
        · cases h
        · cases h
        · obtain ⟨_, hinteger, he⟩ := map_eq_ok.mp h
          cases he
          unfold integer at hinteger
          split at hinteger <;> cases hinteger
        · cases h

/-- The joined texts are the strings that a JSON text can be read as. -/
theorem isJoined_iff {text : Text} :
    IsJoined text ↔ ∃ limit chars, parse limit chars = .ok (.string text) := by
  constructor
  · intro h
    have hparse := parse_indented (.string text) none
    rw [rejoined, joined_eq_self_iff.mpr h] at hparse
    exact ⟨none, _, hparse⟩
  · rintro ⟨limit, chars, h⟩
    obtain ⟨⟨found, rest⟩, hvalue, h⟩ := bind_eq_ok.mp h
    dsimp only at h
    split at h
    · cases h
      exact isJoined_of_value hvalue
    · cases h

end PreviewShots.Json
