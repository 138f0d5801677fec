import Mathlib.Data.List.Chain
import PreviewShots.Json.Reader
import PreviewShots.Text.Utf8

/-!
# Escaped strings read back

A string is written in ASCII, a character outside the basic plane as two units. What is written
scans back to the units of the string, and these are joined (`string?_escaped`). They are the
string again unless two of its code points in a row are units that make up one character
(`joined_eq_self_iff`). No string that was read has such units (`isJoined_ofUnits`).
-/

namespace PreviewShots

namespace CodePoint

/-- No character is a unit. -/
theorem toNat_char (c : Char) : c.toNat < 0xd800 ∨ 0xdfff < c.toNat ∧ c.toNat < 0x110000 :=
  c.valid

theorem toNat_lt (c : CodePoint) : c.toNat < 0x110000 := by
  cases c with
  | char c =>
    have hchar := toNat_char c
    simp only [toNat]
    omega
  | unit offset =>
    simp only [toNat]
    omega

theorem ofNat_toNat (c : CodePoint) : ofNat c.toNat = c := by
  cases c with
  | char c =>
    have hchar := toNat_char c
    have hunit : ¬ (0xd800 ≤ c.toNat ∧ c.toNat < 0xe000) := by omega
    simp [ofNat, toNat, hunit]
  | unit offset =>
    have hunit : 0xd800 ≤ 0xd800 + offset.val ∧ 0xd800 + offset.val < 0xe000 := by omega
    simp [ofNat, toNat, hunit]

/-- What comes out as a unit has the number it was made of. -/
theorem toNat_ofNat_of_unit {n : Nat} (h : 0xd800 ≤ (ofNat n).toNat) : (ofNat n).toNat = n := by
  rcases toNat_ofNat_eq_or n with hn | hn
  · exact hn
  · omega

end CodePoint

-- ---------------------------------------------------------------------------
-- Characters of a text
-- ---------------------------------------------------------------------------

namespace Text

/-- The characters of a text; lone units are left out. -/
def characters (text : Text) : List Char :=
  text.filterMap CodePoint.char?

variable {text : Text}

@[simp] theorem characters_nil : characters [] = [] := rfl

@[simp] theorem characters_char (c : Char) (text : Text) :
    characters (.char c :: text) = c :: characters text := rfl

@[simp] theorem characters_append (left right : Text) :
    characters (left ++ right) = characters left ++ characters right :=
  List.filterMap_append

@[simp] theorem characters_ofChars (chars : List Char) : characters (ofChars chars) = chars := by
  induction chars with
  | nil => rfl
  | cons c cs ih => exact congrArg (c :: ·) ih

@[simp] theorem characters_ofString (text : String) : characters (ofString text) = text.toList :=
  characters_ofChars text.toList

theorem ofChars_characters (h : text.isEncodable = true) : ofChars (characters text) = text := by
  obtain ⟨chars, hchars⟩ := exists_chars?_of_isEncodable h
  obtain rfl := chars?_eq_some.mp hchars
  rw [characters_ofChars]

/-- Nothing but printable ASCII characters and line feeds. -/
def IsAscii (text : Text) : Prop :=
  ∀ c ∈ text, c = '\n' ∨ 0x20 ≤ c.toNat ∧ c.toNat < 0x7f

instance (text : Text) : Decidable text.IsAscii :=
  inferInstanceAs (Decidable (∀ c ∈ text, c = '\n' ∨ 0x20 ≤ c.toNat ∧ c.toNat < 0x7f))

@[simp] theorem isAscii_append {left right : Text} :
    IsAscii (left ++ right) ↔ left.IsAscii ∧ right.IsAscii :=
  List.forall_mem_append

theorem IsAscii.isEncodable (h : text.IsAscii) : text.isEncodable = true := by
  refine List.all_eq_true.mpr fun c hc => ?_
  cases c with
  | char c => rfl
  | unit offset =>
    rcases h _ hc with he | ⟨-, hlt⟩
    · cases he
    · simp only [CodePoint.toNat] at hlt
      omega

theorem IsAscii.return_not_mem (h : text.IsAscii) : CodePoint.char '\r' ∉ text :=
  fun hm => absurd (h _ hm) (by decide)

end Text

namespace Json

open Text

-- ---------------------------------------------------------------------------
-- Escapes
-- ---------------------------------------------------------------------------

theorem hexValue?_hexDigit : ∀ d < 16, hexValue? (hexDigit d) = some d := by
  decide

theorem characters_unitEscape (n : Nat) : characters (unitEscape n) =
    ['\\', 'u', hexDigit (n / 16 / 16 / 16 % 16), hexDigit (n / 16 / 16 % 16),
      hexDigit (n / 16 % 16), hexDigit (n % 16)] := by
  simp [unitEscape, hexDigits]

/-- What a string goes on with, behind some units that were scanned. -/
def scannedAfter (units : List Nat) (rest : Option (List Nat × List Char)) :
    Option (List Nat × List Char) :=
  rest.map fun (later, behind) => (units ++ later, behind)

theorem scanString_unitEscape {n : Nat} (h : n < 0x10000) (rest : List Char) :
    scanString (characters (unitEscape n) ++ rest) = scannedAfter [n] (scanString rest) := by
  have hdigit (m : Nat) : hexValue? (hexDigit (m % 16)) = some (m % 16) :=
    hexValue?_hexDigit _ (Nat.mod_lt _ (by decide))
  have hsum : ((n / 16 / 16 / 16 % 16 * 16 + n / 16 / 16 % 16) * 16 + n / 16 % 16) * 16 +
      n % 16 = n := by
    omega
  rw [characters_unitEscape]
  cases hrest : scanString rest <;>
    simp [scanString, hexValue4?, hdigit, hsum, scannedAfter, hrest]

theorem scannedAfter_append (units more : List Nat) (rest : Option (List Nat × List Char)) :
    scannedAfter units (scannedAfter more rest) = scannedAfter (units ++ more) rest := by
  cases rest <;> simp [scannedAfter]

theorem scanString_units (c : CodePoint) (rest : List Char) :
    scanString (characters ((units c).flatMap unitEscape) ++ rest) =
      scannedAfter (units c) (scanString rest) := by
  have hbound := c.toNat_lt
  unfold units
  split
  · next hbasic => simpa using scanString_unitEscape hbasic rest
  · simp only [List.flatMap_cons, List.flatMap_nil, List.append_nil, characters_append,
      List.append_assoc]
    rw [scanString_unitEscape (by omega), scanString_unitEscape (by omega), scannedAfter_append]
    rfl

theorem scanString_short {e d : Char} (he : e ≠ 'u') (h : unescape? e = some d)
    (rest : List Char) :
    scanString ('\\' :: e :: rest) = scannedAfter [d.toNat] (scanString rest) := by
  rw [scanString.eq_def]
  cases hrest : scanString rest <;> simp [he, h, scannedAfter, hrest]

/-- A short escape stands for the code point that it was written for. -/
theorem shortEscape?_eq_some {c : CodePoint} {escape : Text} (h : shortEscape? c = some escape) :
    ∃ e d : Char, c = .char d ∧ escape = [.char '\\', .char e] ∧ e ≠ 'u' ∧ d.toNat < 0x10000 ∧
      unescape? e = some d := by
  unfold shortEscape? at h
  repeat' split at h
  case isFalse => cases h
  all_goals
    cases h
    exact ⟨_, _, ‹_›, rfl, by decide, by decide, rfl⟩

theorem scanString_plain {c : Char} (hquote : c ≠ '"') (hbackslash : c ≠ '\\')
    (h : 0x20 ≤ c.toNat) (rest : List Char) :
    scanString (c :: rest) = scannedAfter [c.toNat] (scanString rest) := by
  rw [scanString.eq_def]
  cases hrest : scanString rest <;>
    simp [hquote, hbackslash, Nat.not_lt.mpr h, scannedAfter, hrest]

theorem scanString_quote (rest : List Char) : scanString ('"' :: rest) = some ([], rest) := by
  rw [scanString.eq_def]
  rfl

theorem scanString_escapeCode (c : CodePoint) (rest : List Char) :
    scanString (characters (escapeCode true c) ++ rest) =
      scannedAfter (units c) (scanString rest) := by
  unfold escapeCode
  split
  · next escape hescape =>
    obtain ⟨e, d, rfl, rfl, he, hd, hunescape⟩ := shortEscape?_eq_some hescape
    have hunits : units (.char d) = [d.toNat] := if_pos hd
    rw [hunits]
    exact scanString_short he hunescape rest
  · next hshort =>
    split
    · exact scanString_units c rest
    · next hplain =>
      simp only [Bool.or_eq_true, decide_eq_true_eq, Bool.true_and, not_or, Nat.not_lt] at hplain
      cases c with
      | unit offset =>
        simp only [CodePoint.toNat] at hplain
        omega
      | char c =>
        have hbasic : (CodePoint.char c).toNat < 0x10000 := by omega
        have hunits : units (.char c) = [c.toNat] := if_pos hbasic
        rw [hunits]
        refine scanString_plain ?_ ?_ hplain.1 rest
        · rintro rfl
          cases hshort
        · rintro rfl
          cases hshort

theorem scanString_flatMap (text : Text) (rest : List Char) :
    scanString (characters (text.flatMap (escapeCode true)) ++ '"' :: rest) =
      some (text.flatMap units, rest) := by
  induction text with
  | nil => exact scanString_quote rest
  | cons c text ih =>
    rw [List.flatMap_cons, characters_append, List.append_assoc, scanString_escapeCode, ih]
    rfl

-- ---------------------------------------------------------------------------
-- Units
-- ---------------------------------------------------------------------------

/-- The unit opens a pair, or closes one. -/
def Opens (c : CodePoint) : Prop :=
  0xd800 ≤ c.toNat ∧ c.toNat < 0xdc00

def Closes (c : CodePoint) : Prop :=
  0xdc00 ≤ c.toNat ∧ c.toNat < 0xe000

/-- No two code points in a row are units that make up one character. -/
def IsJoined (text : Text) : Prop :=
  text.IsChain fun c d => ¬ (Opens c ∧ Closes d)

theorem isJoined_of_not_opens {text : Text} (h : ∀ c ∈ text, ¬ Opens c) : IsJoined text := by
  induction text with
  | nil => exact .nil
  | cons c text ih =>
    obtain ⟨hc, htext⟩ := List.forall_mem_cons.mp h
    exact List.isChain_cons.mpr ⟨fun _ _ hpair => hc hpair.1, ih htext⟩

/-- So is a text that can be part of the name of a file. -/
theorem isJoined_of_isNameable {text : Text} (h : text.isNameable = true) : IsJoined text := by
  refine isJoined_of_not_opens fun c hc hopens => ?_
  have hname := List.all_eq_true.mp h c hc
  obtain ⟨hlow, hhigh⟩ := hopens
  cases c with
  | char d =>
    have hchar := CodePoint.toNat_char d
    simp only [CodePoint.toNat] at hlow hhigh
    omega
  | unit offset =>
    simp only [CodePoint.toNat] at hlow hhigh
    have hlone : byte? (.unit offset) = none := by
      simp only [byte?]
      exact if_neg (by simp; omega)
    simp [CodePoint.char?, hlone] at hname

/-- The first of the units of a code point closes a pair only if the code point does. -/
theorem units_eq_cons (c : CodePoint) : ∃ n more, units c = n :: more ∧
    (0xdc00 ≤ n ∧ n < 0xe000 → Closes c) := by
  have hbound := c.toNat_lt
  unfold units
  split
  · exact ⟨_, [], rfl, id⟩
  · exact ⟨_, _, rfl, fun h => absurd h (by omega)⟩

theorem ofUnits_basic {n : Nat} {later : List Nat}
    (h : ∀ m ∈ later.head?, ¬ (0xd800 ≤ n ∧ n < 0xdc00 ∧ 0xdc00 ≤ m ∧ m < 0xe000)) :
    ofUnits (n :: later) = .ofNat n :: ofUnits later := by
  cases later with
  | nil => rfl
  | cons m later => rw [ofUnits, if_neg (h m rfl)]

/-- The units of a text give the text again. -/
theorem ofUnits_flatMap {text : Text} (h : IsJoined text) :
    ofUnits (text.flatMap units) = text := by
  induction text with
  | nil => rfl
  | cons c text ih =>
    have hlater := ih h.tail
    have hbound := c.toNat_lt
    rw [List.flatMap_cons]
    by_cases hbasic : c.toNat < 0x10000
    · have hunits : units c = [c.toNat] := if_pos hbasic
      rw [hunits, List.singleton_append, ofUnits_basic, hlater, CodePoint.ofNat_toNat]
      intro m hm hpair
      cases text with
      | nil => cases hm
      | cons d text =>
        obtain ⟨n, more, hd, hcloses⟩ := units_eq_cons d
        rw [List.flatMap_cons, hd] at hm
        cases hm
        exact (List.isChain_cons_cons.mp h).1 ⟨⟨hpair.1, hpair.2.1⟩, hcloses hpair.2.2⟩
    · have hunits : units c = [0xd800 + (c.toNat - 0x10000) / 0x400,
          0xdc00 + (c.toNat - 0x10000) % 0x400] := if_neg hbasic
      have hsum : 0x10000 + (0xd800 + (c.toNat - 0x10000) / 0x400 - 0xd800) * 0x400 +
          (0xdc00 + (c.toNat - 0x10000) % 0x400 - 0xdc00) = c.toNat := by
        omega
      rw [hunits, List.cons_append, List.singleton_append, ofUnits, if_pos (by omega), hsum, hlater,
        CodePoint.ofNat_toNat]

/-- The text as it is read back: units in a row that make up a character are that character. -/
def joined (text : Text) : Text :=
  ofUnits (text.flatMap units)

theorem string?_escaped (text : Text) (rest : List Char) :
    string? (characters (text.flatMap (escapeCode true)) ++ '"' :: rest) =
      some (joined text, rest) := by
  simp [string?, scanString_flatMap, joined]

/-- Units that are joined start with one that closes a pair only if the units do. -/
theorem closes_ofUnits {n : Nat} {later : List Nat} {c : CodePoint} {more : Text}
    (h : ofUnits (n :: later) = c :: more) (hc : Closes c) : 0xdc00 ≤ n ∧ n < 0xe000 := by
  obtain ⟨hlow, hhigh⟩ := hc
  cases later with
  | nil =>
    obtain ⟨rfl, -⟩ := List.cons.inj h
    have htoNat := CodePoint.toNat_ofNat_of_unit (n := n) (by omega)
    omega
  | cons m later =>
    rw [ofUnits] at h
    split at h
    · obtain ⟨rfl, -⟩ := List.cons.inj h
      have htoNat := CodePoint.toNat_ofNat_of_unit (Nat.le_trans (by omega) hlow)
      omega
    · obtain ⟨rfl, -⟩ := List.cons.inj h
      have htoNat := CodePoint.toNat_ofNat_of_unit (n := n) (by omega)
      omega

theorem isJoined_ofUnits (units : List Nat) : IsJoined (ofUnits units) := by
  induction units using ofUnits.induct with
  | case1 => exact .nil
  | case2 n => exact .singleton _
  | case3 n m later hpair ih =>
    rw [ofUnits, if_pos hpair]
    refine List.isChain_cons.mpr ⟨fun d _ hd => ?_, ih⟩
    have htoNat := CodePoint.toNat_ofNat_of_unit hd.1.1
    have hlow := hd.1.2
    omega
  | case4 n m later hpair ih =>
    rw [ofUnits, if_neg hpair]
    refine List.isChain_cons.mpr ⟨fun d hm hd => hpair ?_, ih⟩
    obtain ⟨more, hmore⟩ := List.head?_eq_some_iff.mp hm
    have hcloses := closes_ofUnits hmore hd.2
    have htoNat := CodePoint.toNat_ofNat_of_unit hd.1.1
    have hopens := hd.1
    unfold Opens at hopens
    omega

theorem isJoined_joined (text : Text) : IsJoined (joined text) :=
  isJoined_ofUnits _

/-- Joined texts are those that are read back as they are. -/
theorem joined_eq_self_iff {text : Text} : joined text = text ↔ IsJoined text :=
  ⟨fun h => h ▸ isJoined_joined text, ofUnits_flatMap⟩

end Json

end PreviewShots
