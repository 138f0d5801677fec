import PreviewShots.Text.Basic

/-!
# Texts as bytes

A text without lone units has a form in UTF-8. Names of files are bytes: in a name
the units from U+DC80 to U+DCFF stand for one byte each, the lower one of their
number, and other lone units for none. A name whose bytes happen to make up a
character is found under that character.
-/

namespace PreviewShots.Text

def utf8? (text : Text) : Option ByteArray :=
  text.string?.map (·.toUTF8)

def ofUtf8? (bytes : ByteArray) : Option Text :=
  (String.fromUTF8? bytes).map ofString

/-- Whether every code point has a form in UTF-8. -/
def isEncodable (text : Text) : Bool :=
  text.all (·.char?.isSome)

-- ---------------------------------------------------------------------------
-- Names of files
-- ---------------------------------------------------------------------------

/-- The byte that a lone unit stands for in the name of a file. -/
def byte? : CodePoint → Option UInt8
  | .char _ => none
  | .unit offset =>
    if 0x480 ≤ offset.val && offset.val < 0x500 then some (UInt8.ofNat (offset.val % 0x100)) else none

/-- Whether the text can be part of the name of a file. -/
def isNameable (text : Text) : Bool :=
  text.all fun c => c.char?.isSome || (byte? c).isSome

/-- The length of a name of a file in bytes. -/
def byteSize (text : Text) : Nat :=
  text.foldl (fun size c => size + match c with
    | .char c => c.utf8Size
    | .unit _ => 1) 0

/-- The bytes at the start of a name that are not part of a character, at most `limit`. -/
def leadBytes : Nat → Text → List UInt8
  | limit + 1, c :: cs => match byte? c with
    | some byte => byte :: leadBytes limit cs
    | none => []
  | _, _ => []

/-- The character that the bytes at the start of a name make up. -/
def joined? (text : Text) : Option Char :=
  (ByteArray.mk (leadBytes 4 text).toArray).utf8DecodeChar? 0

/-- The text in which bytes that make up a character are replaced by it; `skip` code
points are part of a character already. -/
def joinBytes (skip : Nat) : Text → Text
  | [] => []
  | c :: cs =>
    match skip with
    | skip + 1 => joinBytes skip cs
    | 0 => match joined? (c :: cs) with
      | some found => .char found :: joinBytes (found.utf8Size - 1) cs
      | none => c :: joinBytes 0 cs

/-- The name under which the file of that name is found. -/
def fileName (text : Text) : Text :=
  if text.isEncodable then text else joinBytes 0 text

theorem isEncodable_ofChars (chars : List Char) : isEncodable (ofChars chars) := by
  simp [isEncodable, ofChars, CodePoint.char?]

theorem chars?_eq_some {text : Text} {chars : List Char} :
    chars? text = some chars ↔ text = ofChars chars := by
  constructor
  · intro h
    induction text generalizing chars with
    | nil =>
      obtain rfl : chars = [] := by simpa [chars?, eq_comm] using h
      rfl
    | cons c cs ih =>
      cases c with
      | unit offset => simp [chars?, CodePoint.char?] at h
      | char c =>
        have hbind : (chars? cs).bind (fun rest => some (c :: rest)) = some chars := by
          simpa [chars?, CodePoint.char?] using h
        obtain ⟨rest, hrest, he⟩ := Option.bind_eq_some_iff.mp hbind
        cases he
        rw [ih hrest]
        rfl
  · rintro rfl
    exact chars?_ofChars chars

theorem exists_chars?_of_isEncodable {text : Text} (h : text.isEncodable = true) :
    ∃ chars, chars? text = some chars := by
  induction text with
  | nil => exact ⟨[], rfl⟩
  | cons c cs ih =>
    simp only [isEncodable, List.all_cons, Bool.and_eq_true] at h
    obtain ⟨d, hd⟩ := Option.isSome_iff_exists.mp h.1
    obtain ⟨chars, hchars⟩ := ih h.2
    refine ⟨d :: chars, ?_⟩
    simp only [chars?] at hchars
    simp [chars?, hd, hchars]

theorem exists_utf8?_of_isEncodable {text : Text} (h : text.isEncodable = true) :
    ∃ bytes, text.utf8? = some bytes := by
  obtain ⟨chars, hchars⟩ := exists_chars?_of_isEncodable h
  exact ⟨_, by rw [utf8?, string?, hchars]; rfl⟩

/-- Different texts have different bytes. -/
theorem utf8?_inj {left right : Text} {bytes : ByteArray} (hl : left.utf8? = some bytes)
    (hr : right.utf8? = some bytes) : left = right := by
  simp only [utf8?, string?, Option.map_map, Option.map_eq_some_iff, chars?_eq_some] at hl hr
  obtain ⟨chars, rfl, hl⟩ := hl
  obtain ⟨others, rfl, hr⟩ := hr
  have hs : String.ofList chars = String.ofList others := String.toByteArray_inj.mp (hl.trans hr.symm)
  rw [String.ofList_inj.mp hs]

end PreviewShots.Text
