/-!
# Texts

A text is a list of code points. Beside characters these are surrogate units that
stand alone, since a JSON string can name half of a surrogate pair. Such a unit is
no character and has no form in UTF-8.
-/

namespace PreviewShots

inductive CodePoint where
  | char (c : Char)
  /-- The unit `0xd800 + offset`. -/
  | unit (offset : Fin 0x800)
  deriving DecidableEq, Repr

namespace CodePoint

instance : Coe Char CodePoint := ⟨.char⟩

def toNat : CodePoint → Nat
  | .char c => c.toNat
  | .unit offset => 0xd800 + offset.val

def char? : CodePoint → Option Char
  | .char c => some c
  | .unit _ => none

/-- The code point of a number that is no greater than `0x10ffff`. -/
def ofNat (n : Nat) : CodePoint :=
  if h : 0xd800 ≤ n ∧ n < 0xe000 then .unit ⟨n - 0xd800, by omega⟩ else .char (Char.ofNat n)

/-- Code points are ordered by their numbers. -/
instance : LT CodePoint := ⟨fun left right => left.toNat < right.toNat⟩

instance : DecidableLT CodePoint := fun left right =>
  inferInstanceAs (Decidable (left.toNat < right.toNat))

theorem toNat_inj {left right : CodePoint} : left.toNat = right.toNat ↔ left = right := by
  refine ⟨fun h => ?_, fun h => h ▸ rfl⟩
  rcases left with c | ⟨m, hm⟩ <;> rcases right with d | ⟨n, hn⟩ <;> simp only [toNat] at h
  · exact congrArg _ (Char.toNat_inj.1 h)
  · have := c.valid
    simp only [UInt32.isValidChar, Nat.isValidChar] at this
    have : c.toNat = c.val.toNat := rfl
    omega
  · have := d.valid
    simp only [UInt32.isValidChar, Nat.isValidChar] at this
    have : d.toNat = d.val.toNat := rfl
    omega
  · simp only [unit.injEq, Fin.mk.injEq]
    omega

theorem toNat_ofNat_eq_or (n : Nat) : (ofNat n).toNat = n ∨ (ofNat n).toNat = 0 := by
  by_cases h : 0xd800 ≤ n ∧ n < 0xe000
  · rw [ofNat, dif_pos h]
    refine .inl ?_
    simp only [toNat]
    omega
  · rw [ofNat, dif_neg h]
    change (Char.ofNat n).toNat = n ∨ (Char.ofNat n).toNat = 0
    by_cases hvalid : n.isValidChar
    · rw [Char.ofNat, dif_pos hvalid]
      exact .inl rfl
    · rw [Char.ofNat, dif_neg hvalid]
      exact .inr rfl

instance : Trans (α := CodePoint) (· < ·) (· < ·) (· < ·) := ⟨Nat.lt_trans⟩

instance : Std.Irrefl (α := CodePoint) (· < ·) := ⟨fun c => Nat.lt_irrefl c.toNat⟩

instance : Std.Asymm (α := CodePoint) (· < ·) := ⟨fun _ _ => Nat.lt_asymm⟩

instance : Std.Antisymm (α := CodePoint) (¬ · < ·) :=
  ⟨fun _ _ hl hr => toNat_inj.1 (Nat.le_antisymm (Nat.not_lt.1 hr) (Nat.not_lt.1 hl))⟩

end CodePoint

abbrev Text := List CodePoint

namespace Text

instance : LawfulBEq Text := inferInstance

def ofChars (chars : List Char) : Text :=
  chars.map .char

def ofString (text : String) : Text :=
  ofChars text.toList

instance : Coe String Text := ⟨ofString⟩

/-- The number in decimal digits. -/
def ofNat (n : Nat) : Text :=
  ofChars (Nat.toDigits 10 n)

/-- The characters of a text without lone units. -/
def chars? (text : Text) : Option (List Char) :=
  text.mapM CodePoint.char?

/-- The text as a string, if it has no lone units. -/
def string? (text : Text) : Option String :=
  text.chars?.map String.ofList

@[simp] theorem chars?_ofChars (chars : List Char) : chars? (ofChars chars) = some chars := by
  induction chars with
  | nil => rfl
  | cons c cs ih =>
    simp only [chars?, ofChars] at ih
    simp [chars?, ofChars, CodePoint.char?, ih]

@[simp] theorem ofChars_append (left right : List Char) :
    ofChars (left ++ right) = ofChars left ++ ofChars right := List.map_append

theorem ofChars_injective {left right : List Char} (h : ofChars left = ofChars right) :
    left = right := by
  simpa using congrArg chars? h

end Text

end PreviewShots
