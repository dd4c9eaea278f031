import CiPipeline.Decimal.Style

/-!
# Characters of numbers

A number is written with digits, signs, a point and an `e`, which is `numeral`; `mem_ofInt` and
`mem_write` say so. `toInt64?` reads an integer back.
-/

namespace CiPipeline.Decimal

/-- A character that a number may be written with. -/
def numeral (c : Char) : Prop := c.isDigit = true ∨ c ∈ ['-', '+', '.', 'e']

theorem numeral_of_isDigit {c : Char} (digit : c.isDigit = true) : numeral c := .inl digit

theorem not_numeral_of {c : Char} (digit : c.isDigit = false) (mark : c ∉ ['-', '+', '.', 'e']) :
    ¬ numeral c := by
  rintro (isDigit | isMark)
  · rw [digit] at isDigit
    contradiction
  · exact mark isMark

/-! ### Integers -/

theorem mem_ofNat {n : Nat} {c : Char} (member : c ∈ ofNat n) : numeral c :=
  numeral_of_isDigit (isDigit_of_mem_ofNat member)

theorem mem_ofInt {i : Int} {c : Char} (member : c ∈ ofInt i) : numeral c := by
  cases i with
  | ofNat n => exact mem_ofNat member
  | negSucc n =>
    rcases List.mem_cons.mp member with rfl | member
    · exact .inr (by simp)
    · exact mem_ofNat member

theorem ofNat_ne_signed (n : Nat) (text : List Char) : ofNat n ≠ '-' :: text := by
  intro same
  have digit : '-'.isDigit = true := isDigit_of_mem_ofNat (same ▸ List.mem_cons_self)
  simp at digit

/-- The number whose text this is, if it is the text of one. -/
def value : List Char → Int
  | '-' :: digits => -Int.ofNat (Nat.ofDigitChars 10 digits 0)
  | digits => Int.ofNat (Nat.ofDigitChars 10 digits 0)

theorem value_of_unsigned {digits : List Char} (unsigned : ∀ rest, digits ≠ '-' :: rest) :
    value digits = Int.ofNat (Nat.ofDigitChars 10 digits 0) := by
  unfold value
  split
  next rest => exact absurd rfl (unsigned rest)
  next => rfl

theorem value_ofInt (i : Int) : value (ofInt i) = i := by
  cases i with
  | ofNat n =>
    rw [ofInt, value_of_unsigned (ofNat_ne_signed n), ofNat, Nat.ofDigitChars_ten_toDigits]
  | negSucc n =>
    rw [ofInt, value, ofNat, Nat.ofDigitChars_ten_toDigits]
    rfl

def toInt64? (text : List Char) : Option Int64 :=
  let i := Int64.ofInt (value text)
  if ofInt i.toInt = text then some i else none

theorem toInt64?_ofInt (i : Int64) : toInt64? (ofInt i.toInt) = some i := by
  rw [toInt64?, value_ofInt]
  simp

theorem eq_ofInt_of_toInt64? {text : List Char} {i : Int64} (read : toInt64? text = some i) :
    text = ofInt i.toInt := by
  simp only [toInt64?, Option.ite_none_right_eq_some, Option.some.injEq] at read
  rw [← read.2, read.1]

/-! ### Doubles -/

theorem mem_significantDigits {n : Nat} {c : Char} (member : c ∈ significantDigits n) : numeral c := by
  have kept := List.mem_reverse.mp member
  exact mem_ofNat (List.mem_reverse.mp ((List.dropWhile_sublist _).subset kept))

theorem mem_positionalText {digits : List Char} {point : Int} {c : Char}
    (numerals : ∀ d ∈ digits, numeral d) (member : c ∈ positionalText digits point) : numeral c := by
  have zero : numeral '0' := numeral_of_isDigit rfl
  have padded : ∀ (front back : List Char), (∀ d ∈ front, numeral d) → (∀ d ∈ back, numeral d) →
      ∀ d ∈ (if (front ++ back).isEmpty then ['0'] else front ++ back), numeral d := by
    intro front back frontNumerals backNumerals d found
    split at found
    · rw [List.mem_singleton.mp found]
      exact zero
    · exact (List.mem_append.mp found).elim (frontNumerals d) (backNumerals d)
  have zeros : ∀ count, ∀ d ∈ List.replicate count '0', numeral d :=
    fun _ _ found => List.eq_of_mem_replicate found ▸ zero
  simp only [positionalText, List.mem_append, List.mem_cons] at member
  rcases member with whole | rfl | part
  · exact padded _ _ (fun d found => numerals d (List.mem_of_mem_take found)) (zeros _) c whole
  · exact .inr (by simp)
  · exact padded _ _ (zeros _) (fun d found => numerals d (List.mem_of_mem_drop found)) c part

theorem mem_scientificText {digits : List Char} {power : Int} {c : Char}
    (numerals : ∀ d ∈ digits, numeral d) (member : c ∈ scientificText digits power) : numeral c := by
  simp only [scientificText, List.mem_append, List.mem_cons] at member
  rcases member with (first | part) | rfl | sign | exponent
  · exact numerals c (List.mem_of_mem_take first)
  · split at part
    · simp at part
    · rcases List.mem_cons.mp part with rfl | rest
      · exact .inr (by simp)
      · exact numerals c (List.mem_of_mem_drop rest)
  · exact .inr (by simp)
  · rw [sign]
    split <;> exact .inr (by simp)
  · exact mem_ofNat exponent

theorem mem_write {style : Style} {x : Binary64} {c : Char} (member : c ∈ style.write x) :
    numeral c := by
  have magnitude : ∀ text : List Char, (∀ d ∈ text, numeral d) →
      ∀ d ∈ (if x.isNegative then '-' :: text else text), numeral d := by
    intro text numerals d found
    split at found
    · rcases List.mem_cons.mp found with rfl | rest
      · exact .inr (by simp)
      · exact numerals d rest
    · exact numerals d found
  refine magnitude _ ?_ c member
  intro d found
  dsimp only at found
  split at found
  · rcases List.mem_cons.mp found with rfl | rest
    · exact numeral_of_isDigit rfl
    · rcases List.mem_cons.mp rest with rfl | last
      · exact .inr (by simp)
      · rw [List.mem_singleton.mp last]
        exact numeral_of_isDigit rfl
  · split at found
    · exact mem_positionalText (fun _ => mem_significantDigits) found
    · exact mem_scientificText (fun _ => mem_significantDigits) found

theorem positionalText_ne_nil (digits : List Char) (point : Int) : positionalText digits point ≠ [] := by
  simp [positionalText]

theorem scientificText_ne_nil (digits : List Char) (power : Int) : scientificText digits power ≠ [] := by
  simp [scientificText]

theorem write_ne_nil (style : Style) (x : Binary64) : style.write x ≠ [] := by
  unfold Style.write
  dsimp only
  split
  · simp
  · split
    · simp
    · split
      · exact positionalText_ne_nil _ _
      · exact scientificText_ne_nil _ _

end CiPipeline.Decimal
