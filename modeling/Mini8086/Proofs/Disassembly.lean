import Mini8086.CommandLine.Response
import Mini8086.Proofs.RoundTrip

/-!
# Reading a listing back

The text of an instruction leaves out most widths, but what the decoder emits can be told from it:
a register has a width of its own, and a place in memory that takes a constant is written with one.
Main statement, `Instruction.decode_faithfulText`: decoded instructions with the same text are the
same up to their lengths, and decoded programs with the same listing are the same.
-/

set_option autoImplicit false

namespace Mini8086

/-! ## Cutting a text -/

section Cut

variable (stops : Char → Bool) {left right leftRest rightRest : List Char}

/-- A text is cut in one way where its first part runs up to a character that stops it. -/
theorem eq_of_cut (leftRuns : ∀ letter ∈ left, stops letter = false)
    (rightRuns : ∀ letter ∈ right, stops letter = false)
    (leftStops : ∀ letter ∈ leftRest.head?, stops letter = true)
    (rightStops : ∀ letter ∈ rightRest.head?, stops letter = true)
    (same : left ++ leftRest = right ++ rightRest) : left = right ∧ leftRest = rightRest := by
  induction left generalizing right with
  | nil =>
    cases right with
    | nil => exact ⟨rfl, same⟩
    | cons letter others =>
      rw [List.nil_append] at same
      have runs := rightRuns letter List.mem_cons_self
      have halts := leftStops letter (by rw [same]; rfl)
      rw [runs] at halts
      cases halts
  | cons first rest ih =>
    cases right with
    | nil =>
      rw [List.nil_append] at same
      have runs := leftRuns first List.mem_cons_self
      have halts := rightStops first (by rw [← same]; rfl)
      rw [runs] at halts
      cases halts
    | cons letter others =>
      obtain ⟨rfl, behind⟩ := List.cons.inj same
      obtain ⟨rfl, rests⟩ := ih (fun other member => leftRuns other (List.mem_cons_of_mem _ member))
        (fun other member => rightRuns other (List.mem_cons_of_mem _ member)) behind
      exact ⟨rfl, rests⟩

end Cut

theorem eq_of_separator {separator left right leftRest rightRest : String} (mark : Char)
    {others : List Char} (opens : separator.toList = mark :: others)
    (leftFree : mark ∉ left.toList) (rightFree : mark ∉ right.toList)
    (same : left ++ separator ++ leftRest = right ++ separator ++ rightRest) :
    left = right ∧ leftRest = rightRest := by
  have runs : ∀ {text : String}, mark ∉ text.toList →
      ∀ letter ∈ text.toList, (letter == mark) = false := by
    intro text free letter member
    rw [beq_eq_false_iff_ne]
    rintro rfl
    exact free member
  have letters := congrArg String.toList same
  simp only [String.toList_append, opens, List.append_assoc] at letters
  obtain ⟨firsts, rests⟩ :=
    eq_of_cut (· == mark) (runs leftFree) (runs rightFree) (by simp) (by simp) letters
  have behind := List.append_cancel_left (List.cons.inj rests).2
  exact ⟨String.toList_inj.mp firsts, String.toList_inj.mp behind⟩

/-! ## Names and numerals -/

theorem isDigit_of_mem_repr {number : Nat} {letter : Char} (member : letter ∈ number.repr.toList) :
    letter.isDigit = true := by
  rw [Nat.toList_repr] at member
  exact Nat.isDigit_of_mem_toDigits (by decide) (by decide) member

theorem Mnemonic.name_inj {left right : Mnemonic} (same : left.name = right.name) :
    left = right := by
  have listed : ∀ mnemonic : Mnemonic, mnemonic ∈ Mnemonic.all := by
    rintro ((_ | _ | _ | _) | _ | _) <;> decide
  have distinct : (Mnemonic.all.map Mnemonic.name).Nodup := by decide
  exact List.inj_on_of_nodup_map distinct (listed left) (listed right) same

theorem Mnemonic.blank_not_mem_name (mnemonic : Mnemonic) : ' ' ∉ mnemonic.name.toList := by
  rcases mnemonic with (_ | _ | _ | _) | _ | _ <;>
    simp [name, DataOperation.name, Arithmetic.name, Branch.name]

theorem Register.name_inj {left right : Register} (same : left.name = right.name) :
    left = right := by
  have distinct : ∀ leftWord rightWord : Bool, ∀ leftCode rightCode : Octal,
      (ofCode (.ofBit leftWord) leftCode).name = (ofCode (.ofBit rightWord) rightCode).name →
        ofCode (.ofBit leftWord) leftCode = ofCode (.ofBit rightWord) rightCode := by
    decide +kernel
  have found := distinct left.width.isWord right.width.isWord left.code right.code
  simp only [Width.ofBit_isWord, ofCode_width_code] at found
  exact found same

theorem Width.name_inj {left right : Width} (same : left.name = right.name) : left = right := by
  cases left <;> cases right <;> simp [name] at same ⊢

theorem Width.blank_not_mem_name (width : Width) : ' ' ∉ width.name.toList := by
  cases width <;> simp [name]

/-! ## Places in memory -/

/-- What stands between a base and the size of a displacement. -/
def signText (displacement : Int) : String :=
  if displacement = 0 then "" else if displacement < 0 then " - " else " + "

def magnitudeText (displacement : Int) : String :=
  if displacement = 0 then "" else displacement.natAbs.repr

def signTexts : List String :=
  ["", " - ", " + "]

theorem signText_mem (displacement : Int) : signText displacement ∈ signTexts := by
  unfold signText signTexts
  split
  · simp
  · split <;> simp

theorem signText_of_neg {displacement : Int} (back : displacement < 0) :
    signText displacement = " - " := by
  rw [signText, if_neg (by omega), if_pos back]

theorem signText_of_pos {displacement : Int} (ahead : 0 < displacement) :
    signText displacement = " + " := by
  rw [signText, if_neg (by omega), if_neg (by omega)]

theorem signText_zero : signText 0 = "" := rfl

theorem sign_eq_of_signText {left right : Int} (same : signText left = signText right) :
    left.sign = right.sign := by
  rcases Int.lt_trichotomy left 0 with leftBack | rfl | leftAhead <;>
    rcases Int.lt_trichotomy right 0 with rightBack | rfl | rightAhead <;>
      simp_all [signText_of_neg, signText_of_pos, signText_zero, Int.sign_eq_neg_one_of_neg,
        Int.sign_eq_one_of_pos]

theorem displacement_eq {left right : Int} (signs : signText left = signText right)
    (sizes : magnitudeText left = magnitudeText right) : left = right := by
  have sign := sign_eq_of_signText signs
  have together : left = 0 ↔ right = 0 := by
    rw [← Int.sign_eq_zero_iff_zero, sign, Int.sign_eq_zero_iff_zero]
  have size : left.natAbs = right.natAbs := by
    by_cases still : left = 0
    · rw [still, together.mp still]
    · have moves : right ≠ 0 := fun stays => still (together.mpr stays)
      rwa [magnitudeText, magnitudeText, if_neg still, if_neg moves, Nat.repr_inj] at sizes
  rw [← Int.sign_mul_natAbs left, ← Int.sign_mul_natAbs right, sign, size]

/-- A base with a sign behind it is no other base with a sign, though `bx` starts `bx + si`. -/
theorem Base.lead_inj {left right : Base} {leftSign rightSign : String}
    (leftListed : leftSign ∈ signTexts) (rightListed : rightSign ∈ signTexts)
    (same : left.name ++ leftSign = right.name ++ rightSign) :
    left = right ∧ leftSign = rightSign := by
  have distinct : ∀ leftCode rightCode : Octal, ∀ leftSign ∈ signTexts, ∀ rightSign ∈ signTexts,
      (ofCode leftCode).name ++ leftSign = (ofCode rightCode).name ++ rightSign →
        ofCode leftCode = ofCode rightCode ∧ leftSign = rightSign := by
    decide +kernel
  have found := distinct left.code right.code leftSign leftListed rightSign rightListed
  simp only [ofCode_code] at found
  exact found same

namespace MemoryOperand

/-- The text of a place up to its first digit, without the bracket. -/
def lead (place : MemoryOperand) : String :=
  match place.address with
  | .based base => base.name ++ signText place.displacement.toInt
  | .direct _ => ""

/-- The numeral in the text of a place: the size of a displacement, or a direct address. -/
def numeral (place : MemoryOperand) : String :=
  match place.address with
  | .based _ => magnitudeText place.displacement.toInt
  | .direct address => address.toNat.repr

theorem not_isDigit_of_mem_lead {place : MemoryOperand} {letter : Char}
    (member : letter ∈ place.lead.toList) : letter.isDigit = false := by
  obtain ⟨address, displacement, width⟩ := place
  cases address with
  | direct address => simp [lead] at member
  | based base =>
    simp only [lead, String.toList_append, List.mem_append] at member
    rcases member with named | signed
    · revert letter
      cases base <;> simp [Base.name]
    · revert letter
      rcases Int.lt_trichotomy displacement.toInt 0 with back | still | ahead
      · simp [signText_of_neg back]
      · simp [still, signText_zero]
      · simp [signText_of_pos ahead]

theorem isDigit_of_mem_numeral {place : MemoryOperand} {letter : Char}
    (member : letter ∈ place.numeral.toList) : letter.isDigit = true := by
  obtain ⟨address, displacement, width⟩ := place
  cases address with
  | direct address => exact isDigit_of_mem_repr member
  | based base =>
    simp only [numeral, magnitudeText] at member
    split at member
    · simp at member
    · exact isDigit_of_mem_repr member

end MemoryOperand

theorem Operand.Located.text_memory {place : MemoryOperand} {width : Width}
    (located : (Operand.memory place).Located width) :
    place.text = "[" ++ (place.lead ++ place.numeral) ++ "]" := by
  cases located with
  | direct address => rfl
  | based base displacement =>
    simp only [MemoryOperand.text, MemoryOperand.lead, MemoryOperand.numeral, Address.text,
      signText, magnitudeText]
    split
    · simp
    · split <;> simp [String.append_assoc]

theorem MemoryOperand.eq_of_text {left right : MemoryOperand} {width : Width}
    (leftLocated : (Operand.memory left).Located width)
    (rightLocated : (Operand.memory right).Located width) (same : left.text = right.text) :
    left = right := by
  rw [leftLocated.text_memory, rightLocated.text_memory, String.append_left_inj,
    String.append_right_inj] at same
  have cut := eq_of_cut Char.isDigit (fun _ => not_isDigit_of_mem_lead)
    (fun _ => not_isDigit_of_mem_lead)
    (fun _ first => isDigit_of_mem_numeral (List.mem_of_mem_head? first))
    (fun _ first => isDigit_of_mem_numeral (List.mem_of_mem_head? first))
    (by simpa using congrArg String.toList same)
  have leads : left.lead = right.lead := String.toList_inj.mp cut.1
  have numerals : left.numeral = right.numeral := String.toList_inj.mp cut.2
  cases leftLocated with
  | direct leftAddress =>
    cases rightLocated with
    | direct rightAddress =>
      have addresses := UInt16.toNat_inj.mp (Nat.repr_inj.mp numerals)
      rw [addresses]
    | based base displacement =>
      exfalso
      revert leads
      cases base <;> simp [lead, Base.name]
  | based leftBase leftDisplacement =>
    cases rightLocated with
    | direct address =>
      exfalso
      revert leads
      cases leftBase <;> simp [lead, Base.name]
    | based rightBase rightDisplacement =>
      obtain ⟨rfl, signs⟩ := Base.lead_inj (signText_mem _) (signText_mem _) leads
      have displacements : leftDisplacement = rightDisplacement :=
        Int16.toInt_inj.mp (displacement_eq signs numerals)
      rw [displacements]

/-! ## Operands -/

def isOperandCharacter (letter : Char) : Bool :=
  letter.isAlphanum || ['[', ']', '+', '-', ' '].contains letter

theorem isOperandCharacter_repr (number : Nat) :
    ∀ letter ∈ number.repr.toList, isOperandCharacter letter = true := by
  intro letter member
  simp [isOperandCharacter, Char.isAlphanum, isDigit_of_mem_repr member]

theorem Register.isOperandCharacter_name (named : Register) :
    ∀ letter ∈ named.name.toList, isOperandCharacter letter = true := by
  rcases named with register | register <;> cases register <;>
    simp [name, ByteRegister.name, WordRegister.name, isOperandCharacter]

theorem MemoryOperand.isOperandCharacter_text (place : MemoryOperand) :
    ∀ letter ∈ place.text.toList, isOperandCharacter letter = true := by
  have address : ∀ letter ∈ place.address.text.toList, isOperandCharacter letter = true := by
    cases place.address with
    | direct address => exact isOperandCharacter_repr address.toNat
    | based base => cases base <;> simp [Address.text, Base.name, isOperandCharacter]
  have size := isOperandCharacter_repr place.displacement.toInt.natAbs
  have marks : isOperandCharacter '[' ∧ isOperandCharacter ']' ∧ isOperandCharacter '+' ∧
      isOperandCharacter '-' ∧ isOperandCharacter ' ' := by decide
  simp only [MemoryOperand.text]
  split
  · simpa [marks, or_imp, forall_and] using address
  · split <;> simpa [marks, or_imp, forall_and] using And.intro address size

theorem Operand.isOperandCharacter_text (operand : Operand) :
    ∀ letter ∈ operand.text.toList, isOperandCharacter letter = true := by
  cases operand with
  | register named => exact named.isOperandCharacter_name
  | memory place => exact place.isOperandCharacter_text
  | immediate constant => exact isOperandCharacter_repr constant.value.toNat
  | relative displacement =>
    rw [Operand.text, Int.repr_eq_if]
    split
    · exact isOperandCharacter_repr _
    · have mark : isOperandCharacter '-' := by decide
      simp only [String.toList_append, List.forall_mem_append]
      exact ⟨by simp [mark], isOperandCharacter_repr _⟩

namespace Operand

/-- The operands of decoded data operations, with the widths they have there. -/
inductive Sized : Operand → Width → Prop where
  | located {operand : Operand} {width : Width} (located : operand.Located width) :
    Sized operand width
  | constant (constant : Immediate) : Sized (.immediate constant) constant.width

theorem Sized.width?_eq {operand : Operand} {width : Width} (sized : operand.Sized width) :
    operand.width? = some width := by
  cases sized with
  | located located => exact located.width?_eq
  | constant constant => rfl

theorem not_sized_relative (displacement : Int8) (width : Width) :
    ¬ Sized (.relative displacement) width := by
  intro sized
  cases sized with
  | located located => cases located

/-- Two operands that are the same as far as they are written; widths of places and constants are
not. -/
inductive SameText : Operand → Operand → Prop where
  | register (named : Register) : SameText (.register named) (.register named)
  | memory {left right : MemoryOperand} (same : left.text = right.text) :
    SameText (.memory left) (.memory right)
  | immediate (value : UInt16) (leftWidth rightWidth : Width) :
    SameText (.immediate ⟨value, leftWidth⟩) (.immediate ⟨value, rightWidth⟩)

theorem bracket_mem_text (place : MemoryOperand) : '[' ∈ place.text.toList := by
  simp only [MemoryOperand.text]
  split
  · simp
  · split <;> simp

theorem bracket_not_mem_name (named : Register) : '[' ∉ named.name.toList := by
  rcases named with register | register <;> cases register <;>
    simp [Register.name, ByteRegister.name, WordRegister.name]

theorem name_ne_memory (named : Register) (place : MemoryOperand) :
    named.name ≠ place.text := by
  intro same
  apply bracket_not_mem_name named
  rw [same]
  exact bracket_mem_text place

theorem name_ne_repr (named : Register) (number : Nat) : named.name ≠ number.repr := by
  intro same
  have digits : ∀ letter ∈ named.name.toList, letter.isDigit = true := by
    rw [same]
    intro letter member
    exact isDigit_of_mem_repr member
  revert digits
  rcases named with register | register <;> cases register <;>
    simp [Register.name, ByteRegister.name, WordRegister.name]

theorem memory_ne_repr (place : MemoryOperand) (number : Nat) : place.text ≠ number.repr := by
  intro same
  have bracket := bracket_mem_text place
  rw [same] at bracket
  have digit := isDigit_of_mem_repr bracket
  revert digit
  decide

theorem Sized.sameText {left right : Operand} {leftWidth rightWidth : Width}
    (leftSized : left.Sized leftWidth) (rightSized : right.Sized rightWidth)
    (same : left.text = right.text) : left.SameText right := by
  cases left with
  | register leftNamed =>
    cases right with
    | register rightNamed =>
      obtain rfl := Register.name_inj same
      exact .register leftNamed
    | memory place => exact absurd same (name_ne_memory leftNamed place)
    | immediate constant => exact absurd same (name_ne_repr leftNamed _)
    | relative displacement => exact absurd rightSized (not_sized_relative displacement _)
  | memory leftPlace =>
    cases right with
    | register named => exact absurd same.symm (name_ne_memory named leftPlace)
    | memory rightPlace => exact .memory same
    | immediate constant => exact absurd same (memory_ne_repr leftPlace _)
    | relative displacement => exact absurd rightSized (not_sized_relative displacement _)
  | immediate leftConstant =>
    cases right with
    | register named => exact absurd same.symm (name_ne_repr named _)
    | memory place => exact absurd same.symm (memory_ne_repr place _)
    | immediate rightConstant =>
      obtain ⟨leftValue, leftWide⟩ := leftConstant
      obtain ⟨rightValue, rightWide⟩ := rightConstant
      obtain rfl : leftValue = rightValue := UInt16.toNat_inj.mp (Nat.repr_inj.mp same)
      exact .immediate leftValue leftWide rightWide
    | relative displacement => exact absurd rightSized (not_sized_relative displacement _)
  | relative displacement => exact absurd leftSized (not_sized_relative displacement _)

/-- Of one width, operands that are written in the same way are the same. -/
theorem SameText.eq {left right : Operand} {width : Width} (same : left.SameText right)
    (leftSized : left.Sized width) (rightSized : right.Sized width) : left = right := by
  cases same with
  | register named => rfl
  | memory same =>
    cases leftSized with
    | located leftLocated =>
      cases rightSized with
      | located rightLocated => rw [MemoryOperand.eq_of_text leftLocated rightLocated same]
  | immediate value leftWidth rightWidth =>
    cases leftSized with
    | located located => cases located
    | constant =>
      cases rightSized with
      | located located => cases located
      | constant => rfl

end Operand

/-! ## Instructions -/

namespace Instruction

/-- The operands of a decoded data operation: of one width, and not both of them in memory. -/
structure Operands (destination source : Operand) (width : Width) : Prop where
  located : destination.Located width
  sized : source.Sized width
  register_of_memory : ∀ place : MemoryOperand, source = .memory place →
    ∃ named, destination = .register named

theorem WellFormed.operands {operation : DataOperation} {destination : Operand}
    {source? : Option Operand} {length : Nat}
    (wellFormed : WellFormed ⟨.data operation, destination, source?, length⟩) :
    ∃ source width, source? = some source ∧ Operands destination source width := by
  cases wellFormed with
  | @toRegister operation named source length located =>
    refine ⟨source, named.width, rfl, .register named, .located located, ?_⟩
    intro place inMemory
    exact ⟨named, rfl⟩
  | @fromRegister operation destination named length located =>
    refine ⟨.register named, named.width, rfl, located, .located (.register named), ?_⟩
    intro place inMemory
    cases inMemory
  | @constant operation destination constant length located fits =>
    refine ⟨.immediate constant, constant.width, rfl, located, .constant constant, ?_⟩
    intro place inMemory
    cases inMemory

def destinationText : Operand → Operand → String
  | .memory place, .immediate _ => place.width.name ++ " " ++ place.text
  | destination, _ => destination.text

theorem operandText_some (destination source : Operand) :
    operandText destination (some source) =
      destinationText destination source ++ ", " ++ source.text := by
  cases destination <;> cases source <;> rfl

theorem isOperandCharacter_destinationText (destination source : Operand) :
    ∀ letter ∈ (destinationText destination source).toList, isOperandCharacter letter = true := by
  unfold destinationText
  split
  · next place constant =>
    have width : ∀ letter ∈ place.width.name.toList, isOperandCharacter letter = true := by
      cases place.width <;> simp [Width.name, isOperandCharacter]
    have blank : isOperandCharacter ' ' := by decide
    simpa [blank, or_imp, forall_and] using And.intro width place.isOperandCharacter_text
  · exact destination.isOperandCharacter_text

theorem comma_not_mem_destinationText (destination source : Operand) :
    ',' ∉ (destinationText destination source).toList := by
  intro member
  have listed := isOperandCharacter_destinationText destination source ',' member
  revert listed
  decide

theorem destinationText_of_not_immediate {destination source : Operand}
    (plain : ∀ constant : Immediate, source ≠ .immediate constant) :
    destinationText destination source = destination.text := by
  cases source with
  | immediate constant => exact absurd rfl (plain constant)
  | register named => cases destination <;> rfl
  | memory place => cases destination <;> rfl
  | relative displacement => cases destination <;> rfl

theorem name_ne_destinationText (named : Register) (place : MemoryOperand)
    (constant : Immediate) :
    named.name ≠ destinationText (.memory place) (.immediate constant) := by
  intro same
  apply Operand.bracket_not_mem_name named
  rw [same, destinationText, String.toList_append, List.mem_append]
  exact .inr (Operand.bracket_mem_text place)

/-- Beside a constant, the text of a destination tells its width. -/
theorem destination_eq_of_constant {left right : Operand} {leftWidth rightWidth : Width}
    {leftConstant rightConstant : Immediate} (leftLocated : left.Located leftWidth)
    (rightLocated : right.Located rightWidth)
    (same : destinationText left (.immediate leftConstant) =
      destinationText right (.immediate rightConstant)) : left = right := by
  cases left with
  | register leftNamed =>
    cases right with
    | register rightNamed => rw [Register.name_inj same]
    | memory place => exact absurd same (name_ne_destinationText leftNamed place rightConstant)
    | immediate constant => cases rightLocated
    | relative displacement => cases rightLocated
  | memory leftPlace =>
    cases right with
    | register named =>
      exact absurd same.symm (name_ne_destinationText named leftPlace leftConstant)
    | memory rightPlace =>
      obtain ⟨widths, texts⟩ := eq_of_separator ' ' rfl
        leftPlace.width.blank_not_mem_name rightPlace.width.blank_not_mem_name same
      have wide : leftWidth = rightWidth :=
        (Option.some.inj leftLocated.width?_eq).symm.trans
          ((Width.name_inj widths).trans (Option.some.inj rightLocated.width?_eq))
      subst wide
      rw [MemoryOperand.eq_of_text leftLocated rightLocated texts]
    | immediate constant => cases rightLocated
    | relative displacement => cases rightLocated
  | immediate constant => cases leftLocated
  | relative displacement => cases leftLocated

theorem Operands.eq_of_text {leftDestination leftSource rightDestination rightSource : Operand}
    {leftWidth rightWidth : Width} (left : Operands leftDestination leftSource leftWidth)
    (right : Operands rightDestination rightSource rightWidth)
    (same : operandText leftDestination (some leftSource) =
      operandText rightDestination (some rightSource)) :
    leftDestination = rightDestination ∧ leftSource = rightSource := by
  rw [operandText_some, operandText_some] at same
  obtain ⟨destinations, sources⟩ := eq_of_separator ',' rfl
    (comma_not_mem_destinationText _ _) (comma_not_mem_destinationText _ _) same
  have written : leftSource.SameText rightSource := left.sized.sameText right.sized sources
  have destination : leftDestination = rightDestination := by
    cases written with
    | register named =>
      have width : leftWidth = rightWidth :=
        Option.some.inj (left.sized.width?_eq.symm.trans right.sized.width?_eq)
      subst width
      rw [destinationText_of_not_immediate (by simp), destinationText_of_not_immediate (by simp)]
        at destinations
      have leftSized := Operand.Sized.located left.located
      have rightSized := Operand.Sized.located right.located
      exact (leftSized.sameText rightSized destinations).eq leftSized rightSized
    | memory places =>
      obtain ⟨leftNamed, rfl⟩ := left.register_of_memory _ rfl
      obtain ⟨rightNamed, rfl⟩ := right.register_of_memory _ rfl
      rw [Register.name_inj destinations]
    | immediate value =>
      exact destination_eq_of_constant left.located right.located destinations
  subst destination
  have width : leftWidth = rightWidth :=
    Option.some.inj (left.located.width?_eq.symm.trans right.located.width?_eq)
  subst width
  exact ⟨rfl, written.eq left.sized right.sized⟩

theorem WellFormed.eq_of_text {left right : Instruction} (leftWellFormed : left.WellFormed)
    (rightWellFormed : right.WellFormed) (same : left.text = right.text) :
    left.mnemonic = right.mnemonic ∧ left.destination = right.destination ∧
      left.source = right.source := by
  obtain ⟨leftMnemonic, leftDestination, leftSource?, leftLength⟩ := left
  obtain ⟨rightMnemonic, rightDestination, rightSource?, rightLength⟩ := right
  obtain ⟨names, operands⟩ := eq_of_separator ' ' rfl leftMnemonic.blank_not_mem_name
    rightMnemonic.blank_not_mem_name same
  obtain rfl := Mnemonic.name_inj names
  cases leftMnemonic with
  | branch jump =>
    cases leftWellFormed with
    | branch jump leftDisplacement =>
      cases rightWellFormed with
      | branch jump rightDisplacement =>
        have displacements := Int8.toInt_inj.mp (Int.repr_inj.mp operands)
        rw [displacements]
        exact ⟨rfl, rfl, rfl⟩
  | data operation =>
    obtain ⟨leftSource, leftWidth, rfl, leftOperands⟩ := leftWellFormed.operands
    obtain ⟨rightSource, rightWidth, rfl, rightOperands⟩ := rightWellFormed.operands
    obtain ⟨rfl, rfl⟩ := leftOperands.eq_of_text rightOperands operands
    exact ⟨rfl, rfl, rfl⟩

/-! ## Listings -/

theorem isOperandCharacter_operandText (destination : Operand) (source? : Option Operand)
    {letter : Char} (member : letter ∈ (operandText destination source?).toList) :
    isOperandCharacter letter = true ∨ letter = ',' := by
  cases source? with
  | none =>
    left
    have plain : operandText destination none = destination.text := by cases destination <;> rfl
    rw [plain] at member
    exact destination.isOperandCharacter_text letter member
  | some source =>
    rw [operandText_some] at member
    simp only [String.toList_append, List.mem_append] at member
    rcases member with (listed | comma) | listed
    · exact .inl (isOperandCharacter_destinationText destination source letter listed)
    · simp at comma
      rcases comma with rfl | rfl
      · exact .inr rfl
      · exact .inl (by decide)
    · exact .inl (source.isOperandCharacter_text letter listed)

theorem isOperandCharacter_name (mnemonic : Mnemonic) :
    ∀ letter ∈ mnemonic.name.toList, isOperandCharacter letter = true := by
  rcases mnemonic with (_ | _ | _ | _) | _ | _ <;>
    simp [Mnemonic.name, DataOperation.name, Arithmetic.name, Branch.name, isOperandCharacter]

theorem isOperandCharacter_text {instruction : Instruction} {letter : Char}
    (member : letter ∈ instruction.text.toList) :
    isOperandCharacter letter = true ∨ letter = ',' := by
  simp only [text, String.toList_append, List.mem_append] at member
  rcases member with (named | blank) | listed
  · exact .inl (isOperandCharacter_name _ letter named)
  · obtain rfl : letter = ' ' := by simpa using blank
    exact .inl (by decide)
  · exact isOperandCharacter_operandText _ _ listed

theorem parenthesis_not_mem_text (instruction : Instruction) : '(' ∉ instruction.text.toList := by
  intro member
  have listed := isOperandCharacter_text member
  revert listed
  decide

open CommandLine

theorem newline_not_mem_listingLine (instruction : Instruction) :
    '\n' ∉ (listingLine true instruction).toList := by
  have text : '\n' ∉ instruction.text.toList := by
    intro member
    have listed := isOperandCharacter_text member
    revert listed
    decide
  have size : '\n' ∉ instruction.length.repr.toList := by
    intro member
    have digit := isDigit_of_mem_repr member
    revert digit
    decide
  have unfolded : listingLine true instruction =
      instruction.text ++ " (len:" ++ instruction.length.repr ++ ")" := rfl
  simp only [unfolded, String.toList_append, List.mem_append, not_or]
  exact ⟨⟨⟨text, by decide⟩, size⟩, by decide⟩

/-- With the length behind the text, a line of a listing tells everything. -/
theorem WellFormed.eq_of_listingLine {left right : Instruction} (leftWellFormed : left.WellFormed)
    (rightWellFormed : right.WellFormed) (same : listingLine true left = listingLine true right) :
    left = right := by
  have opened : ∀ instruction : Instruction, listingLine true instruction =
      instruction.text ++ " " ++ "(len:" ++ instruction.length.repr ++ ")" := by
    intro instruction
    have blank : " (len:" = " " ++ "(len:" := rfl
    simp only [listingLine, if_true, blank, String.append_assoc]
  have free : ∀ instruction : Instruction, '(' ∉ (instruction.text ++ " ").toList := by
    intro instruction
    simp [instruction.parenthesis_not_mem_text]
  rw [opened, opened, String.append_left_inj] at same
  obtain ⟨texts, lengths⟩ := eq_of_separator '(' rfl (free left) (free right) same
  obtain ⟨mnemonics, destinations, sources⟩ :=
    leftWellFormed.eq_of_text rightWellFormed ((String.append_left_inj " ").mp texts)
  obtain ⟨leftMnemonic, leftDestination, leftSource, leftLength⟩ := left
  cases mnemonics
  cases destinations
  cases sources
  cases Nat.repr_inj.mp lengths
  rfl

theorem lines_cons (line : String) (others : List String) :
    lines (line :: others) = line ++ "\n" ++ lines others := by
  simp [lines]

theorem eq_of_lines {left right : List Instruction}
    (leftWellFormed : ∀ instruction ∈ left, instruction.WellFormed)
    (rightWellFormed : ∀ instruction ∈ right, instruction.WellFormed)
    (same : lines (left.map (listingLine true)) = lines (right.map (listingLine true))) :
    left = right := by
  induction left generalizing right with
  | nil =>
    cases right with
    | nil => rfl
    | cons instruction others =>
      rw [List.map_cons, lines_cons] at same
      have letters := congrArg String.toList same
      simp [lines] at letters
  | cons first rest ih =>
    cases right with
    | nil =>
      rw [List.map_cons, lines_cons] at same
      have letters := congrArg String.toList same
      simp [lines] at letters
    | cons instruction others =>
      rw [List.map_cons, List.map_cons, lines_cons, lines_cons] at same
      obtain ⟨one, behind⟩ := eq_of_separator '\n' rfl first.newline_not_mem_listingLine
        instruction.newline_not_mem_listingLine same
      rw [(leftWellFormed first List.mem_cons_self).eq_of_listingLine
          (rightWellFormed instruction List.mem_cons_self) one,
        ih (fun other member => leftWellFormed other (List.mem_cons_of_mem _ member))
          (fun other member => rightWellFormed other (List.mem_cons_of_mem _ member)) behind]

theorem wellFormed_of_decode {signExtend : Bool} {image : List UInt8} {program : Program}
    (decoded : Program.decode signExtend image = .ok program) :
    ∀ instruction ∈ program.toList, instruction.WellFormed := by
  obtain ⟨encodings, _, rfl⟩ := Program.decode_eq_ok_iff.mp decoded
  intro instruction member
  obtain ⟨encoding, _, rfl⟩ := List.mem_map.mp member
  exact encoding.wellFormed signExtend

/-- Two settings of the decoder, and what is listed alike of what they decode. -/
structure FaithfulText (leftExtend rightExtend : Bool) : Prop where
  same_instruction : ∀ (leftInput rightInput : List UInt8) (left right : Instruction),
    decodeOne leftExtend leftInput = .ok left → decodeOne rightExtend rightInput = .ok right →
      left.text = right.text →
        left.mnemonic = right.mnemonic ∧ left.destination = right.destination ∧
          left.source = right.source
  same_program : ∀ (leftImage rightImage : List UInt8) (left right : Program),
    Program.decode leftExtend leftImage = .ok left →
      Program.decode rightExtend rightImage = .ok right →
        listing true left = listing true right → left = right

theorem decode_faithfulText (leftExtend rightExtend : Bool) :
    FaithfulText leftExtend rightExtend where
  same_instruction := by
    intro leftInput rightInput left right leftDecoded rightDecoded same
    exact (wellFormed_of_decodeOne leftDecoded).eq_of_text (wellFormed_of_decodeOne rightDecoded)
      same
  same_program := by
    intro leftImage rightImage left right leftDecoded rightDecoded same
    apply Array.toList_inj.mp
    exact eq_of_lines (wellFormed_of_decode leftDecoded) (wellFormed_of_decode rightDecoded) same

/-- A constant has a short code and a longer one, a move between registers two of one length. -/
theorem decode_faithfulText_of_moves :
    (∃ left right : Instruction,
      decodeOne false [0xB9, 0x05, 0x00] = .ok left ∧
        decodeOne true [0xC7, 0xC1, 0x05, 0x00] = .ok right ∧ left.text = right.text ∧
        left.length ≠ right.length ∧ left.mnemonic = right.mnemonic ∧
        left.destination = right.destination ∧ left.source = right.source) ∧
      ∃ left right : Program,
        Program.decode false [0x89, 0xD9] = .ok left ∧
          Program.decode true [0x8B, 0xCB] = .ok right ∧
          listing true left = listing true right ∧ left = right := by
  have short : decodeOne false [0xB9, 0x05, 0x00] =
      .ok ⟨.mov, .register (.word .cx), some (.immediate (.ofWord 5)), 3⟩ := rfl
  have long : decodeOne true [0xC7, 0xC1, 0x05, 0x00] =
      .ok ⟨.mov, .register (.word .cx), some (.immediate (.ofWord 5)), 4⟩ := rfl
  have same : (Instruction.mk .mov (.register (.word .cx)) (some (.immediate (.ofWord 5))) 3).text =
      (Instruction.mk .mov (.register (.word .cx)) (some (.immediate (.ofWord 5))) 4).text := rfl
  have faithful := decode_faithfulText false true
  refine ⟨⟨_, _, short, long, same, by decide,
    faithful.same_instruction _ _ _ _ short long same⟩, ?_⟩
  have fromRegister : Program.decode false [0x89, 0xD9] =
      .ok #[⟨.mov, .register (.word .cx), some (.register (.word .bx)), 2⟩] :=
    Program.decode_eq_ok_iff.mpr
      ⟨[.registerMemory .mov false .word (Octal.ofNat 3) (.register (Octal.ofNat 1))], rfl, rfl⟩
  have toRegister : Program.decode true [0x8B, 0xCB] =
      .ok #[⟨.mov, .register (.word .cx), some (.register (.word .bx)), 2⟩] :=
    Program.decode_eq_ok_iff.mpr
      ⟨[.registerMemory .mov true .word (Octal.ofNat 1) (.register (Octal.ofNat 3))], rfl, rfl⟩
  exact ⟨_, _, fromRegister, toRegister, rfl,
    faithful.same_program _ _ _ _ fromRegister toRegister rfl⟩

end Instruction

end Mini8086
