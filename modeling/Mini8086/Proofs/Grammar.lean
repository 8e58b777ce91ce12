import Mini8086.Proofs.DecodeOne

/-!
# The grammar of encodings

The instruction set as its tables write it: an encoding is a row of bit fields, and the fields name
the instruction.  Nothing here refers to the reader or to the type of encodings, so the main
statement compares two independent accounts of the same forms: the decoder accepts a byte string
exactly when a form of the grammar stands at its front, and it yields the instruction that the form
names.
-/

set_option autoImplicit false

namespace Mini8086.Grammar

/-! ## Tables -/

/-- Rows by the three-bit field: the byte register and the word register of that code. -/
def registerTable : Vector (ByteRegister × WordRegister) 8 :=
  #v[(.al, .ax), (.cl, .cx), (.dl, .dx), (.bl, .bx), (.ah, .sp), (.ch, .bp), (.dh, .si), (.bh, .di)]

def baseTable : Vector Base 8 :=
  #v[.bxSi, .bxDi, .bpSi, .bpDi, .si, .di, .bp, .bx]

/-- The conditional jumps by the low four bits of their opcode. -/
def conditionTable : Vector Branch 16 :=
  #v[.jo, .jno, .jb, .jnb, .je, .jnz, .jbe, .ja, .js, .jns, .jp, .jnp, .jl, .jnl, .jle, .jg]

def loopTable : Vector Branch 4 :=
  #v[.loopnz, .loopz, .loop, .jcxz]

def width (w : BitVec 1) : Width :=
  if w = 1#1 then .word else .byte

def register (w : BitVec 1) (reg : BitVec 3) : Operand :=
  let row := registerTable.get reg.toFin
  .register (if w = 1#1 then .word row.2 else .byte row.1)

def based (w : BitVec 1) (rm : BitVec 3) (displacement : Int16) : Operand :=
  .memory ⟨.based (baseTable.get rm.toFin), displacement, width w⟩

/-- The operation field that constant, accumulator and register forms have in common. -/
def operationField : Arithmetic → BitVec 3
  | .add => 0b000#3
  | .sub => 0b101#3
  | .cmp => 0b111#3

def dataField : DataOperation → BitVec 6
  | .mov => 0b100010#6
  | .arithmetic operation => 0b00#2 ++ operationField operation ++ 0b0#1

/-! ## Forms -/

/-- `PlaceForm w mode rm bytes operand`: the fields and the bytes behind them name the operand. -/
inductive PlaceForm (w : BitVec 1) : BitVec 2 → BitVec 3 → List UInt8 → Operand → Prop where
  | register (rm : BitVec 3) : PlaceForm w 0b11#2 rm [] (register w rm)
  | direct (low high : UInt8) :
      PlaceForm w 0b00#2 0b110#3 [low, high] (.memory ⟨.direct (Word.ofBytes low high), 0, width w⟩)
  | plain (rm : BitVec 3) (indirect : rm ≠ 0b110#3) : PlaceForm w 0b00#2 rm [] (based w rm 0)
  | near (rm : BitVec 3) (byte : UInt8) :
      PlaceForm w 0b01#2 rm [byte] (based w rm byte.toInt8.toInt16)
  | far (rm : BitVec 3) (low high : UInt8) :
      PlaceForm w 0b10#2 rm [low, high] (based w rm (Word.ofBytes low high).toInt16)

inductive ConstantForm : BitVec 1 → List UInt8 → Immediate → Prop where
  | byte (value : UInt8) : ConstantForm 0#1 [value] ⟨value.toUInt16, .byte⟩
  | word (low high : UInt8) : ConstantForm 1#1 [low, high] ⟨Word.ofBytes low high, .word⟩

/-- A constant of arithmetic, which may stand for a word in one byte. -/
inductive ArithmeticForm (signExtend : Bool) :
    BitVec 1 → BitVec 1 → List UInt8 → Immediate → Prop where
  | whole {s w : BitVec 1} {data : List UInt8} {constant : Immediate}
      (long : s = 0#1 ∨ w = 0#1) (carried : ConstantForm w data constant) :
      ArithmeticForm signExtend s w data constant
  | short (value : UInt8) :
      ArithmeticForm signExtend 1#1 1#1 [value]
        ⟨if signExtend then .ofBitVec (value.toBitVec.signExtend 16) else value.toUInt16, .word⟩

/-- `Form signExtend code mnemonic destination source`: the bytes are one whole encoding of an
instruction with these parts. -/
inductive Form (signExtend : Bool) :
    List UInt8 → Mnemonic → Operand → Option Operand → Prop where
  | immediateToRegister (w : BitVec 1) (reg : BitVec 3) {data : List UInt8} {constant : Immediate}
      (carried : ConstantForm w data constant) :
      Form signExtend (.ofBitVec (0b1011#4 ++ w ++ reg) :: data)
        .mov (register w reg) (some (.immediate constant))
  | arithmeticImmediate (operation : Arithmetic) (s w : BitVec 1) (mode : BitVec 2) (rm : BitVec 3)
      {behind data : List UInt8} {place : Operand} {constant : Immediate}
      (named : PlaceForm w mode rm behind place)
      (carried : ArithmeticForm signExtend s w data constant) :
      Form signExtend
        (.ofBitVec (0b100000#6 ++ s ++ w) :: .ofBitVec (mode ++ operationField operation ++ rm) ::
          (behind ++ data))
        (.arithmetic operation) place (some (.immediate constant))
  | movImmediate (x w : BitVec 1) (mode : BitVec 2) (reg rm : BitVec 3)
      {behind data : List UInt8} {place : Operand} {constant : Immediate}
      (named : PlaceForm w mode rm behind place) (carried : ConstantForm w data constant) :
      Form signExtend
        (.ofBitVec (0b110001#6 ++ x ++ w) :: .ofBitVec (mode ++ reg ++ rm) :: (behind ++ data))
        .mov place (some (.immediate constant))
  | immediateToAccumulator (operation : Arithmetic) (w : BitVec 1)
      {data : List UInt8} {constant : Immediate} (carried : ConstantForm w data constant) :
      Form signExtend (.ofBitVec (0b00#2 ++ operationField operation ++ 0b10#2 ++ w) :: data)
        (.arithmetic operation) (register w 0b000#3) (some (.immediate constant))
  | conditional (condition : BitVec 4) (displacement : UInt8) :
      Form signExtend [.ofBitVec (0b0111#4 ++ condition), displacement]
        (.branch (conditionTable.get condition.toFin)) (.relative displacement.toInt8) none
  | loop (kind : BitVec 2) (displacement : UInt8) :
      Form signExtend [.ofBitVec (0b111000#6 ++ kind), displacement]
        (.branch (loopTable.get kind.toFin)) (.relative displacement.toInt8) none
  | toRegister (operation : DataOperation) (w : BitVec 1) (mode : BitVec 2) (reg rm : BitVec 3)
      {behind : List UInt8} {place : Operand} (named : PlaceForm w mode rm behind place) :
      Form signExtend
        (.ofBitVec (dataField operation ++ 1#1 ++ w) :: .ofBitVec (mode ++ reg ++ rm) :: behind)
        (.data operation) (register w reg) (some place)
  | fromRegister (operation : DataOperation) (w : BitVec 1) (mode : BitVec 2) (reg rm : BitVec 3)
      {behind : List UInt8} {place : Operand} (named : PlaceForm w mode rm behind place) :
      Form signExtend
        (.ofBitVec (dataField operation ++ 0#1 ++ w) :: .ofBitVec (mode ++ reg ++ rm) :: behind)
        (.data operation) place (some (register w reg))

/-- The bytes are one whole encoding of the instruction, which says how many they are. -/
def Encodes (signExtend : Bool) (code : List UInt8) (instruction : Instruction) : Prop :=
  Form signExtend code instruction.mnemonic instruction.destination instruction.source ∧
    instruction.length = code.length

/-! ## Fields as bits -/

def bit (width : Width) : BitVec 1 :=
  .ofBool width.isWord

@[simp]
theorem width_bit (operand : Width) : width (bit operand) = operand := by
  cases operand <;> rfl

@[simp]
theorem bit_width (w : BitVec 1) : bit (width w) = w := by
  revert w
  decide

theorem ofBool_beq_one (field : BitVec 1) : BitVec.ofBool (field == 1#1) = field := by
  revert field
  decide

theorem register_bit (operand : Width) (code : Octal) :
    register (bit operand) (.ofFin code) = .register (.ofCode operand code) := by
  cases operand <;> revert code <;> decide

theorem based_bit (operand : Width) (code : Octal) (displacement : Int16) :
    based (bit operand) (.ofFin code) displacement =
      .memory ⟨.based (.ofCode code), displacement, operand⟩ := by
  have table : ∀ code : Octal, baseTable.get code = Base.ofCode code := by decide
  simp only [based, width_bit, table]

theorem fieldsByte_bits (mode : Fin 4) (reg rm : Octal) :
    Fields.byte ⟨mode, reg, rm⟩ =
      .ofBitVec (BitVec.ofFin (w := 2) mode ++ BitVec.ofFin (w := 3) reg ++
        BitVec.ofFin (w := 3) rm) := by
  revert mode reg rm
  decide +kernel

theorem operationField_code (operation : Arithmetic) :
    operationField operation = .ofFin operation.code := by
  cases operation <;> rfl

section Opcodes

variable (operand : Width)

theorem byte_immediateToRegister (code : Octal) :
    (Opcode.immediateToRegister operand code).byte =
      .ofBitVec (0b1011#4 ++ bit operand ++ BitVec.ofFin (w := 3) code) := by
  cases operand <;> revert code <;> decide

theorem byte_arithmeticImmediate (short : Bool) :
    (Opcode.arithmeticImmediate short operand).byte =
      .ofBitVec (0b100000#6 ++ BitVec.ofBool short ++ bit operand) := by
  cases operand <;> cases short <;> decide

theorem byte_movImmediate (spare : Bool) :
    (Opcode.movImmediate spare operand).byte =
      .ofBitVec (0b110001#6 ++ BitVec.ofBool spare ++ bit operand) := by
  cases operand <;> cases spare <;> decide

theorem byte_immediateToAccumulator (operation : Arithmetic) :
    (Opcode.immediateToAccumulator operation operand).byte =
      .ofBitVec (0b00#2 ++ operationField operation ++ 0b10#2 ++ bit operand) := by
  cases operand <;> cases operation <;> decide

theorem byte_registerMemory (operation : DataOperation) (toRegister : Bool) :
    (Opcode.registerMemory operation toRegister operand).byte =
      .ofBitVec (dataField operation ++ BitVec.ofBool toRegister ++ bit operand) := by
  cases operand <;> cases toRegister <;> rcases operation with _ | (_ | _ | _) <;> decide

end Opcodes

theorem byte_condition (condition : BitVec 4) :
    (conditionTable.get condition.toFin).byte = .ofBitVec (0b0111#4 ++ condition) := by
  revert condition
  decide

theorem byte_loop (kind : BitVec 2) :
    (loopTable.get kind.toFin).byte = .ofBitVec (0b111000#6 ++ kind) := by
  revert kind
  decide

theorem branch_in_table (jump : Branch) :
    (∃ condition : BitVec 4, conditionTable.get condition.toFin = jump) ∨
      ∃ kind : BitVec 2, loopTable.get kind.toFin = jump := by
  cases jump <;> decide

/-! ## Every encoding has a form -/

theorem placeForm_place (operand : Width) (place : Place) :
    PlaceForm (bit operand) (.ofFin place.mode) (.ofFin place.rm) place.bytes
      (place.operand operand) := by
  cases place with
  | register code =>
    have form : PlaceForm (bit operand) 0b11#2 (.ofFin code) [] _ := .register _
    rw [register_bit] at form
    exact form
  | direct address =>
    have form : PlaceForm (bit operand) 0b00#2 0b110#3 [Word.low address, Word.high address] _ :=
      .direct _ _
    rw [Word.ofBytes_low_high, width_bit] at form
    exact form
  | plain base notBp =>
    have indirect : BitVec.ofFin base.code ≠ 0b110#3 := by
      intro same
      apply notBp
      rw [← Base.ofCode_code base]
      exact congrArg (fun field : BitVec 3 => Base.ofCode field.toFin) same
    have form : PlaceForm (bit operand) 0b00#2 (.ofFin base.code) [] _ := .plain _ indirect
    rw [based_bit, Base.ofCode_code] at form
    exact form
  | near base displacement =>
    have form : PlaceForm (bit operand) 0b01#2 (.ofFin base.code) [displacement.toUInt8] _ :=
      .near _ _
    rw [based_bit, Base.ofCode_code] at form
    exact form
  | far base displacement =>
    have form : PlaceForm (bit operand) 0b10#2 (.ofFin base.code)
        [Word.low displacement.toUInt16, Word.high displacement.toUInt16] _ := .far _ _ _
    rw [based_bit, Base.ofCode_code, Word.ofBytes_low_high] at form
    exact form

theorem constantForm_data (data : Data) :
    ConstantForm (bit data.width) data.bytes data.immediate := by
  cases data with
  | byte value => exact .byte value
  | word value =>
    have form : ConstantForm 1#1 [Word.low value, Word.high value] _ := .word _ _
    rw [Word.ofBytes_low_high] at form
    exact form

theorem arithmeticForm_data (signExtend : Bool) (data : ArithmeticData) :
    ArithmeticForm signExtend (.ofBool data.sign) (bit data.width) data.bytes
      (data.immediate signExtend) := by
  cases data with
  | byte sign value => exact .whole (.inr rfl) (.byte value)
  | word value => exact .whole (.inl rfl) (constantForm_data (.word value))
  | short value => exact .short value

theorem placeBytes_bits (code : Octal) (place : Place) :
    Encoding.placeBytes code place =
      .ofBitVec (BitVec.ofFin (w := 2) place.mode ++ BitVec.ofFin (w := 3) code ++
        BitVec.ofFin (w := 3) place.rm) :: place.bytes := by
  rw [Encoding.placeBytes, fieldsByte_bits]

theorem form_encoding (signExtend : Bool) (encoding : Encoding) :
    Form signExtend encoding.bytes encoding.mnemonic encoding.destination
      (encoding.source? signExtend) := by
  cases encoding with
  | immediateToRegister code data =>
    have form : Form signExtend _ _ _ _ :=
      .immediateToRegister (bit data.width) (.ofFin code) (constantForm_data data)
    rw [← byte_immediateToRegister, register_bit] at form
    exact form
  | arithmeticImmediate operation place data =>
    have form : Form signExtend _ _ _ _ :=
      .arithmeticImmediate operation (.ofBool data.sign) (bit data.width) _ _
        (placeForm_place data.width place) (arithmeticForm_data signExtend data)
    rw [← byte_arithmeticImmediate, operationField_code, ← List.cons_append,
      ← placeBytes_bits] at form
    exact form
  | movImmediate spare unused place data =>
    have form : Form signExtend _ _ _ _ :=
      .movImmediate (.ofBool spare) (bit data.width) _ (.ofFin unused) _
        (placeForm_place data.width place) (constantForm_data data)
    rw [← byte_movImmediate, ← List.cons_append, ← placeBytes_bits] at form
    exact form
  | immediateToAccumulator operation data =>
    have form : Form signExtend _ _ _ _ :=
      .immediateToAccumulator operation (bit data.width) (constantForm_data data)
    have accumulator : register (bit data.width) 0b000#3 = Encoding.accumulator data.width :=
      register_bit data.width _
    rw [← byte_immediateToAccumulator, accumulator] at form
    exact form
  | branch jump displacement =>
    rcases branch_in_table jump with ⟨condition, rfl⟩ | ⟨kind, rfl⟩
    · have form : Form signExtend _ _ _ _ := .conditional condition displacement.toUInt8
      rw [← byte_condition] at form
      exact form
    · have form : Form signExtend _ _ _ _ := .loop kind displacement.toUInt8
      rw [← byte_loop] at form
      exact form
  | registerMemory operation toRegister operand code place =>
    have named := placeForm_place operand place
    cases toRegister with
    | true =>
      have form : Form signExtend _ _ _ _ :=
        .toRegister operation (bit operand) _ (.ofFin code) _ named
      rw [register_bit, ← placeBytes_bits] at form
      rw [Encoding.bytes, Encoding.opcode, byte_registerMemory]
      exact form
    | false =>
      have form : Form signExtend _ _ _ _ :=
        .fromRegister operation (bit operand) _ (.ofFin code) _ named
      rw [register_bit, ← placeBytes_bits] at form
      rw [Encoding.bytes, Encoding.opcode, byte_registerMemory]
      exact form

/-! ## Every form has an encoding -/

theorem exists_place {w : BitVec 1} {mode : BitVec 2} {rm : BitVec 3} {behind : List UInt8}
    {operand : Operand} (named : PlaceForm w mode rm behind operand) :
    ∃ place : Place, place.mode = mode.toFin ∧ place.rm = rm.toFin ∧ place.bytes = behind ∧
      place.operand (width w) = operand := by
  cases named with
  | register rm =>
    refine ⟨.register rm.toFin, rfl, rfl, rfl, ?_⟩
    rw [Place.operand, ← register_bit, bit_width]
  | direct low high =>
    refine ⟨.direct (Word.ofBytes low high), rfl, rfl, ?_, rfl⟩
    simp [Place.bytes, Word.bytes]
  | plain rm indirect =>
    have notBp : Base.ofCode rm.toFin ≠ .bp := by
      intro bp
      apply indirect
      apply BitVec.eq_of_toFin_eq
      rw [← Base.code_ofCode rm.toFin, bp]
      rfl
    refine ⟨.plain (Base.ofCode rm.toFin) notBp, rfl, Base.code_ofCode _, rfl, ?_⟩
    rw [Place.operand, ← based_bit, bit_width]
  | near rm byte =>
    refine ⟨.near (Base.ofCode rm.toFin) byte.toInt8, rfl, Base.code_ofCode _, ?_, ?_⟩
    · simp [Place.bytes]
    · rw [Place.operand, ← based_bit, bit_width]
  | far rm low high =>
    refine ⟨.far (Base.ofCode rm.toFin) (Word.ofBytes low high).toInt16, rfl,
      Base.code_ofCode _, ?_, ?_⟩
    · simp [Place.bytes, Word.bytes]
    · rw [Place.operand, ← based_bit, bit_width]

theorem exists_data {w : BitVec 1} {bytes : List UInt8} {constant : Immediate}
    (carried : ConstantForm w bytes constant) :
    ∃ data : Data, data.width = width w ∧ data.bytes = bytes ∧ data.immediate = constant := by
  cases carried with
  | byte value => exact ⟨.byte value, rfl, rfl, rfl⟩
  | word low high =>
    refine ⟨.word (Word.ofBytes low high), rfl, ?_, rfl⟩
    simp [Data.bytes, Word.bytes]

theorem exists_arithmeticData {signExtend : Bool} {s w : BitVec 1} {bytes : List UInt8}
    {constant : Immediate} (carried : ArithmeticForm signExtend s w bytes constant) :
    ∃ data : ArithmeticData, .ofBool data.sign = s ∧ data.width = width w ∧
      data.bytes = bytes ∧ data.immediate signExtend = constant := by
  cases carried with
  | whole long carried =>
    cases carried with
    | byte value => exact ⟨.byte (s == 1#1) value, ofBool_beq_one s, rfl, rfl, rfl⟩
    | word low high =>
      have unsigned : s = 0#1 := by simpa using long
      refine ⟨.word (Word.ofBytes low high), unsigned.symm, rfl, ?_, rfl⟩
      simp [ArithmeticData.bytes, Word.bytes]
  | short value => exact ⟨.short value, rfl, rfl, rfl, rfl⟩

def Realizes (signExtend : Bool) (encoding : Encoding) (code : List UInt8) (mnemonic : Mnemonic)
    (destination : Operand) (source : Option Operand) : Prop :=
  encoding.bytes = code ∧ encoding.mnemonic = mnemonic ∧ encoding.destination = destination ∧
    encoding.source? signExtend = source

theorem exists_encoding {signExtend : Bool} {code : List UInt8} {mnemonic : Mnemonic}
    {destination : Operand} {source : Option Operand}
    (form : Form signExtend code mnemonic destination source) :
    ∃ encoding, Realizes signExtend encoding code mnemonic destination source := by
  cases form with
  | immediateToRegister w reg carried =>
    obtain ⟨data, wide, rfl, rfl⟩ := exists_data carried
    refine ⟨.immediateToRegister reg.toFin data, ?_, rfl, ?_, rfl⟩
    · rw [Encoding.bytes, Encoding.opcode, byte_immediateToRegister, wide, bit_width]
      rfl
    · rw [Encoding.destination, wide, ← register_bit, bit_width]
  | arithmeticImmediate operation s w mode rm named carried =>
    obtain ⟨place, modes, codes, rfl, rfl⟩ := exists_place named
    obtain ⟨data, signs, wide, rfl, rfl⟩ := exists_arithmeticData carried
    refine ⟨.arithmeticImmediate operation place data, ?_, rfl, ?_, rfl⟩
    · rw [Encoding.bytes, Encoding.opcode, byte_arithmeticImmediate, signs, wide, bit_width,
        Encoding.operandBytes, placeBytes_bits, modes, codes, ← operationField_code]
      rfl
    · rw [Encoding.destination, wide]
  | movImmediate x w mode reg rm named carried =>
    obtain ⟨place, modes, codes, rfl, rfl⟩ := exists_place named
    obtain ⟨data, wide, rfl, rfl⟩ := exists_data carried
    refine ⟨.movImmediate (x == 1#1) reg.toFin place data, ?_, rfl, ?_, rfl⟩
    · rw [Encoding.bytes, Encoding.opcode, byte_movImmediate, ofBool_beq_one, wide, bit_width,
        Encoding.operandBytes, placeBytes_bits, modes, codes]
      rfl
    · rw [Encoding.destination, wide]
  | immediateToAccumulator operation w carried =>
    obtain ⟨data, wide, rfl, rfl⟩ := exists_data carried
    refine ⟨.immediateToAccumulator operation data, ?_, rfl, ?_, rfl⟩
    · rw [Encoding.bytes, Encoding.opcode, byte_immediateToAccumulator, wide, bit_width]
      rfl
    · rw [Encoding.destination, Encoding.accumulator, wide, ← register_bit, bit_width]
      rfl
  | conditional condition displacement =>
    refine ⟨.branch (conditionTable.get condition.toFin) displacement.toInt8, ?_, rfl, rfl, rfl⟩
    rw [Encoding.bytes, Encoding.opcode, Opcode.byte, byte_condition]
    simp [Encoding.operandBytes]
  | loop kind displacement =>
    refine ⟨.branch (loopTable.get kind.toFin) displacement.toInt8, ?_, rfl, rfl, rfl⟩
    rw [Encoding.bytes, Encoding.opcode, Opcode.byte, byte_loop]
    simp [Encoding.operandBytes]
  | toRegister operation w mode reg rm named =>
    obtain ⟨place, modes, codes, rfl, rfl⟩ := exists_place named
    refine ⟨.registerMemory operation true (width w) reg.toFin place, ?_, rfl, ?_, rfl⟩
    · rw [Encoding.bytes, Encoding.opcode, byte_registerMemory, bit_width,
        Encoding.operandBytes, placeBytes_bits, modes, codes]
      rfl
    · rw [Encoding.destination, if_pos rfl, ← register_bit, bit_width]
  | fromRegister operation w mode reg rm named =>
    obtain ⟨place, modes, codes, rfl, rfl⟩ := exists_place named
    refine ⟨.registerMemory operation false (width w) reg.toFin place, ?_, rfl, rfl, ?_⟩
    · rw [Encoding.bytes, Encoding.opcode, byte_registerMemory, bit_width,
        Encoding.operandBytes, placeBytes_bits, modes, codes]
      rfl
    · rw [Encoding.source?, if_neg Bool.false_ne_true, ← register_bit, bit_width]

/-! ## The decoder accepts the grammar -/

/-- The encodings of the grammar are the byte strings that encodings write. -/
theorem encodes_iff {signExtend : Bool} {code : List UInt8} {instruction : Instruction} :
    Encodes signExtend code instruction ↔
      ∃ encoding : Encoding, encoding.bytes = code ∧
        encoding.instruction signExtend = instruction := by
  constructor
  · intro encodes
    obtain ⟨form, measured⟩ := encodes
    obtain ⟨encoding, rfl, mnemonics, destinations, sources⟩ := exists_encoding form
    refine ⟨encoding, rfl, ?_⟩
    rw [Encoding.instruction, mnemonics, destinations, sources, Encoding.length, ← measured]
  · intro written
    obtain ⟨encoding, rfl, rfl⟩ := written
    exact ⟨form_encoding signExtend encoding, rfl⟩

theorem decodeOne_eq_ok_iff_encodes (signExtend : Bool) (input : List UInt8)
    (instruction : Instruction) :
    (Instruction.decodeOne signExtend input = .ok instruction ↔
        ∃ code, code <+: input ∧ Encodes signExtend code instruction) ∧
      (Instruction.decodeOne signExtend input = .ok instruction →
        2 ≤ instruction.length ∧ instruction.length ≤ 6 ∧ instruction.length ≤ input.length) := by
  refine ⟨?_, ?_⟩
  · rw [Instruction.decodeOne_eq_ok_iff]
    constructor
    · intro written
      obtain ⟨encoding, front, means⟩ := written
      exact ⟨encoding.bytes, front, encodes_iff.mpr ⟨encoding, rfl, means⟩⟩
    · intro encodes
      obtain ⟨code, front, encodes⟩ := encodes
      obtain ⟨encoding, rfl, means⟩ := encodes_iff.mp encodes
      exact ⟨encoding, front, means⟩
  · intro success
    obtain ⟨encoding, front, rfl⟩ := Instruction.decodeOne_eq_ok_iff.mp success
    obtain ⟨atLeast, atMost⟩ := encoding.length_bounds
    exact ⟨atLeast, atMost, front.length_le⟩

end Mini8086.Grammar
