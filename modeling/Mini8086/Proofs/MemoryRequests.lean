import Mathlib
import Mini8086.Memory

/-!
# Memory as a byte map

Requests to memory, and what is known of a memory from the requests it was given: which of them
succeeded, the bytes it holds, and its counters.  Main statement, `Memory.refines_byteMap`: a memory
that started with zeros holds at every position the byte last written there, and its counters are a
ledger of what succeeded.
-/

set_option autoImplicit false

namespace Mini8086

/-! ## Requests -/

inductive MemoryRequest where
  | read (address length : Nat)
  | readByte (address : Nat)
  | readWord (address : Nat)
  | write (address : Nat) (bytes : List UInt8)
  | writeByte (address : Nat) (byte : UInt8)
  | writeWord (address : Nat) (word : UInt16)
  deriving DecidableEq

inductive MemoryReply where
  | bytes (bytes : List UInt8)
  | byte (byte : UInt8)
  | word (word : UInt16)
  | written
  deriving DecidableEq

namespace MemoryRequest

def address : MemoryRequest → Nat
  | .read address _ | .readByte address | .readWord address => address
  | .write address _ | .writeByte address _ | .writeWord address _ => address

def bytes : MemoryRequest → List UInt8
  | .read .. | .readByte _ | .readWord _ => []
  | .write _ bytes => bytes
  | .writeByte _ byte => [byte]
  | .writeWord _ word => Word.bytes word

def length : MemoryRequest → Nat
  | .read _ length => length
  | .readByte _ | .writeByte .. => 1
  | .readWord _ | .writeWord .. => 2
  | .write _ bytes => bytes.length

def isRead : MemoryRequest → Bool
  | .read .. | .readByte _ | .readWord _ => true
  | .write .. | .writeByte .. | .writeWord .. => false

def access (request : MemoryRequest) : Access :=
  if request.isRead then .read request.address request.length
  else .write request.address request.length

def perform {size : Nat} : MemoryRequest → MemoryAction size MemoryReply
  | .read address length => do
    let bytes ← Memory.read address length
    return .bytes bytes
  | .readByte address => do
    let byte ← Memory.readByte address
    return .byte byte
  | .readWord address => do
    let word ← Memory.readWord address
    return .word word
  | .write address bytes => do
    Memory.write address bytes
    return .written
  | .writeByte address byte => do
    Memory.writeByte address byte
    return .written
  | .writeWord address word => do
    Memory.writeWord address word
    return .written

/-- The request lies within a memory of this size; the sum is unbounded. -/
def Fits (size : Nat) (request : MemoryRequest) : Prop :=
  request.address + request.length ≤ size

instance (size : Nat) (request : MemoryRequest) : Decidable (request.Fits size) :=
  inferInstanceAs (Decidable (_ ≤ _))

def reply (contents : Nat → UInt8) : MemoryRequest → MemoryReply
  | .read address length =>
    .bytes ((List.range length).map fun index => contents (address + index))
  | .readByte address => .byte (contents address)
  | .readWord address => .word (Word.ofBytes (contents address) (contents (address + 1)))
  | .write .. | .writeByte .. | .writeWord .. => .written

/-- The byte that the request stores at a position, if it succeeds and covers it. -/
def stored? (size position : Nat) (request : MemoryRequest) : Option UInt8 :=
  if request.Fits size ∧ request.address ≤ position then
    request.bytes[position - request.address]?
  else none

theorem length_bytes {request : MemoryRequest} (writes : request.isRead = false) :
    request.bytes.length = request.length := by
  cases request with
  | read address length => cases writes
  | readByte address => cases writes
  | readWord address => cases writes
  | write address bytes => rfl
  | writeByte address byte => rfl
  | writeWord address word => rfl

theorem bytes_of_isRead {request : MemoryRequest} (reads : request.isRead = true) :
    request.bytes = [] := by
  cases request with
  | read address length => rfl
  | readByte address => rfl
  | readWord address => rfl
  | write address bytes => cases reads
  | writeByte address byte => cases reads
  | writeWord address word => cases reads

/-! ## One request -/

section Perform

variable {size : Nat} (request : MemoryRequest) (memory : Memory size)

theorem bind_reply {α : Type} {action : MemoryAction size α} {memory next : Memory size}
    {value : α} {accesses : List Access} {error : OutOfRange} {fits : Prop} [Decidable fits]
    (make : α → MemoryReply)
    (closed : action memory =
      if fits then ⟨.ok value, next, accesses⟩ else ⟨.error error, memory, []⟩) :
    (action >>= fun value => pure (make value)) memory =
      if fits then ⟨.ok (make value), next, accesses⟩ else ⟨.error error, memory, []⟩ := by
  by_cases within : fits
  · rw [if_pos within] at closed
    rw [if_pos within, Transition.bind_of_ok _ closed, Transition.pure_apply, List.append_nil]
  · rw [if_neg within] at closed
    rw [if_neg within, Transition.bind_of_error _ closed]

theorem perform_apply :
    request.perform memory =
      if request.Fits size then
        ⟨.ok (request.reply memory.byteAt),
          ⟨Memory.overwrite memory.cells request.address request.bytes,
            memory.counts.add request.access⟩, [request.access]⟩
      else ⟨.error ⟨request.address, request.length⟩, memory, []⟩ := by
  cases request with
  | read address length => exact bind_reply _ (Memory.read_apply memory address length)
  | readByte address => exact bind_reply _ (Memory.readByte_apply memory address)
  | readWord address => exact bind_reply _ (Memory.readWord_apply memory address)
  | write address bytes => exact bind_reply _ (Memory.write_apply memory address bytes)
  | writeByte address byte => exact bind_reply _ (Memory.write_apply memory address [byte])
  | writeWord address word =>
    exact bind_reply _ (Memory.write_apply memory address (Word.bytes word))

theorem byteAt_perform (position : Nat) :
    (request.perform memory).state.byteAt position =
      (request.stored? size position).getD (memory.byteAt position) := by
  rw [perform_apply, stored?]
  by_cases fits : request.Fits size
  · rw [if_pos fits]
    -- A read stores nothing, however long it is.
    have inside : request.address + request.bytes.length ≤ size := by
      cases reads : request.isRead with
      | true =>
        rw [bytes_of_isRead reads]
        exact Nat.le_trans (Nat.add_le_add_left (Nat.zero_le _) _) fits
      | false =>
        rw [length_bytes reads]
        exact fits
    rw [Memory.byteAt_overwrite _ _ _ _ inside]
    by_cases covered : request.address ≤ position
    · rw [if_pos covered, if_pos ⟨fits, covered⟩]
      rfl
    · rw [if_neg covered, if_neg fun both => covered both.2]
      rfl
  · rw [if_neg fits, if_neg fun both => fits both.1, Option.getD_none]

theorem counts_perform :
    (request.perform memory).state.counts =
      if request.Fits size then memory.counts.add request.access else memory.counts := by
  rw [perform_apply]
  by_cases fits : request.Fits size
  · rw [if_pos fits, if_pos fits]
  · rw [if_neg fits, if_neg fits]

end Perform

section Position

variable {size position : Nat} {request : MemoryRequest}

theorem stored?_of_inside (fits : request.Fits size) {index : Nat}
    (inside : index < request.bytes.length) :
    request.stored? size (request.address + index) = some request.bytes[index] := by
  rw [stored?, if_pos ⟨fits, Nat.le_add_right _ _⟩, Nat.add_sub_cancel_left,
    List.getElem?_eq_getElem inside]

theorem stored?_of_outside
    (outside : position < request.address ∨ request.address + request.bytes.length ≤ position) :
    request.stored? size position = none := by
  unfold stored?
  split
  · next both =>
    apply List.getElem?_eq_none
    omega
  · rfl

end Position

end MemoryRequest

/-! ## Many requests -/

/-- The memory behind some requests, those that fail included. -/
def Memory.after {size : Nat} (memory : Memory size) (history : List MemoryRequest) :
    Memory size :=
  history.foldl (fun memory request => (request.perform memory).state) memory

/-- The byte most recently stored at a position, or the zero that memory starts with. -/
def lastWritten (size : Nat) (history : List MemoryRequest) (position : Nat) : UInt8 :=
  (history.reverse.findSome? fun request => request.stored? size position).getD 0

/-- How many of the requests succeed, and how many bytes they move. -/
def ledger (size : Nat) (history : List MemoryRequest) : AccessCounts :=
  let succeeding := history.filter fun request => request.Fits size
  let reads := succeeding.filter fun request => request.isRead
  let writes := succeeding.filter fun request => !request.isRead
  { bytesRead := (reads.map MemoryRequest.length).sum
    bytesWritten := (writes.map MemoryRequest.length).sum
    reads := reads.length
    writes := writes.length }

section Concat

variable {size : Nat} (history : List MemoryRequest) (request : MemoryRequest)

theorem Memory.after_concat (memory : Memory size) :
    memory.after (history ++ [request]) = (request.perform (memory.after history)).state := by
  rw [after, List.foldl_append]
  rfl

theorem lastWritten_concat (position : Nat) :
    lastWritten size (history ++ [request]) position =
      (request.stored? size position).getD (lastWritten size history position) := by
  rw [lastWritten, List.reverse_concat, List.findSome?_cons]
  cases request.stored? size position <;> rfl

theorem ledger_concat :
    ledger size (history ++ [request]) =
      if request.Fits size then (ledger size history).add request.access
      else ledger size history := by
  by_cases fits : request.Fits size
  · cases reads : request.isRead <;>
      simp [ledger, List.filter_append, fits, reads, MemoryRequest.access, AccessCounts.add]
  · simp [ledger, List.filter_append, fits]

end Concat

section History

variable {size : Nat} (history : List MemoryRequest)

theorem Memory.byteAt_after (position : Nat) :
    ((Memory.zero size).after history).byteAt position = lastWritten size history position := by
  induction history using List.reverseRecOn with
  | nil => exact Memory.byteAt_zero position
  | append_singleton history request ih =>
    rw [Memory.after_concat, MemoryRequest.byteAt_perform, ih, lastWritten_concat]

/-- The byte beyond the end is not stored, and one of the word's is stored over. -/
example : (Memory.after (.zero 16) [.writeWord 4 0x1234, .writeByte 16 7, .write 5 [9]]).slice 3 4 =
    [0, 0x34, 9, 0] := by decide

theorem Memory.counts_after :
    ((Memory.zero size).after history).counts = ledger size history := by
  induction history using List.reverseRecOn with
  | nil => rfl
  | append_singleton history request ih =>
    rw [Memory.after_concat, MemoryRequest.counts_perform, ih, ledger_concat]

example :
    ledger 16 [.write 0 [1, 2, 3], .readWord 0, .readWord 15, .readByte 2] = ⟨3, 3, 2, 1⟩ := by
  decide

/-- Whether a request succeeds is no matter of what came before it. -/
theorem MemoryRequest.succeeds_iff (request : MemoryRequest) (memory : Memory size) :
    (∃ reply, (request.perform memory).result = .ok reply) ↔ request.Fits size := by
  rw [perform_apply]
  by_cases fits : request.Fits size
  · simp [fits]
  · simp [fits]

end History

/-! ## Words -/

namespace Memory

variable {size : Nat} (memory : Memory size) (address : Nat)

theorem result_readByte_eq_ok_iff {byte : UInt8} :
    (readByte address memory).result = .ok byte ↔
      address + 1 ≤ size ∧ memory.byteAt address = byte := by
  rw [readByte_apply]
  by_cases fits : address + 1 ≤ size
  · simp [fits]
  · simp [fits]

theorem result_readWord_eq_ok_iff {word : UInt16} :
    (readWord address memory).result = .ok word ↔
      ∃ low high, (readByte address memory).result = .ok low ∧
        (readByte (address + 1) memory).result = .ok high ∧
        word.toNat = low.toNat + 256 * high.toNat := by
  have joined : ∀ low high : UInt8,
      word.toNat = low.toNat + 256 * high.toNat ↔ Word.ofBytes low high = word := by
    intro low high
    rw [← Word.toNat_ofBytes, UInt16.toNat_inj, eq_comm]
  simp only [result_readByte_eq_ok_iff, joined, readWord_apply]
  by_cases fits : address + 2 ≤ size
  · have lower : address + 1 ≤ size := by omega
    simp [fits, lower]
  · simp [fits]

def writeBytewise (word : UInt16) : MemoryAction size Unit := do
  writeByte address (Word.low word)
  writeByte (address + 1) (Word.high word)

theorem writeBytewise_of_writeWord {word : UInt16}
    (written : (writeWord address word memory).result = .ok ()) :
    (writeBytewise address word memory).result = .ok () ∧
      (writeBytewise address word memory).state.cells =
        (writeWord address word memory).state.cells := by
  have closed := write_apply memory address (Word.bytes word)
  by_cases fits : address + (Word.bytes word).length ≤ size
  · have lower : address + 1 ≤ size := Nat.le_of_succ_le fits
    have first := (write_apply memory address [Word.low word]).trans (if_pos lower)
    have both : writeBytewise address word memory = _ := Transition.bind_of_ok _ first
    rw [both, writeByte, write_apply, writeWord, closed, if_pos fits]
    rw [if_pos (show address + 1 + [Word.high word].length ≤ size from fits)]
    exact ⟨rfl, rfl⟩
  · rw [writeWord, closed, if_neg fits] at written
    cases written

end Memory

/-! ## The range check in numbers of limited size -/

/-- The check of an access whose end may be too large to be a number. -/
def Memory.requireChecked {size : Nat} (address length : Nat) : MemoryAction size Unit :=
  match checkedAdd? address length with
  | some last => if last ≤ size then Transition.done () else Transition.fail ⟨address, length⟩
  | none => Transition.fail ⟨address, length⟩

/-- Where an access cannot end there is no memory, so the check needs no larger numbers. -/
theorem Memory.requireChecked_eq {size : Nat} (limited : size < numberLimit)
    (address length : Nat) :
    (requireChecked address length : MemoryAction size Unit) = require address length := by
  rw [requireChecked, require]
  rcases Nat.lt_or_ge (address + length) numberLimit with small | large
  · rw [checkedAdd?_of_lt small]
  · have beyond : ¬ address + length ≤ size := by omega
    rw [checkedAdd?_of_le large, if_neg beyond]

/-! ## The refinement -/

/-- Memory of `size` bytes is a byte map with a ledger, whatever it was asked to do. -/
structure ByteMapRefinement (size : Nat) : Prop where
  succeeds_iff : ∀ (history : List MemoryRequest) (request : MemoryRequest),
    (∃ reply, (request.perform ((Memory.zero size).after history)).result = .ok reply) ↔
      request.address + request.length ≤ size
  /-- Nothing can be accessed up to the end, and not behind it. -/
  empty_access : ∀ (history : List MemoryRequest) (request : MemoryRequest), request.length = 0 →
    ((∃ reply, (request.perform ((Memory.zero size).after history)).result = .ok reply) ↔
      request.address ≤ size)
  /-- The end of an access is not taken modulo the number of addresses. -/
  never_wraps : size < 2 ^ 64 → ∀ (history : List MemoryRequest) (request : MemoryRequest),
    2 ^ 64 ≤ request.address + request.length →
      (request.perform ((Memory.zero size).after history)).result =
        .error ⟨request.address, request.length⟩
  checked : size < numberLimit → ∀ address length : Nat,
    (Memory.requireChecked address length : MemoryAction size Unit) =
      Memory.require address length
  refusal : ∀ (history : List MemoryRequest) (request : MemoryRequest) (error : OutOfRange),
    (request.perform ((Memory.zero size).after history)).result = .error error →
      error = ⟨request.address, request.length⟩ ∧
        (Memory.zero size).after (history ++ [request]) = (Memory.zero size).after history
  answer : ∀ (history : List MemoryRequest) (request : MemoryRequest) (reply : MemoryReply),
    (request.perform ((Memory.zero size).after history)).result = .ok reply →
      reply = request.reply (lastWritten size history)
  contents : ∀ (history : List MemoryRequest) (position : Nat),
    ((Memory.zero size).after history).byteAt position = lastWritten size history position
  stores : ∀ (history : List MemoryRequest) (request : MemoryRequest), request.Fits size →
    ∀ (index : Nat) (inside : index < request.bytes.length),
      ((Memory.zero size).after (history ++ [request])).byteAt (request.address + index) =
        request.bytes[index]
  keeps : ∀ (history : List MemoryRequest) (request : MemoryRequest) (position : Nat),
    position < request.address ∨ request.address + request.bytes.length ≤ position →
      ((Memory.zero size).after (history ++ [request])).byteAt position =
        ((Memory.zero size).after history).byteAt position
  word_read : ∀ (memory : Memory size) (address : Nat) (word : UInt16),
    (Memory.readWord address memory).result = .ok word ↔
      ∃ low high, (Memory.readByte address memory).result = .ok low ∧
        (Memory.readByte (address + 1) memory).result = .ok high ∧
        word.toNat = low.toNat + 256 * high.toNat
  word_write : ∀ (memory : Memory size) (address : Nat) (word : UInt16),
    (Memory.writeWord address word memory).result = .ok () →
      (Memory.writeBytewise address word memory).result = .ok () ∧
        (Memory.writeBytewise address word memory).state.cells =
          (Memory.writeWord address word memory).state.cells
  counts : ∀ history : List MemoryRequest,
    ((Memory.zero size).after history).counts = ledger size history

theorem Memory.refines_byteMap (size : Nat) : ByteMapRefinement size where
  succeeds_iff := by
    intro history request
    exact request.succeeds_iff _
  empty_access := by
    intro history request empty
    rw [request.succeeds_iff, MemoryRequest.Fits, empty, Nat.add_zero]
  never_wraps := by
    intro small history request wraps
    have beyond : ¬ request.Fits size := by
      unfold MemoryRequest.Fits
      omega
    rw [MemoryRequest.perform_apply, if_neg beyond]
  checked := Memory.requireChecked_eq
  refusal := by
    intro history request error refused
    rw [Memory.after_concat]
    rw [MemoryRequest.perform_apply] at refused ⊢
    split at refused
    · cases refused
    · next beyond =>
      cases refused
      exact ⟨rfl, by rw [if_neg beyond]⟩
  answer := by
    intro history request reply replied
    have contents : ((Memory.zero size).after history).byteAt = lastWritten size history :=
      funext (Memory.byteAt_after history)
    rw [MemoryRequest.perform_apply, contents] at replied
    split at replied
    · cases replied
      rfl
    · cases replied
  contents := by
    intro history position
    exact Memory.byteAt_after history position
  stores := by
    intro history request fits index inside
    rw [Memory.after_concat, MemoryRequest.byteAt_perform,
      MemoryRequest.stored?_of_inside fits inside, Option.getD_some]
  keeps := by
    intro history request position outside
    rw [Memory.after_concat, MemoryRequest.byteAt_perform,
      MemoryRequest.stored?_of_outside outside, Option.getD_none]
  word_read := by
    intro memory address word
    exact Memory.result_readWord_eq_ok_iff memory address
  word_write := by
    intro memory address word written
    exact Memory.writeBytewise_of_writeWord memory address written
  counts := by
    intro history
    exact Memory.counts_after history

end Mini8086
