/-!
# Jump targets

A jump distance is counted in bytes from the end of the jumping item; a target is the index of an
item, where the index behind the last one is the end of the row. `stride` counts how many items of
given lengths make up a distance, the fewest if some have no length. `walk` is the same count over
lengths that are looked up one by one, so that a jump costs no more than the items it passes;
`resolveJump_eq` puts jumps in terms of `stride`.
-/

set_option autoImplicit false

namespace Mini8086

inductive JumpError where
  /-- The program has too few bytes in the direction of the jump. -/
  | outOfRange (index : Nat) (offset : Int)
  | misaligned (index : Nat) (offset : Int)
  deriving DecidableEq

def JumpError.message : JumpError → String
  | .outOfRange index offset =>
    "jump of " ++ offset.repr ++ " bytes from instruction " ++ index.repr ++ " leaves the program"
  | .misaligned index offset =>
    "jump of " ++ offset.repr ++ " bytes from instruction " ++ index.repr ++
      " lands inside an instruction"

inductive Stride where
  /-- Behind the first `count` instructions. -/
  | lands (count : Nat)
  | inside
  | beyond
  deriving DecidableEq

def Stride.next : Stride → Stride
  | .lands count => .lands (count + 1)
  | .inside => .inside
  | .beyond => .beyond

/-- Where `distance` bytes end in a row of instructions with these lengths. -/
def stride (lengths : List Nat) (distance : Nat) : Stride :=
  if distance = 0 then
    .lands 0
  else
    match lengths with
    | [] => .beyond
    | length :: others =>
      if distance < length then .inside else (stride others (distance - length)).next

/-- Where `distance` bytes end in a row of `room` lengths. `lengthAt` names the lengths in the order
they are passed in, and `passed` of them lie behind. -/
def walk (lengthAt : Nat → Nat) (passed room distance : Nat) : Stride :=
  if distance = 0 then
    .lands passed
  else
    match room with
    | 0 => .beyond
    | room + 1 =>
      let length := lengthAt passed
      if distance < length then .inside else walk lengthAt (passed + 1) room (distance - length)

def Stride.target (place : Nat → Nat) (index : Nat) (offset : Int) : Stride → Except JumpError Nat
  | .lands count => .ok (place count)
  | .inside => .error (.misaligned index offset)
  | .beyond => .error (.outOfRange index offset)

/-- The index that a jump of `offset` bytes from the item at `index` leads to. Backward, the
distance includes the jumping item itself. -/
def resolveJump {ι : Type} (length : ι → Nat) (items : Array ι) (index : Nat) (offset : Int) :
    Except JumpError Nat :=
  let lengthAt := fun index => items[index]?.elim 0 length
  if items.size ≤ index then
    .error (.outOfRange index offset)
  else if offset < 0 then
    (walk (fun passed => lengthAt (index - passed)) 0 (index + 1) offset.natAbs).target
      (fun count => index + 1 - count) index offset
  else
    (walk (fun passed => lengthAt (index + 1 + passed)) 0 (items.size - (index + 1))
      offset.natAbs).target (fun count => index + 1 + count) index offset

/-! ## Laws -/

@[simp]
theorem stride_zero (lengths : List Nat) : stride lengths 0 = .lands 0 := by
  rw [stride.eq_def, if_pos rfl]

theorem stride_nil {distance : Nat} (positive : distance ≠ 0) : stride [] distance = .beyond := by
  rw [stride.eq_def, if_neg positive]

theorem stride_cons {distance : Nat} (length : Nat) (others : List Nat) (positive : distance ≠ 0) :
    stride (length :: others) distance =
      if distance < length then .inside else (stride others (distance - length)).next := by
  rw [stride.eq_def, if_neg positive]

def Stride.after (count : Nat) : Stride → Stride
  | .lands more => .lands (count + more)
  | .inside => .inside
  | .beyond => .beyond

@[simp]
theorem Stride.after_zero (stride : Stride) : stride.after 0 = stride := by
  cases stride <;> simp [Stride.after]

theorem Stride.after_next (count : Nat) (stride : Stride) :
    stride.next.after count = stride.after (count + 1) := by
  cases stride <;> simp [Stride.after, Stride.next, Nat.add_comm, Nat.add_left_comm]

theorem walk_eq_stride (lengthAt : Nat → Nat) (passed room distance : Nat) :
    walk lengthAt passed room distance =
      (stride ((List.range' passed room).map lengthAt) distance).after passed := by
  induction room generalizing passed distance with
  | zero =>
    by_cases arrived : distance = 0
    · subst arrived
      simp [walk, Stride.after]
    · simp [walk, arrived, stride_nil arrived, Stride.after]
  | succ room ih =>
    by_cases arrived : distance = 0
    · subst arrived
      simp [walk, Stride.after]
    · rw [List.range'_succ, List.map_cons, stride_cons _ _ arrived, walk.eq_def, if_neg arrived]
      by_cases short : distance < lengthAt passed
      · simp [short, Stride.after]
      · simp [short, ih, Stride.after_next]

section Items

variable {ι : Type} (length : ι → Nat) (items : Array ι)

theorem lengths_behind (index : Nat) :
    (List.range' 0 (items.size - (index + 1))).map
        (fun passed => items[index + 1 + passed]?.elim 0 length) =
      (items.toList.map length).drop (index + 1) := by
  apply List.ext_getElem
  · simp
  · intro position inside _
    have within : index + 1 + position < items.size := by
      simp only [List.length_map, List.length_range'] at inside
      omega
    simp [within]

theorem lengths_before {index : Nat} (inside : index < items.size) :
    (List.range' 0 (index + 1)).map (fun passed => items[index - passed]?.elim 0 length) =
      ((items.toList.map length).take (index + 1)).reverse := by
  apply List.ext_getElem
  · simp
    omega
  · intro position bound _
    have within : index - position < items.size := by omega
    have below : position < index + 1 := by simpa using bound
    have same : min (index + 1) items.size - 1 - position = index - position := by omega
    simp [within, same]

/-- A jump depends on the lengths of the items alone. -/
theorem resolveJump_eq (index : Nat) (offset : Int) :
    resolveJump length items index offset =
      if items.size ≤ index then
        .error (.outOfRange index offset)
      else if offset < 0 then
        (stride ((items.toList.map length).take (index + 1)).reverse offset.natAbs).target
          (fun count => index + 1 - count) index offset
      else
        (stride ((items.toList.map length).drop (index + 1)) offset.natAbs).target
          (fun count => index + 1 + count) index offset := by
  by_cases outside : items.size ≤ index
  · simp [resolveJump, outside]
  · have inside : index < items.size := by omega
    simp only [resolveJump, if_neg outside, walk_eq_stride, Stride.after_zero,
      lengths_before length items inside, lengths_behind length items]

end Items

end Mini8086
