import Mini8086.Proofs.Steps

/-!
# Code inside larger programs

A jump is measured in bytes from where it stands, so a program may be put between other code: its
jumps lead to the same instructions, except for those that found no target because the program was
too short.  Main statement, `Execution.relocation`: steps that succeed in a program succeed wherever
the program stands, and do the same there.
-/

set_option autoImplicit false

namespace Mini8086

/-! ## Distances in longer rows -/

/-- Items behind the place where a distance ends are not looked at. -/
theorem stride_append_of_reached {lengths : List Nat} {distance : Nat}
    (reached : stride lengths distance ≠ .beyond) (more : List Nat) :
    stride (lengths ++ more) distance = stride lengths distance := by
  induction lengths generalizing distance with
  | nil =>
    by_cases arrived : distance = 0
    · subst arrived
      simp
    · exact absurd (stride_nil arrived) reached
  | cons length others ih =>
    by_cases arrived : distance = 0
    · subst arrived
      simp
    · rw [List.cons_append, stride_cons _ _ arrived, stride_cons _ _ arrived]
      rw [stride_cons _ _ arrived] at reached
      by_cases short : distance < length
      · rw [if_pos short, if_pos short]
      · rw [if_neg short] at reached
        rw [if_neg short, if_neg short,
          ih fun lost => reached (Stride.next_eq_beyond_iff.mpr lost)]

section Lengths

variable {ι : Type} (length : ι → Nat) (front body back : Array ι) {index : Nat}

theorem drop_lengths_between (inside : index < body.size) :
    ((front ++ body ++ back).toList.map length).drop (front.size + index + 1) =
      (body.toList.map length).drop (index + 1) ++ back.toList.map length := by
  have few : index + 1 ≤ (body.toList.map length).length := by simpa using inside
  have place : front.size + index + 1 = (front.toList.map length).length + (index + 1) := by
    simp
    omega
  rw [Array.toList_append, Array.toList_append, List.map_append, List.map_append,
    List.append_assoc, place, List.drop_length_add_append, List.drop_append_of_le_length few]

theorem take_lengths_between (inside : index < body.size) :
    ((front ++ body ++ back).toList.map length).take (front.size + index + 1) =
      front.toList.map length ++ (body.toList.map length).take (index + 1) := by
  have few : index + 1 ≤ (body.toList.map length).length := by simpa using inside
  have place : front.size + index + 1 = (front.toList.map length).length + (index + 1) := by
    simp
    omega
  rw [Array.toList_append, Array.toList_append, List.map_append, List.map_append,
    List.append_assoc, place, List.take_length_add_append, List.take_append_of_le_length few]

end Lengths

/-! ## Jumps -/

def JumpError.behind (count : Nat) : JumpError → JumpError
  | .outOfRange index offset => .outOfRange (count + index) offset
  | .misaligned index offset => .misaligned (count + index) offset

def behindJump (count : Nat) (jump : Except JumpError Nat) : Except JumpError Nat :=
  (jump.map (count + ·)).mapError (JumpError.behind count)

/-- A distance that ends in a row ends at the same item when more items follow; `place` and `moved`
name that item before and behind `count` others. -/
theorem target_append {lengths : List Nat} {distance count index : Nat} {offset : Int}
    {place moved : Nat → Nat}
    (same : ∀ passed ≤ lengths.length, moved passed = count + place passed)
    (stays : (stride lengths distance).target place index offset ≠
      .error (.outOfRange index offset)) (more : List Nat) :
    (stride (lengths ++ more) distance).target moved (count + index) offset =
      behindJump count ((stride lengths distance).target place index offset) := by
  have reached : stride lengths distance ≠ .beyond :=
    fun lost => stays (Stride.target_eq_outOfRange_iff.mpr lost)
  rw [stride_append_of_reached reached]
  cases ended : stride lengths distance with
  | lands passed =>
    have few := (stride_eq_lands_iff.mp ended).1
    simp [Stride.target, behindJump, Except.map, Except.mapError, same passed few]
  | inside => rfl
  | beyond => exact absurd ended reached

section Jumps

variable {ι : Type} {length : ι → Nat} (front : Array ι) {body : Array ι} (back : Array ι)
  {index : Nat} {offset : Int} (inside : index < body.size)

include inside

theorem inside_between : front.size + index < (front ++ body ++ back).size := by
  rw [Array.size_append, Array.size_append]
  omega

/-- A jump that does not leave its items ends at the same place between others. -/
theorem resolveJump_between
    (stays : resolveJump length body index offset ≠ .error (.outOfRange index offset)) :
    resolveJump length (front ++ body ++ back) (front.size + index) offset =
      behindJump front.size (resolveJump length body index offset) := by
  have within := inside_between front back inside
  rcases Int.lt_or_le offset 0 with backward | forward
  · rw [resolveJump_backward inside backward] at stays ⊢
    rw [resolveJump_backward within backward, take_lengths_between length front body back inside,
      List.reverse_append]
    refine target_append ?_ stays _
    intro passed few
    rw [List.length_reverse, List.length_take] at few
    omega
  · rw [resolveJump_forward inside forward] at stays ⊢
    rw [resolveJump_forward within forward, drop_lengths_between length front body back inside]
    refine target_append ?_ stays _
    intro passed _
    omega

end Jumps

/-- A jump back that leaves its items may find a target among the items put in front. -/
example : resolveJump id #[2] 0 (-5) = .error (.outOfRange 0 (-5)) ∧
    resolveJump id (#[3] ++ #[2]) 1 (-5) = .ok 0 := by decide

/-! ## Steps -/

namespace Execution

variable {rule : SignRule} (front : Program) {body : Program} (back : Program)

theorem target_between {index next : Nat} {offset : Int} (inside : index < body.size)
    (aimed : target body index offset = .ok next) :
    target (front ++ body ++ back) (front.size + index) offset = .ok (front.size + next) := by
  have within := inside_between front back inside
  rw [target_eq inside] at aimed
  rw [target_eq within]
  cases found : resolveJump Instruction.length body index offset with
  | error cause =>
    rw [found] at aimed
    cases aimed
  | ok place =>
    rw [found] at aimed
    cases aimed
    rw [resolveJump_between front back inside (by rw [found]; nofun), found]
    rfl

theorem step_between {machine last : Machine} (stepped : (step rule body).LeadsTo machine last) :
    (step rule (front ++ body ++ back)).LeadsTo (machine.atIndex (front.size + machine.ip))
      (last.atIndex (front.size + last.ip)) := by
  have inside := ip_lt_size_of_step stepped
  obtain ⟨instruction, offset, next, found, executed, aimed, rfl⟩ := executed_of_step stepped
  have moved : (front ++ body ++ back)[front.size + machine.ip]? = some instruction := by
    rw [Array.append_assoc, Array.getElem?_append_right (Nat.le_add_right _ _),
      Nat.add_sub_cancel_left, Array.getElem?_append_left inside, found]
  refine (step_leadsTo_iff moved).mpr
    ⟨offset, front.size + next, ?_, target_between front back inside aimed, ?_⟩
  · rw [instruction.result_execute_atIndex, executed]
    rfl
  · rw [instruction.state_execute_atIndex]
    rfl

theorem steps_between {count : Nat} {machine last : Machine}
    (stepped : ((step rule body).times count).LeadsTo machine last) :
    ((step rule (front ++ body ++ back)).times count).LeadsTo
      (machine.atIndex (front.size + machine.ip)) (last.atIndex (front.size + last.ip)) := by
  induction count generalizing machine with
  | zero =>
    rw [Transition.times_zero_leadsTo_iff] at stepped ⊢
    rw [stepped]
  | succ count ih =>
    obtain ⟨next, first, others⟩ := Transition.times_succ_leadsTo_iff.mp stepped
    exact Transition.times_succ_leadsTo_iff.mpr
      ⟨_, step_between front back first, ih others⟩

end Execution

/-! ## Relocation -/

/-- How a jump of the item at `index` of `body` ends when `front` and `back` are put around it. -/
structure JumpRelocates {ι : Type} (length : ι → Nat) (front body back : Array ι) (index : Nat)
    (offset : Int) : Prop where
  lands : ∀ target, resolveJump length body index offset = .ok target →
    resolveJump length (front ++ body ++ back) (front.size + index) offset =
      .ok (front.size + target)
  misaligned : resolveJump length body index offset = .error (.misaligned index offset) →
    resolveJump length (front ++ body ++ back) (front.size + index) offset =
      .error (.misaligned (front.size + index) offset)
  unless_left : resolveJump length body index offset ≠ .error (.outOfRange index offset) →
    resolveJump length (front ++ body ++ back) (front.size + index) offset =
      behindJump front.size (resolveJump length body index offset)

/-- A step succeeds only at an index of its program, so steps that succeed have not left it before
the last one. -/
theorem Execution.relocation :
    (∀ (ι : Type) (length : ι → Nat) (front body back : Array ι) (index : Nat) (offset : Int),
        index < body.size → JumpRelocates length front body back index offset) ∧
      ∀ (rule : SignRule) (front body back : Program) (count : Nat) (machine last : Machine),
        ((step rule body).times count).LeadsTo machine last →
          ((step rule (front ++ body ++ back)).times count).LeadsTo
            (machine.atIndex (front.size + machine.ip))
            (last.atIndex (front.size + last.ip)) := by
  constructor
  · intro ι length front body back index offset inside
    refine ⟨?_, ?_, resolveJump_between front back inside⟩
    · intro target found
      rw [resolveJump_between front back inside (by rw [found]; nofun), found]
      rfl
    · intro missed
      rw [resolveJump_between front back inside (by rw [missed]; nofun), missed]
      rfl
  · intro rule front body back count machine last stepped
    exact steps_between front back stepped

end Mini8086
