import Mini8086.Proofs.Address
import Mini8086.Word

/-!
# Where jumps lead

A jump leads to the nearest index, in its direction, that is as many bytes away as it asks for.
Items may have no length, so several indices may be that far away.  Main statement,
`resolveJump_exact`: a jump ends exactly as `JumpsTo` says, and a walk in numbers of limited size
that checks every look-up and every number that it computes ends the same.
-/

set_option autoImplicit false

namespace Mini8086

/-! ## Bytes between indices -/

def bytesBetween (lengths : List Nat) (first last : Nat) : Nat :=
  ((lengths.take last).drop first).sum

theorem addressIn_drop (lengths : List Nat) (first count : Nat) :
    addressIn (lengths.drop first) count = bytesBetween lengths first (first + count) := by
  rw [addressIn, bytesBetween, List.take_drop]

theorem sum_drop (lengths : List Nat) (first : Nat) :
    (lengths.drop first).sum = bytesBetween lengths first lengths.length := by
  rw [bytesBetween, List.take_length]

theorem bytesBetween_zero (lengths : List Nat) (last : Nat) :
    bytesBetween lengths 0 last = addressIn lengths last := rfl

theorem addressIn_take_reverse {lengths : List Nat} {last : Nat} (inside : last ≤ lengths.length)
    (count : Nat) :
    addressIn (lengths.take last).reverse count = bytesBetween lengths (last - count) last := by
  rw [addressIn, List.take_reverse, List.length_take_of_le inside, List.sum_reverse]
  rfl

/-! ## Targets -/

/-- The indices behind the item at `index` that lie `offset` bytes behind its end. -/
def targetsAhead (lengths : List Nat) (index : Nat) (offset : Int) : Set Nat :=
  {target | index + 1 ≤ target ∧ target ≤ lengths.length ∧
    (bytesBetween lengths (index + 1) target : Int) = offset}

/-- The indices up to `index` that lie `-offset` bytes in front of the end of its item. -/
def targetsBack (lengths : List Nat) (index : Nat) (offset : Int) : Set Nat :=
  {target | target ≤ index ∧ (bytesBetween lengths target (index + 1) : Int) = -offset}

/-- How a jump of `offset` bytes from the item at `index` ends. -/
inductive JumpsTo (lengths : List Nat) (index : Nat) (offset : Int) :
    Except JumpError Nat → Prop where
  | outside (beyond : lengths.length ≤ index) :
      JumpsTo lengths index offset (.error (.outOfRange index offset))
  | ahead {target : Nat} (inside : index < lengths.length) (forward : 0 ≤ offset)
      (nearest : IsLeast (targetsAhead lengths index offset) target) :
      JumpsTo lengths index offset (.ok target)
  | insideAhead (inside : index < lengths.length) (forward : 0 ≤ offset)
      (enough : offset ≤ bytesBetween lengths (index + 1) lengths.length)
      (missed : targetsAhead lengths index offset = ∅) :
      JumpsTo lengths index offset (.error (.misaligned index offset))
  | beyondEnd (inside : index < lengths.length) (forward : 0 ≤ offset)
      (few : bytesBetween lengths (index + 1) lengths.length < offset) :
      JumpsTo lengths index offset (.error (.outOfRange index offset))
  | back {target : Nat} (inside : index < lengths.length) (backward : offset < 0)
      (nearest : IsGreatest (targetsBack lengths index offset) target) :
      JumpsTo lengths index offset (.ok target)
  | insideBack (inside : index < lengths.length) (backward : offset < 0)
      (enough : -offset ≤ bytesBetween lengths 0 (index + 1))
      (missed : targetsBack lengths index offset = ∅) :
      JumpsTo lengths index offset (.error (.misaligned index offset))
  | beforeStart (inside : index < lengths.length) (backward : offset < 0)
      (few : bytesBetween lengths 0 (index + 1) < -offset) :
      JumpsTo lengths index offset (.error (.outOfRange index offset))

/-! ## Strides to the nearest index -/

theorem stride_eq_lands_iff_isLeast {lengths : List Nat} {distance count : Nat} :
    stride lengths distance = .lands count ↔
      IsLeast {passed | passed ≤ lengths.length ∧ addressIn lengths passed = distance} count := by
  rw [stride_eq_lands_iff]
  constructor
  · intro landed
    obtain ⟨few, lands, nearer⟩ := landed
    refine ⟨⟨few, lands⟩, ?_⟩
    intro passed reached
    by_contra before
    have short := nearer passed (by omega)
    have exact := reached.2
    omega
  · intro least
    obtain ⟨⟨few, lands⟩, nearest⟩ := least
    refine ⟨few, lands, ?_⟩
    intro fewer below
    have atMost : addressIn lengths fewer ≤ addressIn lengths count :=
      addressIn_mono lengths (Nat.le_of_lt below)
    have elsewhere : addressIn lengths fewer ≠ distance := by
      intro same
      have bound : count ≤ fewer := nearest ⟨by omega, same⟩
      omega
    omega

/-- A distance ends inside an item when the items are long enough and no index is that far. -/
theorem stride_eq_inside_iff_missed {lengths : List Nat} {distance : Nat} :
    stride lengths distance = .inside ↔
      distance ≤ lengths.sum ∧ ∀ passed ≤ lengths.length, addressIn lengths passed ≠ distance := by
  constructor
  · intro within
    refine ⟨?_, ?_⟩
    · by_contra few
      have beyond := stride_eq_beyond_iff.mpr (Nat.lt_of_not_le few)
      rw [within] at beyond
      cases beyond
    · intro passed _ same
      obtain ⟨item, _, below, above⟩ := stride_eq_inside_iff.mp within
      rcases Nat.lt_or_ge item passed with behind | before
      · have order : addressIn lengths (item + 1) ≤ addressIn lengths passed :=
          addressIn_mono lengths behind
        omega
      · have order : addressIn lengths passed ≤ addressIn lengths item :=
          addressIn_mono lengths before
        omega
  · intro between
    obtain ⟨enough, missed⟩ := between
    cases reached : stride lengths distance with
    | inside => rfl
    | lands count =>
      obtain ⟨few, lands, _⟩ := stride_eq_lands_iff.mp reached
      exact absurd lands (missed count few)
    | beyond =>
      have few := stride_eq_beyond_iff.mp reached
      omega

section Ahead

variable {lengths : List Nat} {index : Nat} {offset : Int} (forward : 0 ≤ offset)

include forward

theorem mem_targetsAhead_iff {count : Nat} :
    index + 1 + count ∈ targetsAhead lengths index offset ↔
      index + 1 + count ≤ lengths.length ∧
        addressIn (lengths.drop (index + 1)) count = offset.natAbs := by
  rw [addressIn_drop, targetsAhead, Set.mem_ofPred_eq]
  omega

theorem stride_drop_eq_lands_iff (inside : index < lengths.length) {count : Nat} :
    stride (lengths.drop (index + 1)) offset.natAbs = .lands count ↔
      IsLeast (targetsAhead lengths index offset) (index + 1 + count) := by
  rw [stride_eq_lands_iff_isLeast, List.length_drop]
  constructor
  · intro least
    obtain ⟨⟨few, lands⟩, nearest⟩ := least
    refine ⟨(mem_targetsAhead_iff forward).mpr ⟨by omega, lands⟩, ?_⟩
    intro target reached
    obtain ⟨passed, rfl⟩ := Nat.exists_eq_add_of_le reached.1
    obtain ⟨listed, exact⟩ := (mem_targetsAhead_iff forward).mp reached
    have bound : count ≤ passed := nearest ⟨by omega, exact⟩
    omega
  · intro least
    obtain ⟨member, nearest⟩ := least
    obtain ⟨listed, lands⟩ := (mem_targetsAhead_iff forward).mp member
    refine ⟨⟨by omega, lands⟩, ?_⟩
    intro passed reached
    obtain ⟨few, exact⟩ := reached
    have bound : index + 1 + count ≤ index + 1 + passed :=
      nearest ((mem_targetsAhead_iff forward).mpr ⟨by omega, exact⟩)
    omega

theorem stride_drop_eq_beyond_iff :
    stride (lengths.drop (index + 1)) offset.natAbs = .beyond ↔
      bytesBetween lengths (index + 1) lengths.length < offset := by
  rw [stride_eq_beyond_iff, sum_drop]
  omega

theorem stride_drop_eq_inside_iff (inside : index < lengths.length) :
    stride (lengths.drop (index + 1)) offset.natAbs = .inside ↔
      offset ≤ bytesBetween lengths (index + 1) lengths.length ∧
        targetsAhead lengths index offset = ∅ := by
  rw [stride_eq_inside_iff_missed, sum_drop, List.length_drop, Set.eq_empty_iff_forall_notMem]
  apply and_congr (by omega)
  constructor
  · intro missed target reached
    obtain ⟨passed, rfl⟩ := Nat.exists_eq_add_of_le reached.1
    obtain ⟨listed, exact⟩ := (mem_targetsAhead_iff forward).mp reached
    exact missed passed (by omega) exact
  · intro missed passed few exact
    exact missed (index + 1 + passed) ((mem_targetsAhead_iff forward).mpr ⟨by omega, exact⟩)

end Ahead

section Back

variable {lengths : List Nat} {index : Nat} {offset : Int} (within : index + 1 ≤ lengths.length)
  (backward : offset < 0)

include within backward

/-- A jump back passes over its own item at least, so the end of that item is no target. -/
theorem mem_targetsBack_iff {count : Nat} (few : count ≤ index + 1) :
    index + 1 - count ∈ targetsBack lengths index offset ↔
      addressIn (lengths.take (index + 1)).reverse count = offset.natAbs := by
  rw [addressIn_take_reverse within, targetsBack, Set.mem_ofPred_eq]
  cases count with
  | zero =>
    have nothing : bytesBetween lengths (index + 1) (index + 1) = 0 := by simp [bytesBetween]
    rw [Nat.sub_zero, nothing]
    omega
  | succ count => omega

theorem mem_targetsBack_iff_of_le {target : Nat} (before : target ≤ index + 1) :
    target ∈ targetsBack lengths index offset ↔
      addressIn (lengths.take (index + 1)).reverse (index + 1 - target) = offset.natAbs := by
  rw [← mem_targetsBack_iff within backward (Nat.sub_le _ _), Nat.sub_sub_self before]

theorem stride_take_eq_lands_iff {count : Nat} :
    stride (lengths.take (index + 1)).reverse offset.natAbs = .lands count ↔
      count ≤ index + 1 ∧ IsGreatest (targetsBack lengths index offset) (index + 1 - count) := by
  rw [stride_eq_lands_iff_isLeast, List.length_reverse, List.length_take_of_le within]
  constructor
  · intro least
    obtain ⟨⟨few, lands⟩, nearest⟩ := least
    refine ⟨few, (mem_targetsBack_iff within backward few).mpr lands, ?_⟩
    intro target reached
    have before : target ≤ index + 1 := Nat.le_succ_of_le reached.1
    have exact := (mem_targetsBack_iff_of_le within backward before).mp reached
    have bound : count ≤ index + 1 - target := nearest ⟨Nat.sub_le _ _, exact⟩
    omega
  · intro greatest
    obtain ⟨few, member, nearest⟩ := greatest
    refine ⟨⟨few, (mem_targetsBack_iff within backward few).mp member⟩, ?_⟩
    intro passed reached
    obtain ⟨listed, exact⟩ := reached
    have bound : index + 1 - passed ≤ index + 1 - count :=
      nearest ((mem_targetsBack_iff within backward listed).mpr exact)
    omega

omit within in
theorem stride_take_eq_beyond_iff :
    stride (lengths.take (index + 1)).reverse offset.natAbs = .beyond ↔
      bytesBetween lengths 0 (index + 1) < -offset := by
  rw [stride_take_beyond_iff, bytesBetween_zero]
  omega

theorem stride_take_eq_inside_iff :
    stride (lengths.take (index + 1)).reverse offset.natAbs = .inside ↔
      -offset ≤ bytesBetween lengths 0 (index + 1) ∧ targetsBack lengths index offset = ∅ := by
  rw [stride_eq_inside_iff_missed, List.sum_reverse, List.length_reverse,
    List.length_take_of_le within, Set.eq_empty_iff_forall_notMem, ← addressIn, ← bytesBetween_zero]
  apply and_congr (by omega)
  constructor
  · intro missed target reached
    have before : target ≤ index + 1 := Nat.le_succ_of_le reached.1
    exact missed _ (Nat.sub_le _ _) ((mem_targetsBack_iff_of_le within backward before).mp reached)
  · intro missed passed few exact
    exact missed _ ((mem_targetsBack_iff within backward few).mpr exact)

end Back

/-! ## Jumps to the nearest index -/

section Items

variable {ι : Type} {length : ι → Nat} {items : Array ι} {index : Nat} {offset : Int}
  {result : Except JumpError Nat}

theorem jumpsTo_resolveJump (length : ι → Nat) (items : Array ι) (index : Nat) (offset : Int) :
    JumpsTo (items.toList.map length) index offset (resolveJump length items index offset) := by
  have size : (items.toList.map length).length = items.size := by simp
  rcases Nat.lt_or_ge index items.size with inside | beyond
  · have listed : index < (items.toList.map length).length := by omega
    rcases Int.lt_or_le offset 0 with backward | forward
    · rw [resolveJump_backward inside backward]
      cases reached : stride ((items.toList.map length).take (index + 1)).reverse offset.natAbs with
      | lands count =>
        exact .back listed backward ((stride_take_eq_lands_iff listed backward).mp reached).2
      | inside =>
        obtain ⟨enough, missed⟩ := (stride_take_eq_inside_iff listed backward).mp reached
        exact .insideBack listed backward enough missed
      | beyond =>
        exact .beforeStart listed backward ((stride_take_eq_beyond_iff backward).mp reached)
    · rw [resolveJump_forward inside forward]
      cases reached : stride ((items.toList.map length).drop (index + 1)) offset.natAbs with
      | lands count =>
        exact .ahead listed forward ((stride_drop_eq_lands_iff forward listed).mp reached)
      | inside =>
        obtain ⟨enough, missed⟩ := (stride_drop_eq_inside_iff forward listed).mp reached
        exact .insideAhead listed forward enough missed
      | beyond =>
        exact .beyondEnd listed forward ((stride_drop_eq_beyond_iff forward).mp reached)
  · rw [resolveJump_eq, if_pos beyond]
    exact .outside (by omega)

theorem JumpsTo.resolveJump_eq (jumps : JumpsTo (items.toList.map length) index offset result) :
    resolveJump length items index offset = result := by
  have size : (items.toList.map length).length = items.size := by simp
  cases jumps with
  | outside beyond => rw [Mini8086.resolveJump_eq, if_pos (by omega)]
  | ahead inside forward nearest =>
    obtain ⟨count, rfl⟩ := Nat.exists_eq_add_of_le nearest.1.1
    rw [resolveJump_forward (by omega) forward,
      (stride_drop_eq_lands_iff forward inside).mpr nearest]
    rfl
  | insideAhead inside forward enough missed =>
    rw [resolveJump_forward (by omega) forward,
      (stride_drop_eq_inside_iff forward inside).mpr ⟨enough, missed⟩]
    rfl
  | beyondEnd inside forward few =>
    rw [resolveJump_forward (by omega) forward, (stride_drop_eq_beyond_iff forward).mpr few]
    rfl
  | back inside backward nearest =>
    have before := Nat.le_succ_of_le nearest.1.1
    rw [← Nat.sub_sub_self before] at nearest ⊢
    rw [resolveJump_backward (by omega) backward,
      (stride_take_eq_lands_iff inside backward).mpr ⟨Nat.sub_le _ _, nearest⟩]
    rfl
  | insideBack inside backward enough missed =>
    rw [resolveJump_backward (by omega) backward,
      (stride_take_eq_inside_iff inside backward).mpr ⟨enough, missed⟩]
    rfl
  | beforeStart inside backward few =>
    rw [resolveJump_backward (by omega) backward, (stride_take_eq_beyond_iff backward).mpr few]
    rfl

end Items

/-! ## Walks in numbers of limited size -/

def IsOffset (offset : Int) : Prop :=
  -9223372036854775808 ≤ offset ∧ offset < 9223372036854775808

instance (offset : Int) : Decidable (IsOffset offset) :=
  inferInstanceAs (Decidable (_ ∧ _))

/-! A checked walk gives up with `none` where an item is not there to be looked at, and where a
number would be negative or too large. -/

namespace CheckedWalk

def subtract? (left right : Nat) : Option Nat :=
  if right ≤ left then some (left - right) else none

def distance? (offset : Int) : Option Nat :=
  if offset.natAbs < numberLimit then some offset.natAbs else none

/-- Walks back over the item at `target` and on, with `remaining` bytes to go. -/
def back? (lengths : Array Nat) (index : Nat) (offset : Int) (target remaining : Nat) :
    Option (Except JumpError Nat) := do
  let length ← lengths[target]?
  if remaining < length then
    return .error (.misaligned index offset)
  let remaining ← subtract? remaining length
  if remaining = 0 then
    return .ok target
  match target with
  | 0 => return .error (.outOfRange index offset)
  | target + 1 => back? lengths index offset target remaining

/-- Walks on from the index `target`, with `remaining` bytes to go; the program may end there. -/
def ahead? (lengths : Array Nat) (index : Nat) (offset : Int) (target remaining : Nat) :
    Option (Except JumpError Nat) :=
  if remaining = 0 then
    some (.ok target)
  else
    match _found : lengths[target]? with
    | none => some (.error (.outOfRange index offset))
    | some length =>
      if remaining < length then
        some (.error (.misaligned index offset))
      else
        match subtract? remaining length, _counted : checkedAdd? target 1 with
        | some remaining, some next => ahead? lengths index offset next remaining
        | _, _ => none
termination_by lengths.size - target
decreasing_by
  obtain ⟨inside, _⟩ := Array.getElem?_eq_some_iff.mp _found
  unfold checkedAdd? at _counted
  split at _counted
  · cases _counted
    omega
  · cases _counted

def jump? (lengths : Array Nat) (index : Nat) (offset : Int) : Option (Except JumpError Nat) :=
  if lengths.size ≤ index then
    some (.error (.outOfRange index offset))
  else if offset < 0 then do
    let distance ← distance? offset
    back? lengths index offset index distance
  else do
    let distance ← distance? offset
    let target ← checkedAdd? index 1
    ahead? lengths index offset target distance

variable {lengths : Array Nat} {index : Nat} {offset : Int}

theorem subtract?_of_le {left right : Nat} (ordered : right ≤ left) :
    subtract? left right = some (left - right) :=
  if_pos ordered

theorem distance?_of_isOffset (fits : IsOffset offset) :
    distance? offset = some offset.natAbs := by
  obtain ⟨low, high⟩ := fits
  apply if_pos
  unfold numberLimit
  omega

theorem target_next (place : Nat → Nat) (reached : Stride) :
    reached.next.target place index offset =
      reached.target (fun count => place (count + 1)) index offset := by
  cases reached <;> rfl

theorem reverse_take_succ {target : Nat} (inside : target < lengths.size) :
    (lengths.toList.take (target + 1)).reverse =
      lengths[target] :: (lengths.toList.take target).reverse := by
  rw [List.take_succ_eq_append_getElem inside, List.reverse_append]
  rfl

theorem back?_eq {target remaining : Nat} (inside : target < lengths.size)
    (positive : remaining ≠ 0) :
    back? lengths index offset target remaining =
      some ((stride (lengths.toList.take (target + 1)).reverse remaining).target
        (fun count => target + 1 - count) index offset) := by
  induction target generalizing remaining with
  | zero =>
    rw [reverse_take_succ inside, stride_cons _ _ positive, back?, Array.getElem?_eq_getElem inside]
    by_cases short : remaining < lengths[0]
    · simp [short, Stride.target]
    · by_cases arrived : remaining - lengths[0] = 0
      · simp [short, subtract?_of_le (Nat.le_of_not_lt short), arrived, Stride.next, Stride.target]
      · simp [short, subtract?_of_le (Nat.le_of_not_lt short), arrived, stride_nil arrived,
          Stride.next, Stride.target]
  | succ target ih =>
    rw [reverse_take_succ inside, stride_cons _ _ positive, back?, Array.getElem?_eq_getElem inside]
    by_cases short : remaining < lengths[target + 1]
    · simp [short, Stride.target]
    · by_cases arrived : remaining - lengths[target + 1] = 0
      · simp [short, subtract?_of_le (Nat.le_of_not_lt short), arrived, Stride.next, Stride.target]
      · simp [short, subtract?_of_le (Nat.le_of_not_lt short), arrived, target_next,
          ih (Nat.lt_of_succ_lt inside) arrived]

theorem drop_eq_cons {target length : Nat} (found : lengths[target]? = some length) :
    lengths.toList.drop target = length :: lengths.toList.drop (target + 1) := by
  obtain ⟨inside, rfl⟩ := Array.getElem?_eq_some_iff.mp found
  exact List.drop_eq_getElem_cons inside

theorem checkedAdd?_one_of_found (limited : lengths.size < numberLimit) {target length : Nat}
    (found : lengths[target]? = some length) : checkedAdd? target 1 = some (target + 1) := by
  obtain ⟨inside, _⟩ := Array.getElem?_eq_some_iff.mp found
  exact checkedAdd?_of_lt (by omega)

theorem ahead?_eq (limited : lengths.size < numberLimit) (target remaining : Nat) :
    ahead? lengths index offset target remaining =
      some ((stride (lengths.toList.drop target) remaining).target
        (fun count => target + count) index offset) := by
  fun_induction ahead? lengths index offset target remaining with
  | case1 target => simp [Stride.target]
  | case2 target remaining positive missing =>
    have behind : lengths.size ≤ target := Array.getElem?_eq_none_iff.mp missing
    rw [List.drop_of_length_le behind, stride_nil positive, Stride.target]
  | case3 target remaining positive length found short =>
    rw [drop_eq_cons found, stride_cons _ _ positive, if_pos short, Stride.target]
  | case4 target remaining positive length found enough left next counted subtracted ih =>
    rw [checkedAdd?_one_of_found limited found] at counted
    rw [subtract?_of_le (Nat.le_of_not_lt enough)] at subtracted
    cases counted
    cases subtracted
    rw [ih, drop_eq_cons found, stride_cons _ _ positive, if_neg enough, target_next]
    simp only [Nat.add_assoc, Nat.add_comm 1]
  | case5 target remaining positive length found enough stuck =>
    exact (stuck _ _ (subtract?_of_le (Nat.le_of_not_lt enough))
      (checkedAdd?_one_of_found limited found)).elim

/-- No look-up misses the program, and no number leaves its range. -/
theorem jump?_eq {ι : Type} (length : ι → Nat) {items : Array ι}
    (limited : items.size < numberLimit) (fits : IsOffset offset) :
    jump? (items.map length) index offset = some (resolveJump length items index offset) := by
  have size : (items.map length).size = items.size := Array.size_map
  rw [jump?, distance?_of_isOffset fits, size]
  rcases Nat.lt_or_ge index items.size with inside | beyond
  · rw [if_neg (by omega)]
    rcases Int.lt_or_le offset 0 with backward | forward
    · rw [if_pos backward, resolveJump_backward inside backward, ← Array.toList_map]
      exact back?_eq (by omega) (by omega)
    · rw [if_neg (by omega), resolveJump_forward inside forward, ← Array.toList_map,
        checkedAdd?_of_lt (by omega)]
      exact ahead?_eq (by omega) _ _
  · rw [if_pos beyond, resolveJump_eq, if_pos beyond]

end CheckedWalk

/-! ## Exactness -/

/-- A jump finds the nearest index at its distance, and tells apart why there is none.  The walk to
it is safe in a program of less than `numberLimit` items, however long these are. -/
theorem resolveJump_exact {ι : Type} (length : ι → Nat) (items : Array ι) (index : Nat)
    (offset : Int) :
    (∀ result, resolveJump length items index offset = result ↔
        JumpsTo (items.toList.map length) index offset result) ∧
      (items.size < numberLimit → IsOffset offset →
        CheckedWalk.jump? (items.map length) index offset =
          some (resolveJump length items index offset)) := by
  refine ⟨?_, CheckedWalk.jump?_eq length⟩
  intro result
  constructor
  · rintro rfl
    exact jumpsTo_resolveJump length items index offset
  · exact JumpsTo.resolveJump_eq

/-- Over an item without length: of two indices at the distance the nearer one is found. -/
theorem resolveJump_exact_over_empty_item :
    (4 < numberLimit ∧ IsOffset (-2)) ∧
      JumpsTo [3, 0, 2, 18446744073709551615] 2 (-2) (.ok 2) ∧
      CheckedWalk.jump? #[3, 0, 2, 18446744073709551615] 2 (-2) = some (.ok 2) := by
  obtain ⟨exact, safe⟩ := resolveJump_exact id #[3, 0, 2, 18446744073709551615] 2 (-2)
  have found : resolveJump id #[3, 0, 2, 18446744073709551615] 2 (-2) = .ok 2 := by decide
  have limited : 4 < numberLimit := by decide
  have fits : IsOffset (-2) := by decide
  rw [found, Array.map_id] at safe
  exact ⟨⟨limited, fits⟩, (exact _).mp found, safe limited fits⟩

end Mini8086
