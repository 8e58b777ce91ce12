import Mathlib
import Mini8086.Jump

/-!
# Addresses of the items of a row

The address of an item is the number of bytes in front of it; the address behind the last item is
the size of the row.  Jumps are stated on addresses: a jump of `offset` bytes from the item at
`index` asks for the address `address (index + 1) + offset`, and it finds the item at that address,
or an address outside the row, or one inside an item.
-/

set_option autoImplicit false

namespace Mini8086

/-! ## Addresses -/

/-- The bytes in front of the item at `index`, in a row of items with these lengths. -/
def addressIn (lengths : List Nat) (index : Nat) : Nat :=
  (lengths.take index).sum

@[simp]
theorem addressIn_zero (lengths : List Nat) : addressIn lengths 0 = 0 := rfl

theorem addressIn_all {lengths : List Nat} {index : Nat} (behind : lengths.length ≤ index) :
    addressIn lengths index = lengths.sum := by
  rw [addressIn, List.take_of_length_le behind]

theorem addressIn_add (lengths : List Nat) (index count : Nat) :
    addressIn lengths (index + count) =
      addressIn lengths index + addressIn (lengths.drop index) count := by
  rw [addressIn, List.take_add, List.sum_append]
  rfl

theorem addressIn_succ {lengths : List Nat} {index length : Nat}
    (found : lengths[index]? = some length) :
    addressIn lengths (index + 1) = addressIn lengths index + length := by
  rw [addressIn, List.take_add_one, found, List.sum_append]
  simp [addressIn]

theorem addressIn_cons_succ (length : Nat) (others : List Nat) (index : Nat) :
    addressIn (length :: others) (index + 1) = length + addressIn others index := by
  simp [addressIn]

theorem addressIn_mono (lengths : List Nat) {left right : Nat} (ordered : left ≤ right) :
    addressIn lengths left ≤ addressIn lengths right := by
  obtain ⟨count, rfl⟩ := Nat.exists_eq_add_of_le ordered
  rw [addressIn_add]
  exact Nat.le_add_right _ _

theorem addressIn_le_sum (lengths : List Nat) (index : Nat) :
    addressIn lengths index ≤ lengths.sum := by
  have bound := addressIn_mono lengths (Nat.le_max_left index lengths.length)
  rwa [addressIn_all (Nat.le_max_right index lengths.length)] at bound

theorem addressIn_lt {lengths : List Nat} (positive : ∀ length ∈ lengths, 0 < length)
    {left right : Nat} (ordered : left < right) (inside : right ≤ lengths.length) :
    addressIn lengths left < addressIn lengths right := by
  have within : left < lengths.length := by omega
  have next := addressIn_succ (List.getElem?_eq_getElem within)
  have advance : 0 < lengths[left] := positive _ (List.getElem_mem within)
  have rest : addressIn lengths (left + 1) ≤ addressIn lengths right :=
    addressIn_mono lengths ordered
  omega

theorem addressIn_inj {lengths : List Nat} (positive : ∀ length ∈ lengths, 0 < length)
    {left right : Nat} (leftInside : left ≤ lengths.length) (rightInside : right ≤ lengths.length)
    (same : addressIn lengths left = addressIn lengths right) : left = right := by
  rcases Nat.lt_trichotomy left right with before | equal | behind
  · have strict := addressIn_lt positive before rightInside
    omega
  · exact equal
  · have strict := addressIn_lt positive behind leftInside
    omega

theorem addressIn_reverse {lengths : List Nat} {index : Nat} (inside : index ≤ lengths.length)
    (count : Nat) :
    addressIn (lengths.take index).reverse count + addressIn lengths (index - count) =
      addressIn lengths index := by
  have size : (lengths.take index).length = index := List.length_take_of_le inside
  have split := List.take_append_drop (index - count) (lengths.take index)
  have total := congrArg List.sum split
  rw [List.sum_append, List.take_take, Nat.min_eq_left (Nat.sub_le index count)] at total
  rw [addressIn, List.take_reverse, size, List.sum_reverse]
  simp only [addressIn]
  omega

/-! ## Strides on addresses -/

section Next

variable {reached : Stride}

theorem Stride.next_eq_lands_succ_iff {count : Nat} :
    reached.next = .lands (count + 1) ↔ reached = .lands count := by
  cases reached <;> simp [Stride.next]

theorem Stride.next_ne_lands_zero (reached : Stride) : reached.next ≠ .lands 0 := by
  cases reached <;> simp [Stride.next]

theorem Stride.next_eq_beyond_iff : reached.next = .beyond ↔ reached = .beyond := by
  cases reached <;> simp [Stride.next]

theorem Stride.next_eq_inside_iff : reached.next = .inside ↔ reached = .inside := by
  cases reached <;> simp [Stride.next]

end Next

theorem stride_eq_lands_iff {lengths : List Nat} {distance count : Nat} :
    stride lengths distance = .lands count ↔
      count ≤ lengths.length ∧ addressIn lengths count = distance ∧
        ∀ fewer < count, addressIn lengths fewer < distance := by
  -- Several counts fit where items have no length; the stride stops at the least of them.
  induction lengths generalizing distance count with
  | nil =>
    by_cases arrived : distance = 0
    · subst arrived
      rw [stride_zero]
      constructor
      · intro same
        cases same
        exact ⟨Nat.le_refl 0, rfl, fun fewer below => absurd below (Nat.not_lt_zero fewer)⟩
      · intro landed
        obtain ⟨few, _, _⟩ := landed
        rw [Nat.le_zero.mp few]
    · rw [stride_nil arrived]
      constructor
      · intro same
        cases same
      · intro landed
        obtain ⟨_, lands, _⟩ := landed
        have nothing : addressIn [] count = 0 := by simp [addressIn]
        omega
  | cons length others ih =>
    by_cases arrived : distance = 0
    · subst arrived
      rw [stride_zero]
      constructor
      · intro same
        cases same
        exact ⟨Nat.zero_le _, rfl, fun fewer below => absurd below (Nat.not_lt_zero fewer)⟩
      · intro landed
        obtain ⟨_, _, least⟩ := landed
        cases count with
        | zero => rfl
        | succ count =>
          have start := least 0 (Nat.succ_pos count)
          omega
    · rw [stride_cons _ _ arrived]
      cases count with
      | zero =>
        constructor
        · intro same
          split at same
          · cases same
          · exact absurd same (Stride.next_ne_lands_zero _)
        · intro landed
          obtain ⟨_, lands, _⟩ := landed
          rw [addressIn_zero] at lands
          omega
      | succ count =>
        by_cases short : distance < length
        · rw [if_pos short]
          constructor
          · intro same
            cases same
          · intro landed
            obtain ⟨_, lands, _⟩ := landed
            rw [addressIn_cons_succ] at lands
            omega
        · rw [if_neg short, Stride.next_eq_lands_succ_iff, ih, List.length_cons,
            addressIn_cons_succ]
          constructor
          · intro landed
            obtain ⟨few, lands, least⟩ := landed
            refine ⟨by omega, by omega, ?_⟩
            intro fewer below
            cases fewer with
            | zero =>
              rw [addressIn_zero]
              omega
            | succ fewer =>
              have smaller := least fewer (by omega)
              rw [addressIn_cons_succ]
              omega
          · intro landed
            obtain ⟨few, lands, least⟩ := landed
            refine ⟨by omega, by omega, ?_⟩
            intro fewer below
            have smaller := least (fewer + 1) (by omega)
            rw [addressIn_cons_succ] at smaller
            omega

theorem stride_eq_beyond_iff {lengths : List Nat} {distance : Nat} :
    stride lengths distance = .beyond ↔ lengths.sum < distance := by
  induction lengths generalizing distance with
  | nil =>
    by_cases arrived : distance = 0
    · subst arrived
      simp
    · rw [stride_nil arrived]
      simp
      omega
  | cons length others ih =>
    by_cases arrived : distance = 0
    · subst arrived
      simp
    · rw [stride_cons _ _ arrived, List.sum_cons]
      by_cases short : distance < length
      · rw [if_pos short]
        constructor
        · intro same
          cases same
        · omega
      · rw [if_neg short, Stride.next_eq_beyond_iff, ih]
        omega

theorem stride_eq_inside_iff {lengths : List Nat} {distance : Nat} :
    stride lengths distance = .inside ↔
      ∃ count < lengths.length,
        addressIn lengths count < distance ∧ distance < addressIn lengths (count + 1) := by
  induction lengths generalizing distance with
  | nil =>
    by_cases arrived : distance = 0
    · subst arrived
      simp
    · rw [stride_nil arrived]
      simp
  | cons length others ih =>
    by_cases arrived : distance = 0
    · subst arrived
      simp
    · rw [stride_cons _ _ arrived]
      by_cases short : distance < length
      · rw [if_pos short]
        refine ⟨fun _ => ⟨0, Nat.succ_pos _, ?_, ?_⟩, fun _ => rfl⟩
        · rw [addressIn_zero]
          omega
        · rw [addressIn_cons_succ, addressIn_zero]
          omega
      · rw [if_neg short, Stride.next_eq_inside_iff, ih]
        constructor
        · intro between
          obtain ⟨count, few, passed, ahead⟩ := between
          refine ⟨count + 1, Nat.succ_lt_succ few, ?_, ?_⟩
          · rw [addressIn_cons_succ]
            omega
          · rw [addressIn_cons_succ]
            omega
        · intro between
          obtain ⟨count, few, passed, ahead⟩ := between
          rw [addressIn_cons_succ] at ahead
          cases count with
          | zero =>
            rw [addressIn_zero] at ahead
            omega
          | succ count =>
            rw [addressIn_cons_succ] at passed
            exact ⟨count, Nat.lt_of_succ_lt_succ few, by omega, by omega⟩

/-! ## Strides from an index -/

section Row

variable {lengths : List Nat} {index distance : Nat}

theorem stride_drop_lands_iff (positive : ∀ length ∈ lengths, 0 < length)
    (inside : index ≤ lengths.length) {count : Nat} :
    stride (lengths.drop index) distance = .lands count ↔
      index + count ≤ lengths.length ∧
        addressIn lengths (index + count) = addressIn lengths index + distance := by
  have walked := addressIn_add lengths index
  rw [stride_eq_lands_iff, List.length_drop]
  constructor
  · intro landed
    obtain ⟨few, lands, _⟩ := landed
    have there := walked count
    exact ⟨by omega, by omega⟩
  · intro landed
    obtain ⟨within, lands⟩ := landed
    have there := walked count
    refine ⟨by omega, by omega, ?_⟩
    intro fewer below
    have nearer := walked fewer
    have order : addressIn lengths (index + fewer) < addressIn lengths (index + count) :=
      addressIn_lt positive (by omega) within
    omega

theorem stride_drop_inside_iff (inside : index ≤ lengths.length) :
    stride (lengths.drop index) distance = .inside ↔
      ∃ item < lengths.length, addressIn lengths item < addressIn lengths index + distance ∧
        addressIn lengths index + distance < addressIn lengths (item + 1) := by
  have walked := addressIn_add lengths index
  rw [stride_eq_inside_iff, List.length_drop]
  constructor
  · intro between
    obtain ⟨count, few, passed, short⟩ := between
    have near := walked count
    have far := walked (count + 1)
    refine ⟨index + count, by omega, by omega, ?_⟩
    rw [Nat.add_assoc]
    omega
  · intro between
    obtain ⟨item, within, below, above⟩ := between
    have behind : index ≤ item := by
      by_contra before
      have order : addressIn lengths (item + 1) ≤ addressIn lengths index :=
        addressIn_mono lengths (by omega)
      omega
    obtain ⟨count, rfl⟩ := Nat.exists_eq_add_of_le behind
    have near := walked count
    have far := walked (count + 1)
    rw [← Nat.add_assoc] at far
    exact ⟨count, by omega, by omega, by omega⟩

theorem stride_drop_beyond_iff :
    stride (lengths.drop index) distance = .beyond ↔
      lengths.sum < addressIn lengths index + distance := by
  have total := congrArg List.sum (List.take_append_drop index lengths)
  rw [List.sum_append] at total
  rw [stride_eq_beyond_iff]
  simp only [addressIn]
  omega

theorem stride_take_lands_iff (positive : ∀ length ∈ lengths, 0 < length)
    (inside : index ≤ lengths.length) {count : Nat} :
    stride (lengths.take index).reverse distance = .lands count ↔
      count ≤ index ∧ addressIn lengths (index - count) + distance = addressIn lengths index := by
  have walked := addressIn_reverse inside
  rw [stride_eq_lands_iff, List.length_reverse, List.length_take, Nat.min_eq_left inside]
  constructor
  · intro landed
    obtain ⟨few, lands, _⟩ := landed
    have there := walked count
    exact ⟨few, by omega⟩
  · intro landed
    obtain ⟨few, lands⟩ := landed
    have there := walked count
    refine ⟨few, by omega, ?_⟩
    intro fewer below
    have nearer := walked fewer
    have order : addressIn lengths (index - count) < addressIn lengths (index - fewer) :=
      addressIn_lt positive (by omega) (by omega)
    omega

theorem stride_take_inside_iff (inside : index ≤ lengths.length) :
    stride (lengths.take index).reverse distance = .inside ↔
      ∃ item < lengths.length, addressIn lengths item + distance < addressIn lengths index ∧
        addressIn lengths index < addressIn lengths (item + 1) + distance := by
  have walked := addressIn_reverse inside
  rw [stride_eq_inside_iff, List.length_reverse, List.length_take, Nat.min_eq_left inside]
  constructor
  · intro between
    obtain ⟨count, few, passed, short⟩ := between
    have near := walked count
    have far := walked (count + 1)
    have place : index - (count + 1) + 1 = index - count := by omega
    refine ⟨index - (count + 1), by omega, by omega, ?_⟩
    rw [place]
    omega
  · intro between
    obtain ⟨item, within, below, above⟩ := between
    have before : item < index := by
      by_contra behind
      have order : addressIn lengths index ≤ addressIn lengths item :=
        addressIn_mono lengths (by omega)
      omega
    have near := walked (index - (item + 1))
    have far := walked (index - (item + 1) + 1)
    have start : index - (index - (item + 1)) = item + 1 := by omega
    have finish : index - (index - (item + 1) + 1) = item := by omega
    rw [start] at near
    rw [finish] at far
    exact ⟨index - (item + 1), by omega, by omega, by omega⟩

theorem stride_take_beyond_iff :
    stride (lengths.take index).reverse distance = .beyond ↔
      addressIn lengths index < distance := by
  rw [stride_eq_beyond_iff, List.sum_reverse]
  rfl

end Row

/-! ## Jumps on addresses -/

theorem Stride.target_eq_ok_iff {place : Nat → Nat} {index target : Nat} {offset : Int}
    {reached : Stride} :
    reached.target place index offset = .ok target ↔
      ∃ count, reached = .lands count ∧ place count = target := by
  cases reached <;> simp [Stride.target]

theorem Stride.target_eq_outOfRange_iff {place : Nat → Nat} {index : Nat} {offset : Int}
    {reached : Stride} :
    reached.target place index offset = .error (.outOfRange index offset) ↔ reached = .beyond := by
  cases reached <;> simp [Stride.target]

theorem Stride.target_eq_misaligned_iff {place : Nat → Nat} {index : Nat} {offset : Int}
    {reached : Stride} :
    reached.target place index offset = .error (.misaligned index offset) ↔ reached = .inside := by
  cases reached <;> simp [Stride.target]

section Items

variable {ι : Type} {length : ι → Nat} {items : Array ι} {index : Nat} {offset : Int}

/-- The address that a jump asks for. -/
def soughtAddress (lengths : List Nat) (index : Nat) (offset : Int) : Int :=
  addressIn lengths (index + 1) + offset

theorem resolveJump_forward (inside : index < items.size) (ahead : 0 ≤ offset) :
    resolveJump length items index offset =
      (stride ((items.toList.map length).drop (index + 1)) offset.natAbs).target
        (fun count => index + 1 + count) index offset := by
  rw [resolveJump_eq, if_neg (by omega), if_neg (by omega)]

theorem resolveJump_backward (inside : index < items.size) (back : offset < 0) :
    resolveJump length items index offset =
      (stride ((items.toList.map length).take (index + 1)).reverse offset.natAbs).target
        (fun count => index + 1 - count) index offset := by
  rw [resolveJump_eq, if_neg (by omega), if_pos back]

theorem resolveJump_error {error : JumpError}
    (failed : resolveJump length items index offset = .error error) :
    error = .outOfRange index offset ∨ error = .misaligned index offset := by
  have targets : ∀ (reached : Stride) (place : Nat → Nat),
      reached.target place index offset = .error error →
        error = .outOfRange index offset ∨ error = .misaligned index offset := by
    intro reached place stopped
    cases reached with
    | lands count => cases stopped
    | inside =>
      cases stopped
      exact .inr rfl
    | beyond =>
      cases stopped
      exact .inl rfl
  rw [resolveJump_eq] at failed
  split at failed
  · cases failed
    exact .inl rfl
  · split at failed
    · exact targets _ _ failed
    · exact targets _ _ failed

theorem resolveJump_eq_outOfRange_iff (inside : index < items.size) :
    resolveJump length items index offset = .error (.outOfRange index offset) ↔
      soughtAddress (items.toList.map length) index offset < 0 ∨
        ((items.toList.map length).sum : Int) <
          soughtAddress (items.toList.map length) index offset := by
  have start := addressIn_le_sum (items.toList.map length) (index + 1)
  rw [soughtAddress]
  rcases Int.lt_or_le offset 0 with back | ahead
  · rw [resolveJump_backward inside back, Stride.target_eq_outOfRange_iff, stride_take_beyond_iff]
    omega
  · rw [resolveJump_forward inside ahead, Stride.target_eq_outOfRange_iff, stride_drop_beyond_iff]
    omega

theorem resolveJump_eq_misaligned_iff (inside : index < items.size) :
    resolveJump length items index offset = .error (.misaligned index offset) ↔
      ∃ item < items.size,
        (addressIn (items.toList.map length) item : Int) <
            soughtAddress (items.toList.map length) index offset ∧
          soughtAddress (items.toList.map length) index offset <
            addressIn (items.toList.map length) (item + 1) := by
  have size : (items.toList.map length).length = items.size := by simp
  have within : index + 1 ≤ (items.toList.map length).length := by omega
  rw [soughtAddress, ← size]
  rcases Int.lt_or_le offset 0 with back | ahead
  · rw [resolveJump_backward inside back, Stride.target_eq_misaligned_iff,
      stride_take_inside_iff within]
    constructor
    · intro between
      obtain ⟨item, listed, below, above⟩ := between
      exact ⟨item, listed, by omega, by omega⟩
    · intro between
      obtain ⟨item, listed, below, above⟩ := between
      exact ⟨item, listed, by omega, by omega⟩
  · rw [resolveJump_forward inside ahead, Stride.target_eq_misaligned_iff,
      stride_drop_inside_iff within]
    constructor
    · intro between
      obtain ⟨item, listed, below, above⟩ := between
      exact ⟨item, listed, by omega, by omega⟩
    · intro between
      obtain ⟨item, listed, below, above⟩ := between
      exact ⟨item, listed, by omega, by omega⟩

theorem resolveJump_eq_ok_iff (positive : ∀ item ∈ items, 0 < length item)
    (inside : index < items.size) {target : Nat} :
    resolveJump length items index offset = .ok target ↔
      target ≤ items.size ∧ (addressIn (items.toList.map length) target : Int) =
        soughtAddress (items.toList.map length) index offset := by
  have size : (items.toList.map length).length = items.size := by simp
  have within : index + 1 ≤ (items.toList.map length).length := by omega
  have advances : ∀ size ∈ items.toList.map length, 0 < size := by
    intro size member
    obtain ⟨item, listed, rfl⟩ := List.mem_map.mp member
    exact positive item (Array.mem_def.mpr listed)
  rw [soughtAddress, ← size]
  rcases Int.lt_or_le offset 0 with back | ahead
  · rw [resolveJump_backward inside back, Stride.target_eq_ok_iff]
    simp only [stride_take_lands_iff advances within]
    constructor
    · intro landed
      obtain ⟨count, ⟨few, lands⟩, rfl⟩ := landed
      exact ⟨by omega, by omega⟩
    · intro landed
      obtain ⟨listed, lands⟩ := landed
      have before : target < index + 1 := by
        by_contra behind
        have order : addressIn (items.toList.map length) (index + 1) ≤
            addressIn (items.toList.map length) target := addressIn_mono _ (by omega)
        omega
      have place : index + 1 - (index + 1 - target) = target := by omega
      refine ⟨index + 1 - target, ⟨by omega, ?_⟩, place⟩
      rw [place]
      omega
  · rw [resolveJump_forward inside ahead, Stride.target_eq_ok_iff]
    simp only [stride_drop_lands_iff advances within]
    constructor
    · intro landed
      obtain ⟨count, ⟨listed, lands⟩, rfl⟩ := landed
      exact ⟨listed, by omega⟩
    · intro landed
      obtain ⟨listed, lands⟩ := landed
      have behind : index + 1 ≤ target := by
        by_contra before
        have order : addressIn (items.toList.map length) target <
            addressIn (items.toList.map length) (index + 1) :=
          addressIn_lt advances (by omega) within
        omega
      obtain ⟨count, rfl⟩ := Nat.exists_eq_add_of_le behind
      exact ⟨count, ⟨listed, by omega⟩, rfl⟩

end Items

end Mini8086
