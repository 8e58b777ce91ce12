import Mini8086.CommandLine.Response
import Mini8086.Proofs.BoundedRun
import Mini8086.Proofs.Disassembly

/-!
# What a command line leaves behind

A script sees an exit code and the lines that were printed.  Where every line is taken, both follow
from the options, apart from the verbosity, and from what was found at the path of the image.  Main
statement, `CommandLine.respond_outputContract`, for any parser of arguments and any files: the exit
code is zero exactly when every stage that was asked for succeeds, nothing is printed of an image
that cannot be decoded, the whole listing is printed of one that can, and the final state follows a
run that succeeds.
-/

set_option autoImplicit false

namespace Mini8086

/-! ## Lines of a text -/

/-- The parts of a text between line breaks.  Behind a break at the end there is an empty part. -/
def textLines (text : String) : List String :=
  (text.toList.splitOn '\n').map String.ofList

theorem textLines_append {line : String} (unbroken : '\n' ∉ line.toList) (others : String) :
    textLines (line ++ "\n" ++ others) = line :: textLines others := by
  have letters : (line ++ "\n" ++ others).toList = line.toList ++ '\n' :: others.toList := by simp
  rw [textLines, letters, List.splitOn_append_cons_self_of_not_mem unbroken, List.map_cons,
    String.ofList_toList]
  rfl

namespace CommandLine

theorem textLines_lines {texts : List String} (unbroken : ∀ line ∈ texts, '\n' ∉ line.toList) :
    textLines (lines texts) = texts ++ [""] := by
  induction texts with
  | nil => rfl
  | cons line others ih =>
    rw [List.forall_mem_cons] at unbroken
    rw [Instruction.lines_cons, textLines_append unbroken.1, ih unbroken.2, List.cons_append]

theorem lines_append (firsts others : List String) :
    lines (firsts ++ others) = lines firsts ++ lines others := by
  simp [lines]

end CommandLine

/-! ## The lines of a state -/

namespace Numeral

theorem exists_digitChar_of_mem_toDigits {base number : Nat} {letter : Char} (several : 1 < base)
    (member : letter ∈ Nat.toDigits base number) :
    ∃ digit < base, letter = Nat.digitChar digit := by
  induction number using Nat.strongRecOn with
  | ind number ih =>
    rw [Nat.toDigits_eq_if several] at member
    split at member
    · next small => exact ⟨number, small, List.mem_singleton.mp member⟩
    · next large =>
      rcases List.mem_append.mp member with earlier | last
      · exact ih (number / base) (Nat.div_lt_self (by omega) several) earlier
      · exact ⟨number % base, Nat.mod_lt number (by omega), List.mem_singleton.mp last⟩

theorem isAlphanum_of_mem_hex {width number : Nat} {letter : Char}
    (member : letter ∈ (hex width number).toList) : letter.isAlphanum = true := by
  have marks : ∀ letter ∈ "0x".toList, letter.isAlphanum = true := by simp
  have digits : ∀ digit < 16, (Nat.digitChar digit).toUpper.isAlphanum = true := by decide
  simp only [hex, padded, String.toList_append, String.toList_ofList, List.mem_append,
    List.mem_map, List.mem_replicate] at member
  rcases member with marked | ⟨_, rfl⟩ | ⟨digit, listed, rfl⟩
  · exact marks letter marked
  · rfl
  · obtain ⟨value, small, rfl⟩ := exists_digitChar_of_mem_toDigits (by decide) listed
    exact digits value small

end Numeral

namespace Machine

def registerLine (machine : Machine) (register : WordRegister) : String :=
  let value := (machine.registers.get register).toNat
  register.name ++ ": " ++ Numeral.hex 4 value ++ " (" ++ value.repr ++ ")"

def lastLines (machine : Machine) : List String :=
  ["ip: " ++ machine.ip.repr, "flags: " ++ machine.flags.text]

def stateLines (machine : Machine) : List String :=
  WordRegister.all.map machine.registerLine ++ machine.lastLines

theorem length_stateLines (machine : Machine) : machine.stateLines.length = 10 := rfl

theorem lines_stateLines (machine : Machine) :
    CommandLine.lines machine.stateLines = machine.text ++ "\n" := by
  have registers : CommandLine.lines (WordRegister.all.map machine.registerLine) =
      String.join (machine.registers.toList.map fun cell =>
        cell.1.name ++ ": " ++ Numeral.hex 4 cell.2.toNat ++ " (" ++ cell.2.toNat.repr ++
          ")\n") := by
    simp [CommandLine.lines, registerLine, Registers.toList, Function.comp_def, String.append_assoc]
  have others : CommandLine.lines machine.lastLines =
      "ip: " ++ machine.ip.repr ++ "\n" ++ "flags: " ++ machine.flags.text ++ "\n" := by
    simp only [lastLines, Instruction.lines_cons, String.append_assoc]
    rfl
  rw [stateLines, CommandLine.lines_append, registers, others]
  simp only [text, String.append_assoc]

theorem newline_not_mem_registerLine (machine : Machine) (register : WordRegister) :
    '\n' ∉ (machine.registerLine register).toList := by
  have name : '\n' ∉ register.name.toList := by
    cases register <;> decide
  have numeral : '\n' ∉ (Numeral.hex 4 (machine.registers.get register).toNat).toList := by
    intro member
    cases Numeral.isAlphanum_of_mem_hex member
  have count : '\n' ∉ (machine.registers.get register).toNat.repr.toList := by
    intro member
    cases isDigit_of_mem_repr member
  simp only [registerLine, String.toList_append, List.mem_append, not_or]
  exact ⟨⟨⟨⟨⟨name, by decide⟩, numeral⟩, by decide⟩, count⟩, by decide⟩

theorem not_mem_lastLines (machine : Machine) {mark : Char} (foreign : mark = '\n' ∨ mark = ')') :
    ∀ line ∈ machine.lastLines, mark ∉ line.toList := by
  have digits : ∀ letter ∈ machine.ip.repr.toList, letter ≠ mark := by
    rintro letter member rfl
    have digit := isDigit_of_mem_repr member
    rcases foreign with rfl | rfl <;> cases digit
  intro line member
  rw [lastLines, List.mem_pair] at member
  rcases member with rfl | rfl
  · intro member
    rcases List.mem_append.mp (String.toList_append ▸ member) with label | count
    · revert label
      rcases foreign with rfl | rfl <;> decide
    · exact digits mark count rfl
  · simp only [Flags.text, String.toList_append]
    rcases foreign with rfl | rfl <;>
      cases machine.flags.zero <;> cases machine.flags.sign <;> decide

theorem newline_not_mem_stateLines (machine : Machine) :
    ∀ line ∈ machine.stateLines, '\n' ∉ line.toList := by
  intro line member
  rcases List.mem_append.mp member with first | last
  · obtain ⟨register, _, rfl⟩ := List.mem_map.mp first
    exact machine.newline_not_mem_registerLine register
  · exact machine.not_mem_lastLines (.inl rfl) line last

end Machine

/-! ## Lengths behind the texts -/

/-- The number `N` of a line that ends with ` (len:N)`. -/
def lengthSuffix? (line : String) : Option Nat :=
  match line.toList.reverse with
  | ')' :: letters =>
    if " (len:".toList.reverse.isPrefixOf (letters.dropWhile Char.isDigit) then
      some (Nat.ofDigitChars 10 (letters.takeWhile Char.isDigit).reverse 0)
    else
      none
  | _ => none

theorem lengthSuffix?_brackets {lead : String} {mark : Char} {others : List Char} (number : Nat)
    (closes : lead.toList.reverse = mark :: others) (plain : mark.isDigit = false) :
    lengthSuffix? (lead ++ number.repr ++ ")") =
      if " (len:".toList.reverse.isPrefixOf lead.toList.reverse then some number else none := by
  have letters : (lead ++ number.repr ++ ")").toList.reverse =
      ')' :: ((Nat.toDigits 10 number).reverse ++ lead.toList.reverse) := by
    simp [Nat.toList_repr]
  have digits : ∀ digit ∈ (Nat.toDigits 10 number).reverse, digit.isDigit = true := by
    intro digit member
    exact Nat.isDigit_of_mem_toDigits (by decide) (by decide) (List.mem_reverse.mp member)
  -- From the end, the digits run up to the mark, which is none.
  simp only [lengthSuffix?, letters, List.takeWhile_append_of_pos digits,
    List.dropWhile_append_of_pos digits]
  simp [closes, plain, Nat.ofDigitChars_toDigits]

theorem lengthSuffix?_of_not_mem {line : String} (free : ')' ∉ line.toList) :
    lengthSuffix? line = none := by
  unfold lengthSuffix?
  split
  · next letters closes =>
    exact absurd (List.mem_reverse.mp (closes ▸ List.mem_cons_self)) free
  · rfl

theorem lengthSuffix?_listingLine (instruction : Instruction) :
    lengthSuffix? (CommandLine.listingLine true instruction) = some instruction.length := by
  have unfolded : CommandLine.listingLine true instruction =
      instruction.text ++ " (len:" ++ instruction.length.repr ++ ")" := rfl
  have closes : (instruction.text ++ " (len:").toList.reverse =
      " (len:".toList.reverse ++ instruction.text.toList.reverse := by simp
  have behind : " (len:".toList.reverse.isPrefixOf
      (" (len:".toList.reverse ++ instruction.text.toList.reverse) = true :=
    List.isPrefixOf_iff_prefix.mpr (List.prefix_append _ _)
  rw [unfolded, lengthSuffix?_brackets _ closes rfl, closes, if_pos behind]

theorem Machine.lengthSuffix?_registerLine (machine : Machine) (register : WordRegister) :
    lengthSuffix? (machine.registerLine register) = none := by
  have closes : ∀ front : String,
      (front ++ " (").toList.reverse = " (".toList.reverse ++ front.toList.reverse := by simp
  rw [registerLine, lengthSuffix?_brackets _ (closes _) rfl, closes]
  rfl

theorem Machine.lengthSuffix?_stateLines (machine : Machine) :
    ∀ line ∈ machine.stateLines, lengthSuffix? line = none := by
  intro line member
  rcases List.mem_append.mp member with first | last
  · obtain ⟨register, _, rfl⟩ := List.mem_map.mp first
    exact machine.lengthSuffix?_registerLine register
  · exact lengthSuffix?_of_not_mem (machine.not_mem_lastLines (.inr rfl) line last)

/-! ## Courses of a simulation -/

namespace CommandLine

/-- Every line is taken, whatever was printed before it. -/
def Stdout.Accepts (stdout : Stdout) : Prop :=
  ∀ printed line, stdout printed line = none

/-- The file can be read, and its bytes are a program under the chosen setting. -/
def Options.Loads (options : Options) (contents : Contents) (image : List UInt8)
    (program : Program) : Prop :=
  contents = .ok image ∧ Program.decode options.signExtend image = .ok program

def Options.ending (options : Options) (program : Program) : Except Fault Machine :=
  (Execution.run options.settings program (fun _ => true) .initial).final

/-- `Course options contents exitCode output`: what a simulation leaves behind, by the last stage
that it reaches. -/
inductive Course (options : Options) (contents : Contents) : Nat → String → Prop where
  | unloaded (fails : ∀ image program, ¬ options.Loads contents image program) :
      Course options contents 1 ""
  | listed {image : List UInt8} {program : Program} (loads : options.Loads contents image program)
      (listsOnly : options.execute = false) :
      Course options contents 0 (listing options.showLength program)
  | stopped {image : List UInt8} {program : Program} {fault : Fault}
      (loads : options.Loads contents image program) (executes : options.execute = true)
      (ended : options.ending program = .error fault) :
      Course options contents 1 (listing options.showLength program)
  | finished {image : List UInt8} {program : Program} {machine : Machine}
      (loads : options.Loads contents image program) (executes : options.execute = true)
      (ended : options.ending program = .ok machine) :
      Course options contents 0 (listing options.showLength program ++ lines (finalState machine))

section Simulation

variable {stdout : Stdout} {options : Options} {contents : Contents} {image : List UInt8}
  {program : Program} {machine : Machine} {fault : Fault} {exitCode : Nat} {output : String}

theorem Options.Loads.unique {otherImage : List UInt8} {otherProgram : Program}
    (loads : options.Loads contents image program)
    (again : options.Loads contents otherImage otherProgram) :
    image = otherImage ∧ program = otherProgram := by
  obtain ⟨rfl, decoded⟩ := loads
  obtain ⟨same, again⟩ := again
  cases same
  rw [decoded] at again
  cases again
  exact ⟨rfl, rfl⟩

theorem exists_course (options : Options) (contents : Contents) :
    ∃ exitCode output, Course options contents exitCode output := by
  by_cases loaded : ∃ image program, options.Loads contents image program
  · obtain ⟨image, program, loads⟩ := loaded
    cases executes : options.execute with
    | false => exact ⟨_, _, .listed loads executes⟩
    | true =>
      cases ended : options.ending program with
      | error fault => exact ⟨_, _, .stopped loads executes ended⟩
      | ok machine => exact ⟨_, _, .finished loads executes ended⟩
  · simp only [not_exists] at loaded
    exact ⟨_, _, .unloaded loaded⟩

theorem Options.final_run (options : Options) (program : Program) (keep : ExecutionEvent → Bool) :
    (Execution.run options.settings program keep .initial).final = options.ending program := by
  have start : Machine.initial.ip ≤ program.size := Nat.zero_le program.size
  rw [Execution.final_run_eq_iff start]
  exact (Execution.final_run_eq_iff start).mp rfl

namespace Console

theorem printLines_of_accepts (accepts : stdout.Accepts) (texts : List String) (printed : String) :
    printLines stdout texts printed = ⟨.ok (), printed ++ lines texts, []⟩ := by
  induction texts generalizing printed with
  | nil => simp [printLines, lines]
  | cons line others ih =>
    rw [printLines, accepts printed line]
    simp only [ih, Instruction.lines_cons, String.append_assoc]

theorem eq_of_printLines {texts : List String} {printed last : String} {log : List String}
    (done : printLines stdout texts printed = ⟨.ok (), last, log⟩) :
    last = printed ++ lines texts := by
  induction texts generalizing printed with
  | nil =>
    cases done
    simp [lines]
  | cons line others ih =>
    rw [printLines] at done
    cases taken : stdout printed line with
    | none =>
      rw [taken] at done
      rw [ih done, Instruction.lines_cons]
      simp only [String.append_assoc]
    | some cut =>
      rw [taken] at done
      cases done

theorem decode_apply (options : Options) (image : List UInt8) (printed : String) :
    ∃ log, decode options image printed =
      ⟨(Program.decode options.signExtend image).mapError (.decode options.binary), printed,
        log⟩ := by
  cases decoded : Program.decode options.signExtend image <;>
    simp [decode, decoded, Console.log, Transition.bind_apply]

theorem execute_apply (options : Options) (program : Program) (printed : String) :
    ∃ log, execute options program printed =
      ⟨(options.ending program).mapError .execute, printed, log⟩ := by
  rw [← options.final_run program fun event => event.level.shownAt options.verbosity]
  exact ⟨_, rfl⟩

/-- What scripts see of the program at work: its log is nothing to them. -/
def Shows (console : Console Unit) (printed : String) (exitCode : Nat) (output : String) : Prop :=
  (Response.ofOutcome (console printed)).exitCode = exitCode ∧ (console printed).state = output

section Shows

variable {α : Type} {first : Console α} {next : α → Console Unit} {printed middle : String}
  {log : List String}

theorem shows_bind_of_ok {value : α} (done : first printed = ⟨.ok value, middle, log⟩)
    (shown : (next value).Shows middle exitCode output) :
    (first >>= next).Shows printed exitCode output := by
  rw [Shows, Transition.bind_of_ok next done]
  exact shown

theorem shows_bind_of_error {failure : Failure}
    (failed : first printed = ⟨.error failure, middle, log⟩) :
    (first >>= next).Shows printed 1 middle := by
  rw [Shows, Transition.bind_of_error next failed]
  exact ⟨rfl, rfl⟩

end Shows

end Console

theorem simulate_unloaded (fails : ∀ image program, ¬ options.Loads contents image program) :
    (simulate stdout options contents).Shows "" 1 "" := by
  apply Console.shows_bind_of_ok rfl
  cases contents with
  | error error => exact Console.shows_bind_of_error rfl
  | ok image =>
    apply Console.shows_bind_of_ok rfl
    obtain ⟨log, found⟩ := Console.decode_apply options image ""
    cases decoded : Program.decode options.signExtend image with
    | ok program => exact absurd ⟨rfl, decoded⟩ (fails image program)
    | error error =>
      rw [decoded] at found
      exact Console.shows_bind_of_error found

theorem simulate_loaded (loads : options.Loads contents image program)
    (presented : (present stdout options program).Shows "" exitCode output) :
    (simulate stdout options contents).Shows "" exitCode output := by
  obtain ⟨rfl, decoded⟩ := loads
  obtain ⟨log, found⟩ := Console.decode_apply options image ""
  rw [decoded] at found
  apply Console.shows_bind_of_ok rfl
  apply Console.shows_bind_of_ok rfl
  exact Console.shows_bind_of_ok found presented

section Present

variable (accepts : stdout.Accepts)

include accepts

theorem printLines_listing (options : Options) (program : Program) :
    Console.printLines stdout (listingLines options.showLength program) "" =
      ⟨.ok (), listing options.showLength program, []⟩ := by
  rw [Console.printLines_of_accepts accepts, String.empty_append, listing]

theorem present_listed (listsOnly : options.execute = false) :
    (present stdout options program).Shows "" 0 (listing options.showLength program) := by
  apply Console.shows_bind_of_ok (printLines_listing accepts options program)
  rw [listsOnly]
  exact ⟨rfl, rfl⟩

theorem present_stopped (executes : options.execute = true)
    (ended : options.ending program = .error fault) :
    (present stdout options program).Shows "" 1 (listing options.showLength program) := by
  obtain ⟨log, found⟩ :=
    Console.execute_apply options program (listing options.showLength program)
  rw [ended] at found
  apply Console.shows_bind_of_ok (printLines_listing accepts options program)
  rw [executes]
  exact Console.shows_bind_of_error found

theorem present_finished (executes : options.execute = true)
    (ended : options.ending program = .ok machine) :
    (present stdout options program).Shows "" 0
      (listing options.showLength program ++ lines (finalState machine)) := by
  obtain ⟨log, found⟩ :=
    Console.execute_apply options program (listing options.showLength program)
  rw [ended] at found
  apply Console.shows_bind_of_ok (printLines_listing accepts options program)
  rw [executes]
  apply Console.shows_bind_of_ok found
  rw [Console.Shows, Console.printLines_of_accepts accepts]
  exact ⟨rfl, rfl⟩

theorem Course.shows (course : Course options contents exitCode output) (verbosity : Nat) :
    (simulate stdout { options with verbosity } contents).Shows "" exitCode output := by
  cases course with
  | unloaded fails => exact simulate_unloaded fails
  | listed loads listsOnly => exact simulate_loaded loads (present_listed accepts listsOnly)
  | stopped loads executes ended =>
    exact simulate_loaded loads (present_stopped accepts executes ended)
  | finished loads executes ended =>
    exact simulate_loaded loads (present_finished accepts executes ended)

end Present

/-! ## Lines that are refused -/

theorem Options.ending_of_execute {printed last : String} {log : List String}
    (done : Console.execute options program printed = ⟨.ok machine, last, log⟩) :
    options.ending program = .ok machine ∧ last = printed := by
  obtain ⟨_, found⟩ := Console.execute_apply options program printed
  rw [found] at done
  cases ended : options.ending program with
  | error fault =>
    rw [ended] at done
    cases done
  | ok other =>
    rw [ended] at done
    cases done
    exact ⟨rfl, rfl⟩

theorem course_of_present {log : List String} (loads : options.Loads contents image program)
    (done : present stdout options program "" = ⟨.ok (), output, log⟩) :
    Course options contents 0 output := by
  obtain ⟨_, middle, _, _, listed, behind, _⟩ := Transition.bind_eq_ok_iff.mp done
  have printed : middle = listing options.showLength program := by
    rw [Console.eq_of_printLines listed, String.empty_append, listing]
  cases executes : options.execute with
  | false =>
    rw [executes] at behind
    cases behind
    rw [printed]
    exact .listed loads executes
  | true =>
    rw [executes] at behind
    obtain ⟨machine, reached, _, _, ran, ended, _⟩ := Transition.bind_eq_ok_iff.mp behind
    obtain ⟨success, rfl⟩ := Options.ending_of_execute ran
    rw [Console.eq_of_printLines ended, printed]
    exact .finished loads executes success

/-- Whether lines are taken or not, where the simulation succeeds nothing of its output is missing.
-/
theorem course_of_simulate {log : List String}
    (done : simulate stdout options contents "" = ⟨.ok (), output, log⟩) :
    Course options contents 0 output := by
  obtain ⟨_, _, _, _, loading, reads, _⟩ := Transition.bind_eq_ok_iff.mp done
  cases loading
  cases contents with
  | error error =>
    obtain ⟨_, _, _, _, read, _⟩ := Transition.bind_eq_ok_iff.mp reads
    cases read
  | ok image =>
    obtain ⟨_, _, _, _, read, decodes, _⟩ := Transition.bind_eq_ok_iff.mp reads
    cases read
    obtain ⟨program, _, _, _, decoded, presented, _⟩ := Transition.bind_eq_ok_iff.mp decodes
    obtain ⟨_, found⟩ := Console.decode_apply options image ""
    rw [found] at decoded
    cases success : Program.decode options.signExtend image with
    | error error =>
      rw [success] at decoded
      cases decoded
    | ok program =>
      rw [success] at decoded
      cases decoded
      exact course_of_present ⟨rfl, success⟩ presented

end Simulation

/-! ## Printed lines -/

section Lines

variable {showLength : Bool} {program : Program}

theorem newline_not_mem_listingLine (showLength : Bool) (instruction : Instruction) :
    '\n' ∉ (listingLine showLength instruction).toList := by
  have long := instruction.newline_not_mem_listingLine
  cases showLength with
  | true => exact long
  | false =>
    intro member
    apply long
    simp only [listingLine, if_true, String.toList_append, List.mem_append]
    exact .inl (.inl (.inl member))

theorem listing_false (program : Program) : listing false program = lines program.listing := rfl

theorem newline_not_mem_listingLines : ∀ line ∈ listingLines showLength program,
    '\n' ∉ line.toList := by
  intro line member
  obtain ⟨instruction, _, rfl⟩ := List.mem_map.mp member
  exact newline_not_mem_listingLine showLength instruction

theorem textLines_listing : textLines (listing showLength program) =
    listingLines showLength program ++ [""] :=
  textLines_lines newline_not_mem_listingLines

theorem lines_finalState (machine : Machine) :
    lines (finalState machine) = lines ("" :: "final state:" :: machine.stateLines) := by
  have last : lines [machine.text] = lines machine.stateLines := by
    rw [machine.lines_stateLines]
    simp [lines]
  rw [finalState, Instruction.lines_cons, Instruction.lines_cons, last, Instruction.lines_cons,
    Instruction.lines_cons]

theorem textLines_listing_finalState (machine : Machine) :
    textLines (listing showLength program ++ lines (finalState machine)) =
      listingLines showLength program ++ ("" :: "final state:" :: machine.stateLines) ++ [""] := by
  rw [listing, lines_finalState, ← lines_append]
  apply textLines_lines
  rw [List.forall_mem_append, List.forall_mem_cons, List.forall_mem_cons]
  exact ⟨newline_not_mem_listingLines, by decide, by decide, machine.newline_not_mem_stateLines⟩

theorem lengthSuffixes_listing :
    (listingLines true program).filterMap lengthSuffix? = program.lengths := by
  rw [listingLines, List.filterMap_map, Program.lengths]
  have shown : lengthSuffix? ∘ listingLine true = some ∘ Instruction.length :=
    funext lengthSuffix?_listingLine
  rw [shown, List.filterMap_eq_map]

end Lines

/-! ## The contract -/

/-- What scripts can rely on, given the options and what was found at the path of the image. -/
structure OutputContract (options : Options) (contents : Contents) (exitCode : Nat)
    (output : String) : Prop where
  exit_zero_iff : exitCode = 0 ↔ ∃ image program, options.Loads contents image program ∧
    (options.execute = true → ∃ machine, options.ending program = .ok machine)
  exit_one : exitCode ≠ 0 → exitCode = 1
  silent : (∀ image program, ¬ options.Loads contents image program) → output = ""
  listed : ∀ image program, options.Loads contents image program →
    listingLines options.showLength program <+: textLines output
  measured : ∀ image program, options.Loads contents image program → options.showLength = true →
    (textLines output).filterMap lengthSuffix? = program.lengths ∧
      program.lengths.sum = image.length
  finished : ∀ image program machine, options.Loads contents image program →
    options.execute = true → options.ending program = .ok machine →
      machine.stateLines.length = 10 ∧
        textLines output = listingLines options.showLength program ++
          ("" :: "final state:" :: machine.stateLines) ++ [""]
  unfinished : ∀ image program, options.Loads contents image program →
    (options.execute = true → ∃ fault, options.ending program = .error fault) →
      textLines output = listingLines options.showLength program ++ [""]

section Contract

variable {options : Options} {contents : Contents} {image : List UInt8} {program : Program}
  {exitCode : Nat} {output : String}

theorem Course.exit_zero_iff (course : Course options contents exitCode output) :
    exitCode = 0 ↔ ∃ image program, options.Loads contents image program ∧
      (options.execute = true → ∃ machine, options.ending program = .ok machine) := by
  cases course with
  | unloaded fails =>
    refine ⟨by omega, ?_⟩
    rintro ⟨image, program, loads, _⟩
    exact absurd loads (fails image program)
  | listed loads listsOnly =>
    refine ⟨fun _ => ⟨_, _, loads, ?_⟩, fun _ => rfl⟩
    intro executes
    rw [listsOnly] at executes
    cases executes
  | stopped loads executes ended =>
    refine ⟨by omega, ?_⟩
    rintro ⟨image, program, again, succeeds⟩
    obtain ⟨machine, finished⟩ := succeeds executes
    rw [(again.unique loads).2, ended] at finished
    cases finished
  | finished loads executes ended =>
    exact ⟨fun _ => ⟨_, _, loads, fun _ => ⟨_, ended⟩⟩, fun _ => rfl⟩

theorem Course.textLines_eq (course : Course options contents exitCode output)
    (loads : options.Loads contents image program) :
    (options.execute = true ∧ ∃ machine, options.ending program = .ok machine ∧
      textLines output = listingLines options.showLength program ++
        ("" :: "final state:" :: machine.stateLines) ++ [""]) ∨
    ((options.execute = true → ∃ fault, options.ending program = .error fault) ∧
      textLines output = listingLines options.showLength program ++ [""]) := by
  cases course with
  | unloaded fails => exact absurd loads (fails image program)
  | listed found listsOnly =>
    obtain ⟨rfl, rfl⟩ := loads.unique found
    refine .inr ⟨?_, textLines_listing⟩
    intro executes
    rw [listsOnly] at executes
    cases executes
  | stopped found executes ended =>
    obtain ⟨rfl, rfl⟩ := loads.unique found
    exact .inr ⟨fun _ => ⟨_, ended⟩, textLines_listing⟩
  | finished found executes ended =>
    obtain ⟨rfl, rfl⟩ := loads.unique found
    exact .inl ⟨executes, _, ended, textLines_listing_finalState _⟩

theorem Course.lengthSuffixes_eq (course : Course options contents exitCode output)
    (loads : options.Loads contents image program) (showsLength : options.showLength = true) :
    (textLines output).filterMap lengthSuffix? = program.lengths := by
  rcases course.textLines_eq loads with ⟨_, machine, _, printed⟩ | ⟨_, printed⟩
  · have state : ("" :: "final state:" :: machine.stateLines).filterMap lengthSuffix? = [] := by
      rw [List.filterMap_eq_nil_iff, List.forall_mem_cons, List.forall_mem_cons]
      exact ⟨rfl, rfl, machine.lengthSuffix?_stateLines⟩
    have last : [""].filterMap lengthSuffix? = [] := rfl
    rw [printed, List.filterMap_append, List.filterMap_append, state, last, showsLength,
      lengthSuffixes_listing, List.append_nil, List.append_nil]
  · have last : [""].filterMap lengthSuffix? = [] := rfl
    rw [printed, List.filterMap_append, last, showsLength, lengthSuffixes_listing, List.append_nil]

theorem Course.outputContract (course : Course options contents exitCode output) :
    OutputContract options contents exitCode output where
  exit_zero_iff := course.exit_zero_iff
  exit_one := by
    cases course <;> simp
  silent := by
    intro fails
    cases course with
    | unloaded fails => rfl
    | listed loads | stopped loads | finished loads => exact absurd loads (fails _ _)
  listed := by
    intro image program loads
    rcases course.textLines_eq loads with ⟨_, machine, _, printed⟩ | ⟨_, printed⟩
    · rw [printed, List.append_assoc]
      exact List.prefix_append _ _
    · rw [printed]
      exact List.prefix_append _ _
  measured := by
    intro image program loads showsLength
    exact ⟨course.lengthSuffixes_eq loads showsLength, Program.sum_lengths_of_decoded loads.2⟩
  finished := by
    intro image program machine loads executes ended
    refine ⟨machine.length_stateLines, ?_⟩
    rcases course.textLines_eq loads with ⟨_, other, same, printed⟩ | ⟨fails, _⟩
    · rw [ended] at same
      cases same
      exact printed
    · obtain ⟨fault, failed⟩ := fails executes
      rw [ended] at failed
      cases failed
  unfinished := by
    intro image program loads fails
    rcases course.textLines_eq loads with ⟨executes, machine, ended, _⟩ | ⟨_, printed⟩
    · obtain ⟨fault, failed⟩ := fails executes
      rw [ended] at failed
      cases failed
    · exact printed

end Contract

/-! ## Responses to arguments -/

def Response.Shows (response : Response) (exitCode : Nat) (output : String) : Prop :=
  response.exitCode = exitCode ∧ response.output = output

/-- Arguments that ask for a log of other detail, and for the same otherwise, are answered alike. -/
def VerbosityUnobserved {φ : Type} (host : Host φ) (files : φ) (arguments : List String)
    (options : Options) : Prop :=
  ∀ (others : List String) (verbosity : Nat),
    host.parse others = .ok { options with verbosity } →
      (host.respond files others).Shows (host.respond files arguments).exitCode
        (host.respond files arguments).output

section Respond

variable {φ : Type} {host : Host φ} {files : φ} {arguments : List String} {options : Options}
  {exitCode : Nat} {output : String}

theorem Course.respond_shows
    (course : Course options (host.read files options.binary) exitCode output)
    (accepts : host.stdout.Accepts) (unprofiled : options.profile? = none) {verbosity : Nat}
    (valid : host.parse arguments = .ok { options with verbosity }) :
    (host.respond files arguments).Shows exitCode output := by
  have started : (host.answer files { options with verbosity }).Shows "" exitCode output := by
    rw [Host.answer]
    simp only [unprofiled]
    exact Console.shows_bind_of_ok rfl (course.shows accepts verbosity)
  rw [Host.respond, valid]
  exact started

/-- A refused line never goes unnoticed: an exit code of zero stands for all of the output. -/
theorem respond_complete (valid : host.parse arguments = .ok options)
    (unprofiled : options.profile? = none)
    (success : (host.respond files arguments).exitCode = 0) :
    Course options (host.read files options.binary) 0 (host.respond files arguments).output := by
  rw [Host.respond, valid] at success ⊢
  match found : host.answer files options "" with
  | ⟨.error failure, printed, log⟩ =>
    simp only [found] at success
    cases success
  | ⟨.ok (), printed, log⟩ =>
    simp only [found]
    rw [Host.answer] at found
    simp only [unprofiled] at found
    obtain ⟨_, _, _, _, started, simulated, _⟩ := Transition.bind_eq_ok_iff.mp found
    cases started
    exact course_of_simulate simulated

end Respond

/-- Whatever the files are and however arguments are parsed, the response to valid arguments that
ask for no profile keeps the contract, as long as every line that is printed is taken. -/
theorem respond_outputContract {φ : Type} (host : Host φ) (files : φ) (arguments : List String)
    (options : Options) (valid : host.parse arguments = .ok options)
    (unprofiled : options.profile? = none) (accepts : host.stdout.Accepts) :
    OutputContract options (host.read files options.binary)
        (host.respond files arguments).exitCode (host.respond files arguments).output ∧
      VerbosityUnobserved host files arguments options := by
  obtain ⟨exitCode, output, course⟩ := exists_course options (host.read files options.binary)
  have shown := course.respond_shows accepts unprofiled valid
  rw [VerbosityUnobserved, shown.1, shown.2]
  refine ⟨course.outputContract, ?_⟩
  intro others verbosity again
  exact course.respond_shows accepts unprofiled again

theorem exists_tree_read (contents : List UInt8) :
    ∃ tree : FileTree, tree.read "p" = .ok contents := by
  have path : Path.ofString "p" = ⟨false, ["p"], false⟩ := by
    have first : String.splitOnAux "p" "/" 0 0 0 [] = String.splitOnAux "p" "/" 0 ⟨1⟩ 0 [] := by
      rw [String.splitOnAux]
      rfl
    have last : String.splitOnAux "p" "/" 0 ⟨1⟩ 0 [] = ["p"] := by
      rw [String.splitOnAux]
      rfl
    have parts : "p".splitOn "/" = ["p"] := first.trans last
    rw [Path.ofString, parts]
    rfl
  refine ⟨.ofFiles [("p", contents)], ?_⟩
  rw [FileTree.read, FileTree.resolve, path]
  rfl

/-- A move of a constant, listed with its length and run. -/
theorem respond_outputContract_of_move :
    ∃ tree : FileTree, ∃ output : String,
      tree.read "p" = .ok [0xB8, 0x01, 0x00] ∧
        (respond tree ["--exec", "--show-length", "p"]).Shows 0 output ∧
        textLines output =
          ["mov ax, 1 (len:3)", "", "final state:", "ax: 0x0001 (1)", "cx: 0x0000 (0)",
            "dx: 0x0000 (0)", "bx: 0x0000 (0)", "sp: 0x0000 (0)", "bp: 0x0000 (0)",
            "si: 0x0000 (0)", "di: 0x0000 (0)", "ip: 1", "flags: -S", ""] ∧
        (respond tree ["--exec", "-v", "-v", "--show-length", "p"]).Shows 0 output := by
  obtain ⟨tree, readable⟩ := exists_tree_read [0xB8, 0x01, 0x00]
  have decoded : Program.decode false [0xB8, 0x01, 0x00] =
      .ok #[⟨.mov, .register (.word .ax), some (.immediate (.ofWord 1)), 3⟩] :=
    Program.decode_eq_ok_iff.mpr ⟨[.immediateToRegister (Octal.ofNat 0) (.word 1)], rfl, rfl⟩
  have valid : FileTree.host.parse ["--exec", "--show-length", "p"] =
      .ok
        { binary := "p", execute := true, showLength := true, signExtend := false,
          settings := { stepLimit := 1000000, signRule := .nonZero }, verbosity := 0,
          profile? := none } := rfl
  have accepts : FileTree.host.stdout.Accepts := fun _ _ => rfl
  obtain ⟨contract, unobserved⟩ :=
    respond_outputContract FileTree.host tree _ _ valid rfl accepts
  have ended : (Execution.run { stepLimit := 1000000, signRule := .nonZero }
      #[⟨.mov, .register (.word .ax), some (.immediate (.ofWord 1)), 3⟩] (fun _ => true)
        .initial).final =
      .ok { Machine.initial with registers := { ax := 1 }, flags := { sign := true }, ip := 1 } :=
    (Execution.final_run_eq_iff (Nat.zero_le _)).mpr
      (.halted (by decide : 1 ≤ 1000000) ⟨rfl, rfl⟩ rfl)
  have success := contract.exit_zero_iff.mpr ⟨_, _, ⟨readable, decoded⟩, fun _ => ⟨_, ended⟩⟩
  have printed := (contract.finished _ _ _ ⟨readable, decoded⟩ rfl ended).2
  have louder := unobserved ["--exec", "-v", "-v", "--show-length", "p"] 2 rfl
  rw [success] at louder
  exact ⟨tree, _, readable, ⟨success, rfl⟩, printed, louder⟩

end CommandLine
end Mini8086
