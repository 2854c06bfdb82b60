import Tunescript.CommandLine.Commands
import Tunescript.CommandLine.Conventional
import Tunescript.Proofs.Layout.Characters
import Tunescript.Proofs.Layout.Reformatted
import Tunescript.Proofs.Storage.Written

/-!
# The modes of formatting

However it is asked for (`outcome_of_asks`), a score that can be formatted is printed, compared or
written.  What is printed is what is written if the console shows it as it is (`printed_iff`).
Comparing tells whether writing changes the file unless the score only needs its line ends unified
(`compared_iff`), and it finds nothing to change in the file that was written if formatting leaves
the formatted score as it is (`comparedAgain_iff`).  So the modes agree on the scores that
`modesAgree_iff` describes.
-/

namespace Tunescript.CommandLine

open Job
open Layout (sections startsWithCheckpoint layoutBlock layoutLeft Segment Settled)
open Text (encode unifyLineEnds)

/-- The options of formatting. -/
def formatOptions : List OptionSpec :=
  [⟨"check", ["--check".toList], [], false⟩, ⟨"in-place", ["--in-place".toList], ['i'], false⟩]

/-- The mode that some options ask for; none if they exclude each other. -/
def formatMode? (a : Arguments) : Option FormatMode :=
  match a.has "check", a.has "in-place" with
  | false, false => some .print
  | true, false => some .check
  | false, true => some .inPlace
  | true, true => none

/-- The arguments of the program ask for a score file to be formatted in a mode, as a console reads
them. -/
def AsksToFormat (console : Console) (arguments : List Text) (mode : FormatMode) (file : Text) :
    Prop :=
  ∃ a rest b, console.read? programOptions false arguments = some a ∧ answer? a = none ∧
    a.positions = "format".toList :: rest ∧
    console.read? (helpOption :: formatOptions) true rest = some b ∧ b.has "help" = false ∧
    b.positions = [file] ∧ formatMode? b = some mode

/-- What a score file holds. -/
def held (file : Text) (terminal : Terminal) : Except FileError Bytes :=
  terminal.files.read (Path.ofText file) (Path.ofText file).text

/-- A score file is found and holds a text. -/
structure Holds (terminal : Terminal) (file t : Text) : Prop where
  /-- The file is found. -/
  found : terminal.files.hasFile file
  /-- It holds the text. -/
  content : held file terminal = .ok (encode t)

section Running

variable {arguments : List Text} {mode : FormatMode} {file t f : Text} {terminal : Terminal}

theorem Holds.of_files {later : Terminal} (h : Holds terminal file t)
    (hfiles : later.files = terminal.files) :
  Holds later file t
  := by
  constructor
  · rw [hfiles]
    apply h.found
  · rw [held, hfiles]
    apply h.content

/-- What comes of a command goes on from where its first part ends. -/
theorem outcome_bind {α : Type} {j : Job α} {k : α → Job Unit} {x : α} {later : Terminal}
    (h : EStateM.run j terminal = .ok x later) :
  (j >>= k).outcome terminal = (k x).outcome later
  := by
  rw [outcome, EStateM.run_bind, h]
  rfl

theorem Holds.run_readScore (h : Holds terminal file t) :
  EStateM.run (readScore file) terminal = .ok (unifyLineEnds t) terminal
  := by
  rw [readScore, EStateM.run_bind, EStateM.run_get]
  simp only [Files.readText_of_read h.content]
  rfl

variable [Memory]

/-- What the command of formatting does with its arguments and a score file. -/
def formatWith (a : Arguments) (file : Text) : Job Unit :=
  if a.has "check" && a.has "in-place" then exit 2
  else format file (if a.has "check" then .check else if a.has "in-place" then .inPlace else .print)

theorem commandNamed?_format :
  commandNamed? (String.ofList "format".toList) = some (formatOptions, formatWith)
  := by
  rw [String.ofList_toList]
  rfl

theorem formatWith_of_mode {a : Arguments} {mode : FormatMode} (h : formatMode? a = some mode) :
  formatWith a = fun file => format file mode
  := by
  rw [formatMode?] at h
  unfold formatWith
  cases hcheck : a.has "check" <;> cases hinPlace : a.has "in-place" <;> simp_all

/-- To ask for a file that is found to be formatted is to format it, at a terminal with the same
files, output and console. -/
theorem outcome_of_asks (h : AsksToFormat terminal.console arguments mode file)
    (hfile : terminal.files.hasFile file) :
  ∃ later : Terminal, later.files = terminal.files ∧ later.output = terminal.output ∧
    later.console = terminal.console ∧
    (run arguments).outcome terminal = (format file mode).outcome later
  := by
  obtain ⟨a, rest, b, harguments, hanswer, hpositions, hrest, hhelp, hfiles, hmode⟩ := h
  refine ⟨{ terminal with verbose := a.has "verbose" }, rfl, rfl, rfl, ?_⟩
  have hnull : file.contains Path.null = false := by
    simpa using Files.null_not_mem_of_hasFile hfile
  rw [run, outcome_bind (EStateM.run_get _)]
  simp only [harguments, hanswer, hpositions, commandNamed?_format]
  rw [outcome_bind (EStateM.run_modify _ _), runCommand, outcome_bind (EStateM.run_get _)]
  simp only [hrest]
  simp only [hhelp, hfiles, hnull, Bool.false_eq_true, if_false]
  rw [outcome_bind (EStateM.run_get _)]
  simp only [List.isEmpty_nil, hfile, Bool.and_self, if_true, formatWith_of_mode hmode]

/-- The formatted score is printed as the console shows it. -/
theorem outcome_print (h : Holds terminal file t)
    (hformat : Layout.format (unifyLineEnds t) = .ok f) :
  (format file .print).outcome terminal =
    ⟨0, none, { terminal with output := terminal.output ++ terminal.printed (String.ofList f) }⟩
  := by
  rw [format, outcome_bind h.run_readScore, hformat]
  rfl

/-- Comparing a score with the formatted score leaves the files alone, and succeeds if they are the
same. -/
theorem outcome_check (h : Holds terminal file t) :
  ((format file .check).outcome terminal).terminal.files = terminal.files ∧
    (((format file .check).outcome terminal).status = 0 ↔
      Layout.format (unifyLineEnds t) = .ok (unifyLineEnds t))
  := by
  rw [format, outcome_bind h.run_readScore]
  dsimp only
  cases Layout.format (unifyLineEnds t) with
  | error fault => exact ⟨rfl, iff_of_false nofun nofun⟩
  | ok f =>
    rw [Except.ok.injEq]
    dsimp only
    split
    · rename_i hsame
      exact ⟨rfl, iff_of_true rfl hsame⟩
    · rename_i hother
      exact ⟨rfl, iff_of_false nofun hother⟩

/-- The formatted score is written, and the console stays the same. -/
theorem outcome_inPlace {files : Files} (h : Holds terminal file t)
    (hformat : Layout.format (unifyLineEnds t) = .ok f)
    (hwrite : terminal.files.writeText (Path.ofText file) f = .ok files) :
  ((format file .inPlace).outcome terminal).terminal.files = files ∧
    ((format file .inPlace).outcome terminal).terminal.console = terminal.console
  := by
  rw [format, outcome_bind h.run_readScore, hformat]
  dsimp only
  rw [outcome_bind (EStateM.run_get _), hwrite]
  exact ⟨rfl, rfl⟩

end Running

section Agreement

variable [Memory]

/-- The status with which the program ends. -/
def statusOf (arguments : List Text) (terminal : Terminal) : Nat :=
  ((run arguments).outcome terminal).status

/-- The terminal after the program has run. -/
def after (arguments : List Text) (terminal : Terminal) : Terminal :=
  ((run arguments).outcome terminal).terminal

/-- The modes agree on a score file, where the arguments ask for the formatted score to be printed,
compared and written. -/
structure ModesAgree (plain check rewrite : List Text) (file : Text)
    (terminal : Terminal) : Prop where
  /-- Exactly the text is printed that is written to the file. -/
  printed : ∃ w, held file (after rewrite terminal) = .ok (encode w) ∧
    (after plain terminal).output = terminal.output ++ String.ofList w
  /-- Comparing leaves the files alone. -/
  kept : (after check terminal).files = terminal.files
  /-- Comparing succeeds exactly if writing leaves the content of the file as it is. -/
  compared : statusOf check terminal = 0 ↔ held file (after rewrite terminal) = held file terminal
  /-- Comparing succeeds on the file that was just written. -/
  comparedAgain : statusOf check (after rewrite terminal) = 0

variable {plain check rewrite : List Text} {file t f : Text} {terminal : Terminal}

theorem output_plain (hplain : AsksToFormat terminal.console plain .print file)
    (h : Holds terminal file t) (hformat : Layout.format (unifyLineEnds t) = .ok f) :
  (after plain terminal).output = terminal.output ++ terminal.printed (String.ofList f)
  := by
  obtain ⟨later, hfiles, houtput, hconsole, hrun⟩ := outcome_of_asks hplain h.found
  rw [after, hrun, outcome_print (h.of_files hfiles) hformat]
  dsimp only
  rw [houtput, Terminal.printed, hconsole, Terminal.printed]

theorem files_check (hcheck : AsksToFormat terminal.console check .check file)
    (h : Holds terminal file t) :
  (after check terminal).files = terminal.files
  := by
  obtain ⟨later, hfiles, -, -, hrun⟩ := outcome_of_asks hcheck h.found
  rw [after, hrun, (outcome_check (h.of_files hfiles)).1, hfiles]

theorem statusOf_check_iff (hcheck : AsksToFormat terminal.console check .check file)
    (h : Holds terminal file t) :
  statusOf check terminal = 0 ↔ Layout.format (unifyLineEnds t) = .ok (unifyLineEnds t)
  := by
  obtain ⟨later, hfiles, -, -, hrun⟩ := outcome_of_asks hcheck h.found
  rw [statusOf, hrun, (outcome_check (h.of_files hfiles)).2]

section Formatted

variable (hformat : Layout.format (unifyLineEnds t) = .ok f)

include hformat

/-- Formatting puts no carriage return into a score with unified line ends. -/
theorem unifyLineEnds_format :
  unifyLineEnds f = f
  := by
  rw [Text.unifyLineEnds_eq_self_iff]
  intro hmem
  apply Text.not_mem_unifyLineEnds t (Layout.mem_of_mem_format hformat rfl hmem)

variable (hrewrite : AsksToFormat terminal.console rewrite .inPlace file)
  (h : Holds terminal file t) (hroom : terminal.files.full = false)

include hrewrite h hroom

/-- The file that was written holds the formatted score, and the console stays the same. -/
theorem holds_rewrite :
  Holds (after rewrite terminal) file f ∧ (after rewrite terminal).console = terminal.console
  := by
  obtain ⟨later, hlater, -, hkept, hrun⟩ := outcome_of_asks hrewrite h.found
  have h := h.of_files hlater
  obtain ⟨files, hwrite⟩ := Files.exists_write_of_read h.content (encode f)
  obtain ⟨hfiles, hconsole⟩ := outcome_inPlace h hformat
    (Files.writeText_eq_ok_iff.mpr ⟨hlater ▸ hroom, hwrite⟩)
  rw [after, hrun]
  refine ⟨⟨?_, ?_⟩, hconsole.trans hkept⟩
  · rw [hfiles]
    apply Files.hasFile_of_write h.found hwrite
  · rw [held, hfiles]
    apply Files.read_of_write hwrite

/-- What is printed is what is written exactly if it is shown as it is. -/
theorem printed_iff (hplain : AsksToFormat terminal.console plain .print file) :
  (∃ w, held file (after rewrite terminal) = .ok (encode w) ∧
      (after plain terminal).output = terminal.output ++ String.ofList w) ↔
    terminal.console.shown f = f
  := by
  rw [(holds_rewrite hformat hrewrite h hroom).1.content, output_plain hplain h hformat]
  constructor
  · rintro ⟨w, hw, houtput⟩
    obtain rfl := Text.encode_inj.mp (Except.ok.inj hw)
    rw [String.append_right_inj, Terminal.printed, String.toList_ofList, String.ofList_inj]
      at houtput
    apply houtput
  · intro hkept
    use f, rfl
    rw [Terminal.printed, String.toList_ofList, hkept]

/-- Comparing tells whether writing leaves the file as it is, unless there are carriage returns in
it and only these are lost. -/
theorem compared_iff (hcheck : AsksToFormat terminal.console check .check file) :
  (statusOf check terminal = 0 ↔ held file (after rewrite terminal) = held file terminal) ↔
    ('\r' ∈ t → f ≠ unifyLineEnds t)
  := by
  rw [statusOf_check_iff hcheck h, hformat, (holds_rewrite hformat hrewrite h hroom).1.content,
    h.content, Except.ok.injEq, Except.ok.injEq, Text.encode_inj]
  by_cases hreturn : '\r' ∈ t
  · have hne : f ≠ t := by
      rintro rfl
      apply Text.unifyLineEnds_eq_self_iff.mp (unifyLineEnds_format hformat) hreturn
    rw [iff_false_right hne]
    exact ⟨fun h _ => h, fun h => h hreturn⟩
  · rw [Text.unifyLineEnds_eq_self_iff.mpr hreturn]
    exact iff_of_true Iff.rfl fun h => absurd h hreturn

/-- Comparing succeeds on the written file exactly if formatting leaves the formatted score as it
is. -/
theorem comparedAgain_iff (hcheck : AsksToFormat terminal.console check .check file) :
  statusOf check (after rewrite terminal) = 0 ↔ Layout.format f = .ok f
  := by
  obtain ⟨hwritten, hconsole⟩ := holds_rewrite hformat hrewrite h hroom
  rw [statusOf_check_iff (hconsole ▸ hcheck) hwritten, unifyLineEnds_format hformat]

end Formatted

/-- A score without escape characters is shown as it is when it is formatted. -/
theorem shown_format (hformat : Layout.format (unifyLineEnds t) = .ok f) (h : escapeChar ∉ t)
    (console : Console) :
  console.shown f = f
  := by
  apply console.shown_of_plain
  intro hmem
  apply h
  apply Text.mem_of_mem_unifyLineEnds (Layout.mem_of_mem_format hformat rfl hmem) (by decide)

/-- The modes agree on a score that can be formatted, whatever arguments ask for them, exactly if
the console shows the formatted score as it is, the score does not only need its line ends unified,
and every line of it is settled where it stands.  Every console shows the formatted score as it is
if there is no escape character in the score. -/
theorem modesAgree_iff (hplain : AsksToFormat terminal.console plain .print file)
    (hcheck : AsksToFormat terminal.console check .check file)
    (hrewrite : AsksToFormat terminal.console rewrite .inPlace file)
    (h : Holds terminal file t) (hroom : terminal.files.full = false)
    (hformat : Layout.format (unifyLineEnds t) = .ok f) :
  (ModesAgree plain check rewrite file terminal ↔
      terminal.console.shown f = f ∧ ('\r' ∈ t → f ≠ unifyLineEnds t) ∧
        ∀ s ∈ sections (Text.lines (unifyLineEnds t)),
          ∀ part ∈ s.block.splitOnP startsWithCheckpoint, ∀ line ∈ part,
            Settled (layoutBlock s.block : List (List (Segment Float))) (layoutLeft part) line) ∧
    (escapeChar ∉ t → terminal.console.shown f = f)
  := by
  refine ⟨?_, fun hescape => shown_format hformat hescape terminal.console⟩
  rw [← printed_iff hformat hrewrite h hroom hplain, ← compared_iff hformat hrewrite h hroom hcheck,
    ← Layout.formatIn_formatIn_iff hformat]
  constructor
  · intro hagree
    exact ⟨hagree.printed, hagree.compared,
      (comparedAgain_iff hformat hrewrite h hroom hcheck).mp hagree.comparedAgain⟩
  · rintro ⟨hprinted, hcompared, hagain⟩
    exact ⟨hprinted, files_check hcheck h, hcompared,
      (comparedAgain_iff hformat hrewrite h hroom hcheck).mpr hagain⟩

end Agreement

section Files

/-- The name of a score file. -/
def scoreFile : Text := "s.hum".toList

/-- A terminal with a text in the score file. -/
def terminalWith (t : Text) : Terminal where
  files := ⟨[([scoreFile], .file (encode t))], false⟩
  device := .ready
  console := .conventional

/-- The option that asks for a mode. -/
def flags : FormatMode → List Text
  | .print => []
  | .check => ["--check".toList]
  | .inPlace => ["--in-place".toList]

/-- The arguments that ask for the score file in a mode. -/
def asking (mode : FormatMode) : List Text := "format".toList :: flags mode ++ [scoreFile]

theorem asksToFormat_asking (mode : FormatMode) :
  AsksToFormat .conventional (asking mode) mode scoreFile
  := by
  cases mode <;> exact ⟨_, _, _, rfl, rfl, rfl, rfl, rfl, rfl, rfl⟩

attribute [local instance] Memory.sixteenGigabytes

/-- The modes agree on a voice and two bars. -/
theorem modesAgree_voice :
  let terminal := terminalWith "% sine  |  |".toList
  (∀ mode, AsksToFormat terminal.console (asking mode) mode scoreFile) ∧
    Holds terminal scoreFile "% sine  |  |".toList ∧ terminal.files.full = false ∧
    Layout.format (unifyLineEnds "% sine  |  |".toList) = .ok "% sine | |".toList ∧
    ModesAgree (asking .print) (asking .check) (asking .inPlace) scoreFile terminal
  := by
  intro terminal
  have hholds : Holds terminal scoreFile "% sine  |  |".toList := by
    constructor <;> decide +kernel
  have hformat : Layout.format (unifyLineEnds "% sine  |  |".toList) = .ok "% sine | |".toList := by
    decide +kernel
  have hagain : Layout.format "% sine | |".toList = .ok "% sine | |".toList := by
    decide +kernel
  refine ⟨asksToFormat_asking, hholds, rfl, hformat, ?_⟩
  have hasks := asksToFormat_asking
  obtain ⟨hiff, hshown⟩ := modesAgree_iff (hasks .print) (hasks .check) (hasks .inPlace) hholds
    rfl hformat
  rw [hiff]
  use hshown (by decide), fun hmem => absurd hmem (by decide)
  apply (Layout.formatIn_formatIn_iff hformat).mp hagain

/-- Comparing finds nothing to change in a line with a carriage return, which writing takes away. -/
theorem not_modesAgree_carriageReturn :
  let terminal := terminalWith "| (Cn_4 1/4)\r\n".toList
  (∀ mode, AsksToFormat terminal.console (asking mode) mode scoreFile) ∧
    Holds terminal scoreFile "| (Cn_4 1/4)\r\n".toList ∧ statusOf (asking .check) terminal = 0 ∧
    held scoreFile (after (asking .inPlace) terminal) = .ok (encode "| (Cn_4 1/4)\n".toList) ∧
    ¬ModesAgree (asking .print) (asking .check) (asking .inPlace) scoreFile terminal
  := by
  intro terminal
  have hasks := asksToFormat_asking
  have hholds : Holds terminal scoreFile "| (Cn_4 1/4)\r\n".toList := by
    constructor <;> decide +kernel
  have hformat : Layout.format (unifyLineEnds "| (Cn_4 1/4)\r\n".toList) =
      .ok "| (Cn_4 1/4)\n".toList := by
    decide +kernel
  have hchecked : statusOf (asking .check) terminal = 0 :=
    (statusOf_check_iff (hasks .check) hholds).mpr hformat
  have hwritten := (holds_rewrite hformat (hasks .inPlace) hholds rfl).1.content
  refine ⟨hasks, hholds, hchecked, hwritten, ?_⟩
  intro hagree
  have hsame := hagree.compared.mp hchecked
  rw [hwritten, hholds.content] at hsame
  revert hsame
  decide +kernel

end Files

end Tunescript.CommandLine
