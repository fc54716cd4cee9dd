import Cosy.Commands
import Cosy.MemoryMaps

/-!
# What is written

The text of every message. It is made of the message and of what the C library and the files say: the
names of the signals, the reasons for which requests fail, and the lines of the source.
-/

namespace Cosy

/-- The C library and the files, as far as the debugger quotes them. -/
structure Quoted where
  strsignal : Nat → Option Text
  /-- `std::strerror` of the `errno` with which the operation has failed. -/
  strerror : String → Text
  /-- `what` of `std::out_of_range`. -/
  outOfRange : Text
  /-- What is in a file that can be read. -/
  file : Text → Option Text

/-! ### Numbers and columns -/

/-- An integer, as it is inserted into a stream. -/
def decimal : Int → Text
  | .ofNat n => Nat.toDigits 10 n
  | .negSucc n => '-' :: Nat.toDigits 10 (n + 1)

/-- `std::setw`, which fills up with blanks on the left. -/
def setw (width : Nat) (text : Text) : Text := text.leftpad width ' '

/-- The same after `std::left`. -/
def setwLeft (width : Nat) (text : Text) : Text := text.rightpad width ' '

def endLine (text : Text) : Text := text ++ ['\n']

section Quoted

variable (quoted : Quoted)

def signalName (signal : Nat) : Text := (quoted.strsignal signal).getD (decimal signal)

def Exception.what : Exception → Text
  | .system operation => operation.toList ++ ": ".toList ++ quoted.strerror operation
  | .runtime text => text.toList
  | .outOfRange => quoted.outOfRange

/-! ### The source -/

def sourceRow (line number : Int) (text : Text) : Text :=
  (if number = line then "=>" else "  ").toList ++ setw 4 (decimal number) ++ "  ".toList ++ text

/-- The loop of `print_source` over the lines that are left, of which the first has this number. -/
def sourceLines (line first last : Int) : Int → List Text → Text
  | _, [] => []
  | number, text :: rest =>
      (if first ≤ number ∧ number ≤ last then endLine (sourceRow line number text) else []) ++
      if last < number then [] else sourceLines line first last (number + 1) rest

def printSource (location : SourceLocation) : Text :=
  if location.valid then
    match quoted.file location.file with
    | none => []
    | some contents =>
        sourceLines location.line (max 1 (location.line - 2)) (location.line + 2) 1
          (getLines contents)
  else []

/-! ### Messages -/

def helpText : Text :=
  ("break LOCATION          LOCATION is *0xADDR, symbol, lib.so!symbol, or file:line\n" ++
    "continue | c            resume every stopped thread\n" ++
    "stepi | si              execute one instruction on the selected thread\n" ++
    "step | s                source-step selected thread\n" ++
    "next | n                source-step selected thread without resuming others\n" ++
    "finish                  run until current function returns\n" ++
    "delete ID, enable ID, disable ID, info break\n" ++
    "watch ADDRESS [r|w|rw] [1|2|4|8]\n" ++
    "backtrace | bt, frame NUMBER, info locals, print NAME\n" ++
    "info registers, register read NAME, register write NAME VALUE\n" ++
    "x ADDRESS [COUNT], set memory ADDRESS VALUE\n" ++
    "info threads, thread TID, info sharedlibrary, quit\n").toList

/-- A row of `info break`: where the record is and its state, or that it is pending. -/
def breakpointText (breakpoint : Breakpoint) : Text :=
  endLine (setw 3 (decimal breakpoint.id) ++ "  breakpoint    ".toList ++
    (if breakpoint.pending then setw 18 "<pending>".toList ++ "  pending   ".toList
      else setw 18 (hex breakpoint.address) ++ "  ".toList ++
        (if breakpoint.enabled then "enabled " else "disabled").toList ++ "  ".toList) ++
    breakpoint.specification)

def threadText (selected : Bool) (state : ThreadState) : Text :=
  endLine ((if selected then "* " else "  ").toList ++ decimal state.tid ++ "  ".toList ++
    (if state.stopped then "stopped" else "running").toList ++
    if state.stopped && state.signal ≠ 0 then " (".toList ++ signalName quoted state.signal ++ ")".toList
    else [])

def frameText (selected : Bool) (index : Nat) (pc : Address) (function : Text)
    (location : SourceLocation) (frame : Address) : Text :=
  endLine ((if selected then "=>" else "  ").toList ++ '#' :: decimal index ++ ' ' :: hex pc ++
    " in ".toList ++ function ++
    (if location.valid then " at ".toList ++ location.file ++ ':' :: decimal location.line else []) ++
    " (fp=".toList ++ hex frame ++ ")".toList)

def memoryLine (address value : Address) : Text := hex address ++ ": ".toList ++ hex value

/-- What is written of a message. -/
def Message.text : Message → Text
  | .line text => if text = "help" then helpText else endLine text.toList
  | .banner name child =>
      endLine ("Cosy ".toList ++ name ++ " debugger; target pid ".toList ++ decimal child)
  | .error exception => endLine ("error: ".toList ++ exception.what quoted)
  | .resolvedPending id address =>
      endLine ("resolved pending breakpoint ".toList ++ decimal id ++ " at ".toList ++ hex address)
  | .breakpointPending id specification =>
      endLine ("breakpoint ".toList ++ decimal id ++ " pending: ".toList ++ specification)
  | .breakpointAt id address =>
      endLine ("breakpoint ".toList ++ decimal id ++ " at ".toList ++ hex address)
  | .temporaryAt id address =>
      endLine ("temporary breakpoint ".toList ++ decimal id ++ " at ".toList ++ hex address)
  | .cannotFinish exception => endLine ("cannot finish: ".toList ++ exception.what quoted)
  | .watchpointAt id address =>
      endLine ("watchpoint ".toList ++ decimal id ++ " at ".toList ++ hex address)
  | .watchpointFailed exception => endLine ("watchpoint failed: ".toList ++ exception.what quoted)
  | .exited tid code =>
      endLine ("thread ".toList ++ decimal tid ++ " exited with status ".toList ++ decimal code)
  | .terminated tid signal =>
      endLine ("thread ".toList ++ decimal tid ++ " terminated by ".toList ++ signalName quoted signal)
  | .hitBreakpoint id address =>
      endLine ("hit breakpoint ".toList ++ decimal id ++ " at ".toList ++ hex address)
  | .temporaryRemoved id =>
      endLine ("temporary breakpoint ".toList ++ decimal id ++ " removed".toList)
  | .hitWatchpoint id address =>
      endLine ("hit watchpoint ".toList ++ decimal id ++ " at ".toList ++ hex address)
  | .trapInspectionFailed exception =>
      endLine ("trap inspection failed: ".toList ++ exception.what quoted)
  | .threadStopped tid => endLine ("thread ".toList ++ decimal tid ++ " stopped".toList)
  | .threadStoppedBy tid signal =>
      endLine ("thread ".toList ++ decimal tid ++ " stopped by ".toList ++ signalName quoted signal)
  | .atLine function location =>
      endLine ("at ".toList ++ function ++ ' ' :: location.file ++ ':' :: decimal location.line) ++
        printSource quoted location
  | .atFunction function pc => endLine ("at ".toList ++ function ++ " (".toList ++ hex pc ++ ")".toList)
  | .breakpointRow breakpoint => breakpointText breakpoint
  | .threadRow selected state => threadText quoted selected state
  | .moduleRow info => endLine (hex info.base ++ '-' :: hex info.last ++ "  ".toList ++ info.path)
  | .registerRow name value => endLine (setwLeft 10 name ++ hex value)
  | .frameRow selected index pc function location frame =>
      frameText selected index pc function location frame
  | .variableRow value => endLine (value.name ++ " = ".toList ++ value.value)
  | .memoryRow address value => endLine (memoryLine address value)
  | .memoryFailed address exception =>
      endLine (hex address ++ ": ".toList ++ exception.what quoted)
  | .registerValue value => endLine ((value.map hex).getD "unknown register".toList)

def Entry.text : Entry → Text
  | .out message => message.text quoted
  | _ => []

/-- What has been written in a stretch of the log, whose newest entry is the first. -/
def written (log : List Entry) : Text := log.reverse.flatMap (Entry.text quoted)

end Quoted

/-! ### Lines -/

theorem getLines_endLine {line : Text} (hline : '\n' ∉ line) (text : Text) :
    getLines (endLine line ++ text) = line :: getLines text := by
  rw [endLine, List.append_assoc, List.singleton_append]
  exact getLines_append hline text

/-- Lines that have been written are found again. -/
theorem getLines_flatMap {α : Type} {line : α → Text} {xs : List α} (hline : ∀ x ∈ xs, '\n' ∉ line x) :
    getLines (xs.flatMap fun x => endLine (line x)) = xs.map line := by
  induction xs with
  | nil => rfl
  | cons x xs ih =>
      rw [List.flatMap_cons, getLines_endLine (hline x List.mem_cons_self),
        ih fun y hmem => hline y (List.mem_cons_of_mem _ hmem), List.map_cons]

theorem written_append (quoted : Quoted) (newer older : List Entry) :
    written quoted (newer ++ older) = written quoted older ++ written quoted newer := by
  rw [written, List.reverse_append, List.flatMap_append]
  rfl

/-! ### The source around a line -/

/-- Leaving the loop early loses nothing: the lines that are written are those of the range. -/
theorem sourceLines_eq (line first last : Int) (lines : List Text) (n : Nat) :
    sourceLines line first last n lines =
      ((lines.zipIdx n).filter fun entry => first ≤ (entry.2 : Int) ∧ (entry.2 : Int) ≤ last).flatMap
        fun entry => endLine (sourceRow line entry.2 entry.1) := by
  induction lines generalizing n with
  | nil => rfl
  | cons text rest ih =>
      have hrest : (if last < (n : Int) then [] else sourceLines line first last (n + 1) rest) =
          ((rest.zipIdx (n + 1)).filter fun entry =>
            first ≤ (entry.2 : Int) ∧ (entry.2 : Int) ≤ last).flatMap
              fun entry => endLine (sourceRow line entry.2 entry.1) := by
        by_cases hpast : last < (n : Int)
        · rw [if_pos hpast, List.filter_eq_nil_iff.mpr, List.flatMap_nil]
          intro entry hmem
          have hlater := List.le_snd_of_mem_zipIdx hmem
          simp only [decide_eq_true_eq]
          omega
        · rw [if_neg hpast]
          exact_mod_cast ih (n + 1)
      rw [sourceLines, hrest, List.zipIdx_cons, List.filter_cons]
      by_cases hwithin : first ≤ (n : Int) ∧ (n : Int) ≤ last
      · rw [if_pos hwithin, if_pos (by simpa using hwithin), List.flatMap_cons]
      · rw [if_neg hwithin, if_neg (by simpa using hwithin), List.nil_append]

theorem printSource_eq (quoted : Quoted) {location : SourceLocation} {contents : Text}
    (hvalid : location.valid = true) (hfile : quoted.file location.file = some contents) :
    printSource quoted location =
      (((getLines contents).zipIdx 1).filter fun entry =>
        location.line - 2 ≤ (entry.2 : Int) ∧ (entry.2 : Int) ≤ location.line + 2).flatMap
          fun entry => endLine (sourceRow location.line entry.2 entry.1) := by
  rw [printSource, if_pos hvalid, hfile]
  dsimp only
  rw [show (1 : Int) = ((1 : Nat) : Int) from rfl, sourceLines_eq]
  congr 1
  apply List.filter_congr
  intro entry hmem
  have hfirst := List.le_snd_of_mem_zipIdx hmem
  simp only [decide_eq_decide]
  omega

end Cosy
