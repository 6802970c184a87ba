import RabinReward.Shell.Number

/-!
# Signals

Signals have numbers and names; number 0 is the end of the shell.
-/

namespace RabinReward.Shell

def signalNames : List String :=
  ["EXIT", "HUP", "INT", "QUIT", "ILL", "TRAP", "ABRT", "BUS", "FPE", "KILL", "USR1", "SEGV",
    "USR2", "PIPE", "ALRM", "TERM", "16", "CHLD", "CONT", "STOP", "TSTP", "TTIN", "TTOU",
    "URG", "XCPU", "XFSZ", "VTALRM", "PROF", "WINCH", "I" ++ "O", "PWR", "SYS", "32",
    "33", "RTMIN", "RTMIN+1", "RTMIN+2", "RTMIN+3", "RTMIN+4", "RTMIN+5", "RTMIN+6", "RTMIN+7",
    "RTMIN+8", "RTMIN+9", "RTMIN+10", "RTMIN+11", "RTMIN+12", "RTMIN+13", "RTMIN+14", "RTMIN+15",
    "RTMAX-14", "RTMAX-13", "RTMAX-12", "RTMAX-11", "RTMAX-10", "RTMAX-9", "RTMAX-8", "RTMAX-7",
    "RTMAX-6", "RTMAX-5", "RTMAX-4", "RTMAX-3", "RTMAX-2", "RTMAX-1", "RTMAX"]

def signalName (n : Nat) : String := signalNames[n]?.getD ""

/-- The number of a signal that is given by a number. -/
def signalNumber? (s : String) : Option Nat := (decimal? s).filter (· < 65)

/-- The number of a signal that is given by a number or a name, in any case. -/
def signal? (s : String) : Option Nat :=
  match signalNumber? s with
  | some n => some n
  | none =>
    let upper := String.ofList (s.toList.map toUpper)
    signalNames.findIdx? (· == upper)

/-- Signals that do nothing to a process that has no trap for them. -/
def isHarmless (n : Nat) : Bool := n == 0 || n == 17 || n == 18 || n == 23 || n == 28

end RabinReward.Shell
