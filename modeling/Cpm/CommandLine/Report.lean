/-!
# Reports

An error is reported with what led to it: what was being done, and the reasons from
the nearest to the farthest. A single reason stands indented, several are numbered.
-/

namespace Cpm

structure Report where
  message : String
  causes : List String
  deriving DecidableEq, Repr

namespace Report

/-- Text whose further lines are indented by as many blanks as the mark of its first
line is long. -/
def hanging (mark text : String) : String :=
  let blanks := List.replicate mark.length ' '
  mark ++ String.ofList (text.toList.flatMap fun c => if c = '\n' then c :: blanks else [c])

def number (n : Nat) : String :=
  let digits := toString n
  String.ofList (List.replicate (5 - digits.length) ' ') ++ digits ++ ": "

def numbered (causes : List String) : List String :=
  causes.mapIdx fun n cause => hanging (number n) cause

def causeLines : List String → List String
  | [] => []
  | [cause] => ["", "Caused by:", hanging "    " cause]
  | causes => "" :: "Caused by:" :: numbered causes

def lines (r : Report) : List String := ("Error: " ++ r.message) :: causeLines r.causes

def text (r : Report) : String := String.join (r.lines.map (· ++ "\n"))

end Report

end Cpm
