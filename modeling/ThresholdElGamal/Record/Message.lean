/-! # Messages about problems

A check that fails leaves a problem and the checking goes on; the problems are reported
together, in the order in which they were found, each behind what it is about.
-/

namespace ThresholdElGamal

/-- A message behind the subject it is about. -/
def within (subject message : String) : String := "in " ++ subject ++ ": " ++ message

/-- The problem, unless the check holds. -/
def problemUnless {α : Type} (holds : Bool) (problem : α) : List α :=
  if holds then [] else [problem]

def unlessProblems {ε α : Type} (problems : List ε) (value : α) : Except (List ε) α :=
  if problems.isEmpty then .ok value else .error problems

inductive Stage where
  | configuration
  | session
  | plaintext
  | layout
  | verification
deriving DecidableEq

namespace Stage

def heading : Stage → String
  | configuration => "invalid decryption configuration:"
  | session => "decryption session failed:"
  | plaintext => "plaintext recovery failed:"
  | layout => "inconsistent ballot structure:"
  | verification => "verification failed:"

end Stage

/-- One indented line for each message. -/
def messageLines (messages : List String) : String :=
  String.join (messages.map fun m => "  " ++ m ++ "\n")

def Stage.display (stage : Stage) (messages : List String) : String :=
  stage.heading ++ "\n" ++ messageLines messages

end ThresholdElGamal
