import TodoTracker.Marker.Candidate

/-!
# What a marker asks for

A marker without a key asks for a task. A key of an existing task asks to confirm that the task is
anchored here. A written key of a task that does not exist is stale and is removed; a bare word
that merely looks like a key is text.
-/

set_option autoImplicit false

namespace TodoTracker

inductive Action
  | create
  | confirm
  | prune
  | ignore
  deriving DecidableEq, Repr

def Action.text : Action → Text
  | .create => "create_and_anchor".toList
  | .confirm => "confirm_anchor".toList
  | .prune => "prune_stale_key".toList
  | .ignore => "ignore".toList

structure Policy where
  createTasks : Bool := false
  mentions : Bool := true
  stripAttributes : Bool := true
  deriving DecidableEq, Repr

structure Decision where
  action : Action
  key : Option Text
  reason : Text
  deriving DecidableEq, Repr

namespace Decision

def ignored (key : Option Text) (reason : String) : Decision := ⟨.ignore, key, reason.toList⟩

def creation : Decision := ⟨.create, none, []⟩

/-- A marker without a key. -/
def withoutKey (candidate : Candidate) (policy : Policy) : Decision :=
  if candidate.isMention then ignored none "no key"
  else if policy.createTasks then creation
  else ignored none "task creation disabled"

/-- A marker with a key, when it is known whether the key is that of a task. -/
def withKey (candidate : Candidate) (policy : Policy) (key : Text) (known : Bool) : Decision :=
  let written := candidate.carried.any (·.form.isWritten)
  if known then
    if policy.mentions then ⟨.confirm, some key, []⟩ else ignored (some key) "mentions disabled"
  else if !candidate.isMention && written && policy.stripAttributes then ⟨.prune, some key, []⟩
  else if !candidate.isMention && !written && policy.createTasks then creation
  else ignored (some key) "unknown task"

/-- What a marker asks for, given which keys are those of tasks. -/
def decide (candidate : Candidate) (policy : Policy) (known : Text → Bool) : Decision :=
  match candidate.key with
  | none => withoutKey candidate policy
  | some key => withKey candidate policy key (known key)

end Decision

end TodoTracker
