/-!
# Verdicts

What comes out when a receiver looks at a message: it accepts the message, it
rejects it, or its test breaks down. A test is a fixed function, so the same
message always gets the same verdict.

## Main definitions

* `Verdict`: What a test says about a message.
* `Matcher`: A test on messages.
* `Verdict.accepts`: Whether a verdict lets the message through.
-/

namespace Actors

/-- What a test says about a message. -/
inductive Verdict where
  /-- The message is wanted. -/
  | accept
  /-- The message is not wanted. -/
  | reject
  /-- The test broke down, with a text that says how. -/
  | panic (message : String)
deriving DecidableEq, Inhabited, Repr

/-- A test on messages. -/
abbrev Matcher (μ : Type) := μ → Verdict

namespace Verdict

/-- The verdict that a truth value stands for. -/
def ofBool (b : Bool) : Verdict := if b then .accept else .reject

/-- Whether a verdict lets the message through. A test that broke down does not. -/
def accepts : Verdict → Bool
  | .accept => true
  | .reject | .panic _ => false

/-- The opposite verdict. A test that broke down stays broken. -/
def negate : Verdict → Verdict
  | .accept => .reject
  | .reject => .accept
  | .panic message => .panic message

@[simp] theorem accepts_iff {v : Verdict} : v.accepts = true ↔ v = .accept := by
  cases v <;> simp [accepts]

@[simp] theorem accepts_ofBool (b : Bool) : (ofBool b).accepts = b := by
  cases b <;> rfl

end Verdict

end Actors
