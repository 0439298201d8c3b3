/-!
# Programs

A program is a value or a question to its surroundings together with what to do next for each
answer. Which questions there are, and what answers them, is a signature. A program does nothing
by itself: whoever runs it answers its questions, at once or later.
-/

namespace Flotilla

/-- The questions that a program may ask, and the answers to each. -/
structure Signature where
  /-- The questions. -/
  Ask : Type
  /-- The answers to a question. -/
  Answer : Ask → Type

/-- A program that ends with a value. -/
inductive Program (S : Signature) (α : Type) where
  /-- The end. -/
  | done (value : α)
  /-- A question, and how to go on. -/
  | ask (question : S.Ask) (next : S.Answer question → Program S α)

namespace Program

variable {S : Signature} {α β γ : Type}

/-- Go on with another program when this one ends. -/
def bind (p : Program S α) (f : α → Program S β) : Program S β :=
  match p with
  | .done value => f value
  | .ask question next => .ask question fun answer => (next answer).bind f

instance : Monad (Program S) where
  pure := .done
  bind := .bind

/-- Ask one question and end with its answer. -/
def query (question : S.Ask) : Program S (S.Answer question) := .ask question .done

@[simp] theorem bind_done (p : Program S α) : p.bind .done = p := by
  induction p with
  | done => rfl
  | ask q next ih => simp [bind, ih]

/-- A program followed by two more is the same program in whichever order they are put together. -/
theorem bind_assoc (p : Program S α) (f : α → Program S β) (g : β → Program S γ) :
    (p.bind f).bind g = p.bind fun a => (f a).bind g := by
  induction p with
  | done => rfl
  | ask q next ih => simp [bind, ih]

end Program

end Flotilla
