import ScriptKernel.Proofs.Machine.ScopeDiscipline

/-!
Two runs side by side. They concur when both end, and end alike, or stop early
for the same reason with the same output. A run that stops for want of fuel or
of calls decides nothing.
-/

namespace ScriptKernel

def Halt.IsExhaustion : Halt → Prop
  | .outOfFuel => True
  | .fault (.callDepth _ _) => True
  | _ => False

/-- How closely two runs are compared. -/
inductive Comparison where
  /-- The second run does what the first does, unless that one is exhausted. -/
  | lockstep
  /-- Only values are compared: either run may be exhausted, and a failure of
  the first says nothing. -/
  | apart
deriving DecidableEq

variable {α β : Type}

/-- The results concur: where both runs end, what they end with is related, and
where they fail, they fail alike. -/
def Concur (mode : Comparison) (post : α → State → β → State → Prop) :
    EStateM.Result Halt State α → EStateM.Result Halt State β → Prop
  | .ok a st, .ok b st' => post a st b st'
  | .error h st, .error h' st' =>
    h.IsExhaustion ∨ mode = .apart ∨ (h' = h ∧ st'.console = st.console)
  | .error h _, .ok _ _ => h.IsExhaustion ∨ mode = .apart
  | .ok _ _, .error h _ => mode = .apart ∧ h.IsExhaustion

namespace Concur

variable {mode : Comparison} {post wider : α → State → β → State → Prop}
  {result : EStateM.Result Halt State α} {result' : EStateM.Result Halt State β}

theorem mono (concur : Concur mode post result result')
    (sub : ∀ a st b st', post a st b st' → wider a st b st') : Concur mode wider result result' := by
  cases result with
  | ok a st =>
    cases result' with
    | ok b st' => exact sub a st b st' concur
    | error h' st' => exact concur
  | error h st =>
    cases result' with
    | ok b st' => exact concur
    | error h' st' => exact concur

theorem of_exhausted {h : Halt} {st : State} (exhausted : h.IsExhaustion) :
    Concur mode post (.error h st) result' := by
  cases result' with
  | ok b st' => exact Or.inl exhausted
  | error h' st' => exact Or.inl exhausted

theorem of_failed {h : Halt} {st : State} (apart : mode = .apart) :
    Concur mode post (.error h st) result' := by
  cases result' with
  | ok b st' => exact Or.inr apart
  | error h' st' => exact Or.inr (Or.inl apart)

theorem of_exhausted_second {h : Halt} {st : State} (apart : mode = .apart)
    (exhausted : h.IsExhaustion) : Concur mode post result (.error h st) := by
  cases result with
  | ok a _ => exact ⟨apart, exhausted⟩
  | error h' _ => exact Or.inr (Or.inl apart)

end Concur

/-- The results agree: values are equal, have the property and leave related
states. -/
abbrev Agree (mode : Comparison) (P : α → Prop) (post : State → State → Prop) :
    EStateM.Result Halt State α → EStateM.Result Halt State α → Prop :=
  Concur mode fun a st b st' => a = b ∧ P a ∧ post st st'

theorem Agree.mono {mode : Comparison} {P Q : α → Prop} {post wider : State → State → Prop}
    {result result' : EStateM.Result Halt State α} (agree : Agree mode P post result result')
    (property : ∀ a, P a → Q a) (sub : ∀ st st', post st st' → wider st st') : Agree mode Q wider result result' :=
  Concur.mono agree fun a st _ st' ends => ⟨ends.1, property a ends.2.1, sub st st' ends.2.2⟩

def Matched (mode : Comparison) (setting : Setting) (pre : State → State → Prop) (P : α → Prop)
    (post : State → State → Prop) (run run' : Run α) : Prop :=
  ∀ st st', pre st st' → Agree mode P post (run setting st) (run' setting st')

namespace Matched

variable {mode : Comparison} {setting : Setting} {pre mid post wider : State → State → Prop}
  {P Q : α → Prop} {run run' : Run α}

theorem mono (matched : Matched mode setting pre P post run run') (property : ∀ a, P a → Q a)
    (sub : ∀ st st', post st st' → wider st st') : Matched mode setting pre Q wider run run' :=
  fun st st' related => (matched st st' related).mono property sub

theorem pure {a : α} (holds : P a) : Matched mode setting pre P pre (Pure.pure a) (Pure.pure a) :=
  fun _ _ related => ⟨rfl, holds, related⟩

theorem bind {R : β → Prop} {next next' : α → Run β}
    (first : Matched mode setting pre P mid run run')
    (rest : ∀ a, P a → Matched mode setting mid R post (next a) (next' a)) :
    Matched mode setting pre R post (run >>= next) (run' >>= next') := by
  intro st st' related
  have agree := first st st' related
  cases ran : run setting st with
  | ok a last =>
    rw [Run.bind_ok next ran]
    cases ran' : run' setting st' with
    | ok b last' =>
      rw [ran, ran'] at agree
      obtain ⟨rfl, holds, after⟩ := agree
      rw [Run.bind_ok next' ran']
      exact rest a holds last last' after
    | error h last' =>
      rw [ran, ran'] at agree
      rw [Run.bind_error next' ran']
      exact .of_exhausted_second agree.1 agree.2
  | error h last =>
    rw [Run.bind_error next ran]
    cases ran' : run' setting st' with
    | ok b last' =>
      rw [ran, ran'] at agree
      exact agree.elim .of_exhausted .of_failed
    | error h' last' =>
      rw [ran, ran'] at agree
      rw [Run.bind_error next' ran']
      exact agree

theorem read_bind {next next' : Setting → Run α}
    (rest : Matched mode setting pre P post (next setting) (next' setting)) :
    Matched mode setting pre P post (MonadReader.read >>= next) (MonadReader.read >>= next') :=
  fun st st' related => rest st st' related

theorem halt {h : Halt} (exhausted : h.IsExhaustion) :
    Matched mode setting pre P post (Run.halt h) run' :=
  fun _ _ _ => .of_exhausted exhausted

end Matched

end ScriptKernel
