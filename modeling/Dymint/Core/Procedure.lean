import Mathlib.Algebra.Order.Ring.Int

/-!
# Procedures made of atomic steps

A procedure acts on a shared state in atomic steps.  Every step receives an
answer from its environment (did the call fail, and did it fail before or after
it took effect), so that one definition can be run to its end, stopped by a
crash between two steps, or interleaved with other procedures.

`wp` is the weakest precondition of a procedure: its postcondition holds at the
end, and a crash condition holds in every state the procedure passes through.
-/

namespace Dymint.Procedure

inductive Result (ε α : Type) where
  | ok (value : α)
  | err (error : ε)
  | panic
  deriving DecidableEq

namespace Result

variable {ε α β : Type}

def bind : Result ε α → (α → Result ε β) → Result ε β
  | ok value, rest => rest value
  | err error, _ => err error
  | panic, _ => panic

instance : Monad (Result ε) where
  pure := ok
  bind := bind

def mapErr (map : ε → ε) : Result ε α → Result ε α
  | ok value => ok value
  | err error => err (map error)
  | panic => panic

def ofExcept : Except ε α → Result ε α
  | .ok value => ok value
  | .error error => err error

@[simp]
theorem pure_eq (value : α) : (pure value : Result ε α) = ok value := rfl

@[simp]
theorem ok_bind (value : α) (rest : α → Result ε β) : (ok value >>= rest) = rest value := rfl

@[simp]
theorem err_bind (error : ε) (rest : α → Result ε β) : (err error >>= rest) = err error := rfl

@[simp]
theorem panic_bind (rest : α → Result ε β) : ((panic : Result ε α) >>= rest) = panic := rfl

variable {result : Result ε α} {rest : α → Result ε β}

theorem bind_eq_ok {value : β} :
    (result >>= rest) = ok value ↔ ∃ middle, result = ok middle ∧ rest middle = ok value := by
  cases result <;> simp

/-- A sequence of checks succeeds exactly when each of them does. -/
theorem check_bind_eq_ok {check : Result ε Unit} {rest : Result ε α} {value : α} :
    (check >>= fun _ => rest) = ok value ↔ check = ok () ∧ rest = ok value := by
  cases check <;> simp

theorem ofExcept_eq_ok {result : Except ε α} {value : α} :
    ofExcept result = ok value ↔ result = .ok value := by
  cases result <;> simp [ofExcept]

theorem bind_ne_panic : (result >>= rest) ≠ panic ↔
      result ≠ panic ∧ ∀ value, result = ok value → rest value ≠ panic := by
  cases result <;> simp

theorem ofExcept_ne_panic (result : Except ε α) : ofExcept result ≠ panic := by
  cases result <;> simp [ofExcept]

/-- How a call fails, if it does: with an error or by panicking. -/
def failure : Result ε α → Option (Option ε)
  | ok _ => none
  | err error => some (some error)
  | panic => some none

theorem failure_eq_panic_iff : result.failure = some none ↔ result = panic := by
  cases result <;> simp [failure]

theorem failure_eq_err_iff {error : ε} :
    result.failure = some (some error) ↔ result = err error := by
  cases result <;> simp [failure]

theorem failure_bind_eq_some_iff {fault : Option ε} :
    (result >>= rest).failure = some fault ↔ result.failure = some fault ∨
        ∃ value, result = ok value ∧ (rest value).failure = some fault := by
  cases result <;> simp [failure]

theorem bind_ne_err {error : ε} : (result >>= rest) ≠ err error ↔
      result ≠ err error ∧ ∀ value, result = ok value → rest value ≠ err error := by
  cases result <;> simp

/-- Read through a pointer; `none` is nil. -/
def deref : Option α → Result ε α
  | none => panic
  | some value => ok value

def Succeeds (result : Result ε α) : Prop := ∃ value, result = ok value

@[simp]
theorem succeeds_ok (value : α) : (ok value : Result ε α).Succeeds := ⟨value, rfl⟩

@[simp]
theorem not_succeeds_err (error : ε) : ¬ (err error : Result ε α).Succeeds := by
  simp [Succeeds]

@[simp]
theorem not_succeeds_panic : ¬ (panic : Result ε α).Succeeds := by
  simp [Succeeds]

theorem succeeds_bind : (result >>= rest).Succeeds ↔
      ∃ value, result = ok value ∧ (rest value).Succeeds := by
  cases result <;> simp

theorem eq_err_of_not_succeeds (hpanic : result ≠ panic)
    (hfails : ¬ result.Succeeds) : ∃ error, result = err error := by
  cases result with
  | ok value => exact absurd (succeeds_ok value) hfails
  | err error => exact ⟨error, rfl⟩
  | panic => exact absurd rfl hpanic

end Result

theorem except_bind_eq_ok {ε α β : Type} {result : Except ε α} {rest : α → Except ε β} {value : β} :
    (result >>= rest) = .ok value ↔ ∃ middle, result = .ok middle ∧ rest middle = .ok value := by
  cases result <;> simp [bind, Except.bind]

/-- A procedure over the state `σ`, whose atomic steps are answered by `ι`. -/
inductive Proc (σ ι ε α : Type) where
  | done (result : Result ε α)
  | atom (update : ι → σ → σ) (next : ι → σ → Proc σ ι ε α)

namespace Proc

variable {σ ι ε α β : Type}

def bind : Proc σ ι ε α → (α → Proc σ ι ε β) → Proc σ ι ε β
  | done (.ok value), rest => rest value
  | done (.err error), _ => done (.err error)
  | done .panic, _ => done .panic
  | atom update next, rest =>
    atom update fun answer state => (next answer state).bind rest

instance : Monad (Proc σ ι ε) where
  pure value := done (.ok value)
  bind := bind

theorem bind_assoc {γ : Type} (proc : Proc σ ι ε α) (first : α → Proc σ ι ε β)
    (second : β → Proc σ ι ε γ) :
    (proc >>= first) >>= second = proc >>= fun value => first value >>= second := by
  change (proc.bind first).bind second = proc.bind fun value =>
    (first value).bind second
  induction proc with
  | done result => cases result <;> rfl
  | atom update next ih =>
    simp only [bind]
    congr 1
    funext answer state
    exact ih answer state

theorem pure_bind (value : α) (rest : α → Proc σ ι ε β) : (pure value >>= rest) = rest value := rfl

theorem bind_pure (proc : Proc σ ι ε α) : (proc >>= fun value => pure value) = proc := by
  change (proc.bind fun value => done (.ok value)) = proc
  induction proc with
  | done result => cases result <;> rfl
  | atom update next ih =>
    simp only [bind]
    congr 1
    funext answer state
    exact ih answer state

theorem bind_pure_unit (proc : Proc σ ι ε Unit) :
    (proc >>= fun _ => pure ()) = proc := bind_pure proc

def fail (error : ε) : Proc σ ι ε α := done (.err error)

def abort : Proc σ ι ε α := done .panic

def op (run : ι → σ → σ × Result ε α) : Proc σ ι ε α :=
  atom (fun answer state => (run answer state).1)
    fun answer state => done (run answer state).2

def read (view : σ → α) : Proc σ ι ε α := op fun _ state => (state, .ok (view state))

def write (update : σ → σ) : Proc σ ι ε Unit := op fun _ state => (update state, .ok ())

/-- A result that was computed without touching the shared state. -/
def ofResult (result : Result ε α) : Proc σ ι ε α := done result

def attempt : Proc σ ι ε α → Proc σ ι ε (Except ε α)
  | done (.ok value) => done (.ok (.ok value))
  | done (.err error) => done (.ok (.error error))
  | done .panic => done .panic
  | atom update next =>
    atom update fun answer state => (next answer state).attempt

/-- Run a procedure to its end, answering step `n` by `answers n`. -/
def exec : Proc σ ι ε α → (ℕ → ι) → σ → σ × Result ε α
  | done result, _, state => (state, result)
  | atom update next, answers, state =>
    (next (answers 0) state).exec (fun n => answers (n + 1)) (update (answers 0) state)

/-- What is left of a procedure after its first `n` steps, and the state they
lead to. -/
def after : ℕ → Proc σ ι ε α → (ℕ → ι) → σ → Proc σ ι ε α × σ
  | 0, proc, _, state => (proc, state)
  | _ + 1, done result, _, state => (done result, state)
  | n + 1, atom update next, answers, state =>
    (next (answers 0) state).after n (fun k => answers (k + 1)) (update (answers 0) state)

/-! ## Weakest preconditions with a crash condition -/

/-- What a specification assumes of the environment's answers in each state,
and what it promises in every state that a procedure passes through. -/
structure Rules (σ ι : Type) where
  allowed : σ → ι → Prop
  crash : σ → Prop

def Rules.anyAnswer (ι : Type) {σ : Type} (crash : σ → Prop) : Rules σ ι where
  allowed _ _ := True
  crash := crash

/-- `proc.wp rules post state`: started in `state`, the procedure ends with
`post` whatever allowed answers it gets, and the crash condition holds before
every one of its steps. -/
def wp (rules : Rules σ ι) : Proc σ ι ε α → (Result ε α → σ → Prop) → σ → Prop
  | done result, post, state => post result state
  | atom update next, post, state =>
    rules.crash state ∧
      ∀ answer, rules.allowed state answer → (next answer state).wp rules post (update answer state)

variable {rules : Rules σ ι}

@[simp]
theorem wp_done (result : Result ε α) (post : Result ε α → σ → Prop) (state : σ) :
    (done result : Proc σ ι ε α).wp rules post state ↔ post result state :=
  Iff.rfl

@[simp]
theorem wp_ofResult (result : Result ε α) (post : Result ε α → σ → Prop) (state : σ) :
    (ofResult result : Proc σ ι ε α).wp rules post state ↔ post result state :=
  Iff.rfl

@[simp]
theorem wp_op (run : ι → σ → σ × Result ε α) (post : Result ε α → σ → Prop) (state : σ) :
    (op run).wp rules post state ↔ rules.crash state ∧ ∀ answer, rules.allowed state answer →
        post (run answer state).2 (run answer state).1 :=
  Iff.rfl

/-- The continuation of a bind as a postcondition of its first part. -/
def andThen (rules : Rules σ ι) (rest : α → Proc σ ι ε β)
    (post : Result ε β → σ → Prop) : Result ε α → σ → Prop
  | .ok value, state => (rest value).wp rules post state
  | .err error, state => post (.err error) state
  | .panic, state => post .panic state

@[simp]
theorem andThen_ok (rest : α → Proc σ ι ε β) (post : Result ε β → σ → Prop)
    (value : α) (state : σ) :
    andThen rules rest post (.ok value) state ↔ (rest value).wp rules post state := Iff.rfl

theorem wp_bind (proc : Proc σ ι ε α) (rest : α → Proc σ ι ε β) (post : Result ε β → σ → Prop)
    (state : σ) :
    (proc >>= rest).wp rules post state ↔ proc.wp rules (andThen rules rest post) state := by
  change (proc.bind rest).wp rules post state ↔ _
  induction proc generalizing state with
  | done result => cases result <;> rfl
  | atom update next ih =>
    simp only [bind, wp]
    refine and_congr_right fun _ => forall_congr' fun answer => ?_
    exact imp_congr_right fun _ => ih answer state (update answer state)

def attempted (post : Result ε (Except ε α) → σ → Prop) : Result ε α → σ → Prop
  | .ok value, state => post (.ok (.ok value)) state
  | .err error, state => post (.ok (.error error)) state
  | .panic, state => post .panic state

theorem wp_attempt (proc : Proc σ ι ε α) (post : Result ε (Except ε α) → σ → Prop) (state : σ) :
    proc.attempt.wp rules post state ↔ proc.wp rules (attempted post) state := by
  induction proc generalizing state with
  | done result => cases result <;> rfl
  | atom update next ih =>
    simp only [attempt, wp]
    refine and_congr_right fun _ => forall_congr' fun answer => ?_
    exact imp_congr_right fun _ => ih answer state (update answer state)

variable {proc : Proc σ ι ε α} {post post' : Result ε α → σ → Prop}

/-- A specification can be used under weaker promises and fewer answers. -/
theorem wp_mono {rules' : Rules σ ι} {state : σ} (hproc : proc.wp rules post state)
    (hallowed : ∀ state answer, rules'.allowed state answer → rules.allowed state answer)
    (hcrash : ∀ state, rules.crash state → rules'.crash state)
    (hpost : ∀ result state, post result state → post' result state) :
    proc.wp rules' post' state := by
  induction proc generalizing state with
  | done result => exact hpost result state hproc
  | atom update next ih =>
    refine ⟨hcrash state hproc.1, fun answer hanswer => ?_⟩
    exact ih answer state (hproc.2 answer (hallowed state answer hanswer))

/-- Weaken the postcondition only. -/
theorem wp_conseq {state : σ} (hproc : proc.wp rules post state)
    (hpost : ∀ result state, post result state → post' result state) : proc.wp rules post' state :=
  wp_mono hproc (fun _ _ h => h) (fun _ h => h) hpost

variable {rest : α → Proc σ ι ε β}

/-- Verify the first part of a composition against its own specification. -/
theorem wp_bind_of {middle : Result ε α → σ → Prop}
    {post : Result ε β → σ → Prop} {state : σ} (hproc : proc.wp rules middle state)
    (hrest : ∀ result state, middle result state → andThen rules rest post result state) :
    (proc >>= rest).wp rules post state :=
  (wp_bind proc rest post state).2 (wp_conseq hproc hrest)

/-- Two specifications of one procedure. -/
theorem wp_and {left right : Rules σ ι}
    {state : σ} (hleft : proc.wp left post state) (hright : proc.wp right post' state)
    (hallowed : ∀ state answer, rules.allowed state answer → left.allowed state answer ∧
      right.allowed state answer)
    (hcrash : ∀ state, left.crash state → right.crash state → rules.crash state) :
    proc.wp rules (fun result state => post result state ∧ post' result state)
      state := by
  induction proc generalizing state with
  | done result => exact ⟨hleft, hright⟩
  | atom update next ih =>
    refine ⟨hcrash state hleft.1 hright.1, fun answer hanswer => ?_⟩
    obtain ⟨hl, hr⟩ := hallowed state answer hanswer
    exact ih answer state (hleft.2 answer hl) (hright.2 answer hr)

section

variable {post : Result ε α → σ → Prop} {state : σ} (hproc : proc.wp rules post state)

include hproc

theorem exec_of_wp (answers : ℕ → ι) (hallowed : ∀ state n, rules.allowed state (answers n)) :
    post (proc.exec answers state).2 (proc.exec answers state).1 := by
  induction proc generalizing state answers with
  | done result => exact hproc
  | atom update next ih =>
    apply ih (answers 0) state (hproc.2 _ (hallowed state 0))
    intro later n
    exact hallowed later (n + 1)

theorem after_of_wp (answers : ℕ → ι)
    (hallowed : ∀ state n, rules.allowed state (answers n)) (steps : ℕ) :
    (proc.after steps answers state).1.wp rules post (proc.after steps answers state).2 := by
  induction steps generalizing proc state answers with
  | zero => exact hproc
  | succ steps ih =>
    cases proc with
    | done result => exact hproc
    | atom update next =>
      apply ih (hproc.2 _ (hallowed state 0))
      intro later n
      exact hallowed later (n + 1)

/-- The crash condition holds at the start of a procedure whose postcondition
implies it. -/
theorem wp_crash
    (hpost : ∀ result state, post result state → rules.crash state) : rules.crash state := by
  cases proc with
  | done result => exact hpost result state hproc
  | atom update next => exact hproc.1

end

/-! ## Postconditions by outcome -/

def Ends (returned : α → σ → Prop) (failed panicked : σ → Prop) : Result ε α → σ → Prop
  | .ok value, state => returned value state
  | .err _, state => failed state
  | .panic, state => panicked state

variable {result : Result ε α}

section

variable {returned : α → σ → Prop} {returned' : β → σ → Prop}
variable {failed panicked : σ → Prop} {state : σ}

/-- Sequential composition when both parts fail in the same way. -/
theorem wp_bind_ends (hproc : proc.wp rules (Ends returned failed panicked) state)
    (hrest : ∀ value later, returned value later → (rest value).wp rules (Ends returned' failed
      panicked) later) : (proc >>= rest).wp rules (Ends returned' failed panicked) state := by
  apply wp_bind_of hproc
  intro result later hlater
  cases result with
  | ok value => exact hrest value later hlater
  | err | panic => exact hlater

theorem wp_ends_mono {returned'' : α → σ → Prop}
    (hproc : proc.wp rules (Ends returned failed panicked) state)
    (hreturned : ∀ value later, returned value later → returned'' value later) :
    proc.wp rules (Ends returned'' failed panicked) state := by
  apply wp_conseq hproc
  intro result later hlater
  cases result with
  | ok value => exact hreturned value later hlater
  | err | panic => exact hlater

/-- Two specifications by outcome. -/
theorem wp_ends_and {crash crash' : σ → Prop} {also : α → σ → Prop} {failed' panicked' : σ → Prop}
    (hproc : proc.wp { rules with crash := crash } (Ends returned failed panicked) state)
    (halso : proc.wp { rules with crash := crash' } (Ends also failed' panicked') state)
    (hcrash : ∀ state, crash state → crash' state → rules.crash state) :
    proc.wp rules (Ends (fun value later => returned value later ∧ also value later)
        (fun later => failed later ∧ failed' later)
        (fun later => panicked later ∧ panicked' later)) state := by
  have hboth : proc.wp rules _ state :=
    wp_and hproc halso (fun _ _ hallowed => ⟨hallowed, hallowed⟩) hcrash
  apply wp_conseq hboth
  intro result later hlater
  cases result with
  | ok | err | panic => exact hlater

theorem wp_ends_const {kept : σ → Prop} (hkept : proc.wp rules (fun _ later => kept later) state) :
    proc.wp rules (Ends (fun _ => kept) kept kept) state := by
  apply wp_conseq hkept
  intro result later hlater
  cases result with
  | ok | err | panic => exact hlater

theorem Ends.kept {kept : σ → Prop} {later : σ}
    (hends : Ends (fun _ => kept) kept kept result later) : kept later := by
  cases result <;> exact hends

end

/-! ## Relations that every step respects -/

/-- Every step of the procedure relates the states before and after it by
`rel`, and what the procedure returns satisfies `returns`. -/
def Follows (rel : σ → σ → Prop) (returns : α → Prop) : Proc σ ι ε α → Prop
  | done (.ok value) => returns value
  | done _ => True
  | atom update next =>
    ∀ answer state, rel state (update answer state) ∧ (next answer state).Follows rel returns

variable {run : ι → σ → σ × Result ε α} {value : α}

section

variable {rel : σ → σ → Prop} {returns : α → Prop} {returns' : β → Prop}

theorem follows_pure (hvalue : returns value) :
    (pure value : Proc σ ι ε α).Follows rel returns := hvalue

theorem follows_fail (error : ε) : (fail error : Proc σ ι ε α).Follows rel returns := trivial

theorem follows_abort : (abort : Proc σ ι ε α).Follows rel returns := trivial

theorem follows_ofResult (result : Result ε α) :
    (ofResult result : Proc σ ι ε α).Follows rel fun _ => True := by
  cases result <;> trivial

theorem follows_op
    (hrun : ∀ answer state, rel state (run answer state).1) : (op run).Follows rel fun _ => True :=
  fun answer state => ⟨hrun answer state, follows_ofResult (run answer state).2⟩

section

variable (hproc : proc.Follows rel returns)

include hproc

theorem Follows.bind (hrest : ∀ value, returns value → (rest value).Follows rel returns') :
    (proc >>= rest).Follows rel returns' := by
  change (proc.bind rest).Follows rel returns'
  induction proc with
  | done result =>
    cases result with
    | ok value => exact hrest value hproc
    | err | panic => trivial
  | atom update next ih =>
    intro answer state
    exact ⟨(hproc answer state).1, ih answer state (hproc answer state).2⟩

theorem Follows.attempt : proc.attempt.Follows rel fun _ => True := by
  induction proc with
  | done result => cases result <;> trivial
  | atom update next ih =>
    intro answer state
    exact ⟨(hproc answer state).1, ih answer state (hproc answer state).2⟩

theorem Follows.mono {rel' : σ → σ → Prop}
    (hrel : ∀ before after, rel before after → rel' before after) : proc.Follows rel' returns := by
  induction proc with
  | done result => cases result <;> exact hproc
  | atom update next ih =>
    intro answer state
    exact ⟨hrel _ _ (hproc answer state).1, ih answer state (hproc answer state).2⟩

theorem Follows.wp
    (htrans : ∀ first middle last, rel first middle → rel middle last → rel first last) {state : σ}
    (hrefl : rel state state) (hcrash : ∀ later, rel state later → rules.crash later) :
    proc.wp rules (fun _ later => rel state later) state := by
  suffices h : ∀ now, rel state now →
      proc.wp rules (fun _ later => rel state later) now from h state hrefl
  clear hrefl
  induction proc with
  | done result => exact fun now hnow => hnow
  | atom update next ih =>
    intro now hnow
    refine ⟨hcrash now hnow, fun answer _ => ?_⟩
    obtain ⟨hstep, hnext⟩ := hproc answer now
    exact ih answer now hnext (update answer now) (htrans state now _ hnow hstep)

end

end

/-! ## Frames -/

/-- No step of the procedure changes what `view` sees of the state, and what it
returns satisfies `returns`. -/
abbrev KeepsTo {ν : Type*} (view : σ → ν) (returns : α → Prop)
    (proc : Proc σ ι ε α) : Prop :=
  proc.Follows (fun before after => view after = view before) returns

/-- No step of the procedure changes what `view` sees of the state. -/
abbrev Keeps {ν : Type*} (view : σ → ν) (proc : Proc σ ι ε α) : Prop :=
  proc.KeepsTo view fun _ => True

section

variable {ν : Type*} {view : σ → ν} {returns : α → Prop} {returns' : β → Prop}

theorem keeps_pure (value : α) : (pure value : Proc σ ι ε α).Keeps view := trivial

theorem keeps_op
    (hrun : ∀ answer state, view (run answer state).1 = view state) : (op run).Keeps view :=
  follows_op hrun

theorem keeps_read (project : σ → α) : (read project : Proc σ ι ε α).Keeps view :=
  keeps_op fun _ _ => rfl

theorem Keeps.bind (hproc : proc.Keeps view)
    (hrest : ∀ value, (rest value).KeepsTo view returns') : (proc >>= rest).KeepsTo view returns' :=
  Follows.bind hproc fun value _ => hrest value

theorem KeepsTo.wp (hproc : proc.KeepsTo view returns) {state : σ}
    (hcrash : ∀ later, view later = view state → rules.crash later) :
    proc.wp rules (fun _ later => view later = view state) state :=
  Follows.wp hproc (fun _ _ _ hfirst hsecond => hsecond.trans hfirst) rfl hcrash

end

/-! ## Determined runs -/

/-- From every state in which `view` sees `before`, the procedure ends with
`result`, and then `view` sees `after`. -/
def Yields {ν : Type*} (rules : Rules σ ι) (view : σ → ν)
    (proc : Proc σ ι ε α) (before : ν) (result : Result ε α) (after : ν) :
    Prop :=
  ∀ state, view state = before →
    proc.wp rules (fun final later => final = result ∧ view later = after) state

section

variable {ν : Type*} {view : σ → ν} {before middle after : ν}

theorem yields_ofResult (result : Result ε α) :
    (ofResult result : Proc σ ι ε α).Yields rules view before result before :=
  fun _ hstate => ⟨rfl, hstate⟩

theorem yields_pure (value : α) :
    (pure value : Proc σ ι ε α).Yields rules view before (.ok value) before :=
  yields_ofResult (.ok value)

theorem Yields.bind {result : Result ε β} (hproc : proc.Yields rules view before (.ok value) middle)
    (hrest : (rest value).Yields rules view middle result after) :
    (proc >>= rest).Yields rules view before result after := by
  intro state hstate
  apply wp_bind_of (hproc state hstate)
  rintro _ later ⟨rfl, hlater⟩
  exact hrest later hlater

theorem Yields.attempt (hproc : proc.Yields rules view before (.ok value) after) :
    proc.attempt.Yields rules view before (.ok (.ok value)) after := by
  intro state hstate
  rw [wp_attempt]
  apply wp_conseq (hproc state hstate)
  rintro _ later ⟨rfl, hlater⟩
  exact ⟨rfl, hlater⟩

theorem Yields.exec
    (hproc : proc.Yields rules view before result after) {state : σ} (hstate : view state = before)
    (answers : ℕ → ι) (hallowed : ∀ state n, rules.allowed state (answers n)) :
    (proc.exec answers state).2 = result ∧ view (proc.exec answers state).1 = after :=
  exec_of_wp (hproc state hstate) answers hallowed

theorem Yields.crash_after
    (hproc : proc.Yields rules view before result after) {state : σ} (hstate : view state = before)
    (answers : ℕ → ι) (hallowed : ∀ state n, rules.allowed state (answers n))
    (hafter : ∀ later, view later = after → rules.crash later) (steps : ℕ) :
    rules.crash (proc.after steps answers state).2 := by
  apply wp_crash (after_of_wp (hproc state hstate) answers hallowed steps)
  rintro _ later ⟨_, hlater⟩
  exact hafter later hlater

end

/-! ## Panics under interference -/

/-- The procedure does not panic, whatever states satisfying `inv` its steps
find: between them, others may change the state. -/
def PanicFree (inv : σ → Prop) : Proc σ ι ε α → Prop
  | done result => result ≠ .panic
  | atom _ next => ∀ answer state, inv state → (next answer state).PanicFree inv

/-- Some answers and states satisfying `inv` lead to this value. -/
def MayReturn (inv : σ → Prop) (value : α) : Proc σ ι ε α → Prop
  | done result => result = .ok value
  | atom _ next =>
    ∃ answer state, inv state ∧ (next answer state).MayReturn inv value

section

variable {inv : σ → Prop}

theorem panicFree_pure (value : α) : (pure value : Proc σ ι ε α).PanicFree inv := by
  change Result.ok value ≠ .panic
  simp

theorem panicFree_fail (error : ε) : (fail error : Proc σ ι ε α).PanicFree inv := by
  change Result.err error ≠ .panic
  simp

theorem panicFree_op
    (hrun : ∀ answer state, (run answer state).2 ≠ .panic) : (op run).PanicFree inv :=
  fun answer state _ => hrun answer state

theorem panicFree_bind : (proc >>= rest).PanicFree inv ↔ proc.PanicFree inv ∧
        ∀ value, proc.MayReturn inv value → (rest value).PanicFree inv := by
  change (proc.bind rest).PanicFree inv ↔ _
  induction proc with
  | done result => cases result <;> simp [bind, PanicFree, MayReturn]
  | atom update next ih =>
    constructor
    · intro h
      constructor
      · intro answer state hstate
        exact ((ih answer state).1 (h answer state hstate)).1
      · intro value hvalue
        rcases hvalue with ⟨answer, state, hstate, hreturn⟩
        exact ((ih answer state).1 (h answer state hstate)).2 value hreturn
    · intro h answer state hstate
      apply (ih answer state).2
      exact ⟨h.1 answer state hstate, fun value hvalue =>
        h.2 value ⟨answer, state, hstate, hvalue⟩⟩

theorem MayReturn.bind {final : β}
    (hproc : proc.MayReturn inv value) (hrest : (rest value).MayReturn inv final) :
    (proc >>= rest).MayReturn inv final := by
  change (proc.bind rest).MayReturn inv final
  induction proc with
  | done result =>
    obtain rfl : result = .ok value := hproc
    exact hrest
  | atom update next ih =>
    rcases hproc with ⟨answer, state, hstate, hreturn⟩
    exact ⟨answer, state, hstate, ih answer state hreturn⟩

theorem PanicFree.bind (hproc : proc.PanicFree inv)
    (hrest : ∀ value, (rest value).PanicFree inv) : (proc >>= rest).PanicFree inv :=
  panicFree_bind.2 ⟨hproc, fun value _ => hrest value⟩

/-- Run without interference, such a procedure does not end in a panic. -/
theorem PanicFree.wp (hproc : proc.PanicFree fun _ => True) {state : σ}
    (hcrash : ∀ state, rules.crash state) :
    proc.wp rules (fun result _ => result ≠ .panic) state := by
  induction proc generalizing state with
  | done result => exact hproc
  | atom update next ih =>
    constructor
    · exact hcrash state
    · intro answer _
      exact ih answer state (hproc answer state trivial)

theorem PanicFree.attempt (hproc : proc.PanicFree inv) : proc.attempt.PanicFree inv := by
  induction proc with
  | done result => cases result <;> simp_all [Proc.attempt, PanicFree]
  | atom update next ih =>
    exact fun answer state hstate =>
      ih answer state (hproc answer state hstate)

end

end Proc

end Dymint.Procedure
