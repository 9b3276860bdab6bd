import Mathlib.Data.Set.Insert
import Mathlib.Logic.Function.Basic

/-!
# Calls that lock mutexes

A call works on a state that has mutexes.  It returns, or an assertion fails, or it waits for a
mutex that is locked.  Calls are made one after another, so a call that waits waits for somebody
who is gone.

`wp` is the weakest precondition of a call that must not wait, and `returned?` is what a call
returns, if it does.  Both are computed along the steps of the call.
-/

universe u

namespace Vosfs

/-- A state that has mutexes. -/
class HasMutexes (State : Type u) (Mutex : outParam (Type u)) where
  locked : State → Mutex → Bool
  setLocked : State → Mutex → Bool → State
  locked_setLocked_self (state : State) (mutex : Mutex) (value : Bool) :
    locked (setLocked state mutex value) mutex = value
  locked_setLocked_ne (state : State) {mutex other : Mutex} (value : Bool) (hne : other ≠ mutex) :
    locked (setLocked state mutex value) other = locked state other

open Function HasMutexes

/-- How a call ends. -/
inductive Outcome (Mutex State α : Type u)
  | returned (state : State) (value : α)
  /-- An assertion failed. -/
  | aborted (state : State)
  | waits (mutex : Mutex) (state : State)

/-- A call reads and changes the state, and may wait for a mutex. -/
def Call (Mutex State α : Type u) :=
  State → Outcome Mutex State α

namespace Call

variable {Mutex State α β : Type u}

instance : Monad (Call Mutex State) where
  pure value := fun state => .returned state value
  bind call next := fun state =>
    match call state with
    | .returned state value => next value state
    | .aborted state => .aborted state
    | .waits mutex state => .waits mutex state

/-! ## Steps of a call -/

/-- Read the state. -/
def get : Call Mutex State State :=
  fun state => .returned state state

/-- A step that locks and unlocks nothing, and may fail an assertion. -/
def attempt (step : State → Except State (State × α)) : Call Mutex State α :=
  fun state =>
    match step state with
    | .error state => .aborted state
    | .ok (state, value) => .returned state value

/-- Acquire a mutex, or wait for it. -/
def lock [HasMutexes State Mutex] (mutex : Mutex) : Call Mutex State PUnit :=
  fun state =>
    if locked state mutex then
      .waits mutex state
    else
      .returned (setLocked state mutex true) .unit

/-- Release a mutex. -/
def unlock [HasMutexes State Mutex] (mutex : Mutex) : Call Mutex State PUnit :=
  fun state => .returned (setLocked state mutex false) .unit

/-- A scope with a guard, which unlocks the mutex wherever the scope is left. -/
def guarded [HasMutexes State Mutex] (mutex : Mutex) (scope : Call Mutex State α) :
    Call Mutex State α := do
  let value ← scope
  unlock mutex
  return value

/-- A call without its answer. -/
def forget (call : Call Mutex State α) : Call Mutex State PUnit := do
  let _ ← call
  return .unit

/-! ## Weakest preconditions -/

/-- The call does not wait, and `post` holds if it returns. -/
def wp (call : Call Mutex State α) (post : State → α → Prop) (state : State) : Prop :=
  match call state with
  | .returned state value => post state value
  | .aborted _ => True
  | .waits _ _ => False

variable {call : Call Mutex State α} {next : α → Call Mutex State β} {mutex : Mutex}
  {state : State} {step : State → Except State (State × α)}

section Wp

variable {post post' : State → α → Prop}

theorem wp.mono (h : call.wp post state)
    (himp : ∀ {state' value}, call state = .returned state' value → post state' value →
      post' state' value) : call.wp post' state := by
  unfold wp at h ⊢
  cases hcall : call state with
  | returned state' value =>
    rw [hcall] at h
    exact himp hcall h
  | aborted state' => trivial
  | waits mutex state' =>
    rw [hcall] at h
    exact h

@[simp] theorem wp_pure {value : α} :
    wp (pure value : Call Mutex State α) post state ↔ post state value :=
  Iff.rfl

@[simp] theorem wp_bind {post : State → β → Prop} :
    wp (call >>= next) post state ↔
      call.wp (fun state value => (next value).wp post state) state := by
  change (match (match call state with
    | .returned state value => next value state
    | .aborted state => .aborted state
    | .waits mutex state => .waits mutex state : Outcome Mutex State β) with
    | .returned state value => post state value
    | .aborted _ => True
    | .waits _ _ => False) ↔ _
  unfold wp
  cases call state <;> rfl

@[simp] theorem wp_ite {test : Prop} [Decidable test] {other : Call Mutex State α} :
    (if test then call else other).wp post state ↔
      if test then call.wp post state else other.wp post state := by
  split <;> rfl

@[simp] theorem wp_get {post : State → State → Prop} :
    wp (get : Call Mutex State State) post state ↔ post state state :=
  Iff.rfl

@[simp] theorem wp_lock [HasMutexes State Mutex] {post : State → PUnit → Prop} :
    wp (lock mutex) post state ↔
      locked state mutex = false ∧ post (setLocked state mutex true) .unit := by
  unfold wp lock
  cases locked state mutex <;> simp

@[simp] theorem wp_unlock [HasMutexes State Mutex] {post : State → PUnit → Prop} :
    wp (unlock mutex) post state ↔ post (setLocked state mutex false) .unit :=
  Iff.rfl

@[simp] theorem wp_guarded [HasMutexes State Mutex] : wp (guarded mutex call) post state ↔
    call.wp (fun state value => post (setLocked state mutex false) value) state := by
  rw [guarded, wp_bind]
  rfl

@[simp] theorem wp_forget {post : State → PUnit → Prop} :
    wp (forget call) post state ↔ call.wp (fun state _ => post state .unit) state :=
  wp_bind

theorem wp_attempt (h : ∀ {state' value}, step state = .ok (state', value) → post state' value) :
    wp (attempt step : Call Mutex State α) post state := by
  unfold wp attempt
  cases hstep : step state with
  | error state' => trivial
  | ok result => exact h hstep

end Wp

/-! ## What a call returns -/

/-- The state and the value that a call returns with, if it returns. -/
def returned? (call : Call Mutex State α) (state : State) : Option (State × α) :=
  match call state with
  | .returned state value => some (state, value)
  | _ => none

@[simp] theorem returned?_pure {value : α} :
    returned? (pure value : Call Mutex State α) state = some (state, value) :=
  rfl

@[simp] theorem returned?_bind : returned? (call >>= next) state =
    (call.returned? state).bind fun result => (next result.2).returned? result.1 := by
  change (match (match call state with
    | .returned state value => next value state
    | .aborted state => .aborted state
    | .waits mutex state => .waits mutex state : Outcome Mutex State β) with
    | .returned state value => some (state, value)
    | _ => none) = _
  unfold returned?
  cases call state <;> rfl

@[simp] theorem returned?_ite {test : Prop} [Decidable test] {other : Call Mutex State α} :
    (if test then call else other).returned? state =
      if test then call.returned? state else other.returned? state := by
  split <;> rfl

@[simp] theorem returned?_get :
    returned? (get : Call Mutex State State) state = some (state, state) :=
  rfl

@[simp] theorem returned?_lock [HasMutexes State Mutex] : returned? (lock mutex) state =
    if locked state mutex then none else some (setLocked state mutex true, .unit) := by
  unfold returned? lock
  cases locked state mutex <;> rfl

@[simp] theorem returned?_unlock [HasMutexes State Mutex] :
    returned? (unlock mutex) state = some (setLocked state mutex false, .unit) :=
  rfl

@[simp] theorem returned?_guarded [HasMutexes State Mutex] : returned? (guarded mutex call) state =
    (call.returned? state).map fun result => (setLocked result.1 mutex false, result.2) := by
  rw [guarded, returned?_bind]
  cases call.returned? state <;> rfl

@[simp] theorem returned?_forget : returned? (forget call) state =
    (call.returned? state).map fun result => (result.1, .unit) := by
  rw [forget, returned?_bind]
  cases call.returned? state <;> rfl

@[simp] theorem returned?_attempt :
    returned? (attempt step : Call Mutex State α) state = (step state).toOption := by
  unfold returned? attempt
  cases step state <;> rfl

/-- A call that returns meets its precondition. -/
theorem post_of_wp {state' : State} {value : α} (post : State → α → Prop)
    (h : call.wp post state) (hreturned : call.returned? state = some (state', value)) :
    post state' value := by
  unfold wp at h
  unfold returned? at hreturned
  cases hcall : call state with
  | returned found result =>
    rw [hcall] at h hreturned
    cases hreturned
    exact h
  | aborted found =>
    rw [hcall] at hreturned
    cases hreturned
  | waits mutex found =>
    rw [hcall] at hreturned
    cases hreturned

/-- The mutex that a call waits for, if it does. -/
def waits? (call : Call Mutex State α) (state : State) : Option Mutex :=
  match call state with
  | .waits mutex _ => some mutex
  | _ => none

/-! ## Calls that give back what they lock -/

/-- If the mutexes in `free` are free, the call does not wait, and when it returns the same
mutexes are locked as before. -/
def Keeps [HasMutexes State Mutex] (free : Set Mutex) (call : Call Mutex State α) : Prop :=
  ∀ state, (∀ mutex ∈ free, locked state mutex = false) →
    call.wp (fun state' _ => locked state' = locked state) state

section Keeps

variable [HasMutexes State Mutex] {free : Set Mutex} {scope other : Call Mutex State α}

theorem keeps_pure (value : α) : Keeps free (pure value : Call Mutex State α) :=
  fun _ _ => rfl

theorem keeps_attempt (h : ∀ {state state' value}, step state = .ok (state', value) →
    locked state' = locked state) : Keeps free (attempt step : Call Mutex State α) :=
  fun _ _ => wp_attempt h

theorem Keeps.bind (h : Keeps free call) (hnext : ∀ value, Keeps free (next value)) :
    Keeps free (call >>= next) := by
  intro state hfree
  rw [wp_bind]
  refine (h state hfree).mono fun {state' value} _ hlocks => ?_
  refine (hnext value state' fun mutex hmem => ?_).mono fun _ hlocks' => hlocks'.trans hlocks
  rw [hlocks]
  exact hfree mutex hmem

theorem Keeps.ite {test : Prop} [Decidable test] (h : test → Keeps free call)
    (hother : ¬ test → Keeps free other) : Keeps free (if test then call else other) := by
  split
  next htest => exact h htest
  next htest => exact hother htest

theorem Keeps.mono {free' : Set Mutex} (h : Keeps free call) (hsub : free ⊆ free') :
    Keeps free' call :=
  fun state hfree => h state fun mutex hmem => hfree mutex (hsub hmem)

variable [DecidableEq Mutex]

/-- The rest of a call that has locked `mutex`: it unlocks that mutex, and no other. -/
def Releases (mutex : Mutex) (free : Set Mutex) (call : Call Mutex State α) : Prop :=
  ∀ state, (∀ other ∈ free, locked state other = false) →
    call.wp (fun state' _ => locked state' = update (locked state) mutex false) state

theorem locked_setLocked (state : State) (mutex : Mutex) (value : Bool) :
    locked (setLocked state mutex value) = update (locked state) mutex value := by
  funext other
  by_cases heq : other = mutex
  · rw [heq, locked_setLocked_self, update_self]
  · rw [locked_setLocked_ne _ _ heq, update_of_ne heq]

theorem releases_unlock (mutex : Mutex) (free : Set Mutex) :
    Releases mutex free (unlock mutex : Call Mutex State PUnit) :=
  fun state _ => locked_setLocked state mutex false

theorem Keeps.guarded (h : Keeps free scope) (mutex : Mutex) :
    Releases mutex free (guarded mutex scope) := by
  intro state hfree
  rw [wp_guarded]
  refine (h state hfree).mono fun {state' value} _ hlocks => ?_
  rw [locked_setLocked, hlocks]

theorem Keeps.bind_releases {call : Call Mutex State α} {next : α → Call Mutex State β}
    (h : Keeps free call) (hnext : ∀ value, Releases mutex free (next value)) :
    Releases mutex free (call >>= next) := by
  intro state hfree
  rw [wp_bind]
  refine (h state hfree).mono fun {state' value} _ hlocks => ?_
  have hrest := hnext value state'
  rw [hlocks] at hrest
  exact hrest hfree

theorem Releases.bind {call : Call Mutex State α} {next : α → Call Mutex State β}
    (h : Releases mutex free call) (hmutex : mutex ∉ free)
    (hnext : ∀ value, Keeps free (next value)) : Releases mutex free (call >>= next) := by
  intro state hfree
  rw [wp_bind]
  refine (h state hfree).mono fun {state' value} _ hlocks => ?_
  refine (hnext value state' fun other hother => ?_).mono fun _ hlocks' => hlocks'.trans hlocks
  rw [hlocks, update_of_ne (ne_of_mem_of_not_mem hother hmutex)]
  exact hfree other hother

theorem Releases.ite {test : Prop} [Decidable test] (h : test → Releases mutex free call)
    (hother : ¬ test → Releases mutex free other) :
    Releases mutex free (if test then call else other) := by
  split
  next htest => exact h htest
  next htest => exact hother htest

/-- What is locked is given back if the rest of the call unlocks it. -/
theorem Releases.keeps (h : Releases mutex free call) (hmutex : mutex ∉ free) :
    Keeps (insert mutex free) (do lock mutex; call) := by
  intro state hfree
  have hlocked := hfree mutex (Set.mem_insert _ _)
  rw [wp_bind, wp_lock]
  refine ⟨hlocked, (h _ fun other hother => ?_).mono fun _ hlocks => ?_⟩
  · rw [locked_setLocked, update_of_ne (ne_of_mem_of_not_mem hother hmutex)]
    exact hfree other (Set.mem_insert_of_mem _ hother)
  · rw [hlocks, locked_setLocked, update_idem, ← hlocked, update_eq_self]

end Keeps

end Call

end Vosfs
