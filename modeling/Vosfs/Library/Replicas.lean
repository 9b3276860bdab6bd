import Mathlib.Data.List.Induction
import Mathlib.Data.Nat.Basic
import Mathlib.Logic.Function.Basic
import Mathlib.Order.Basic
import Vosfs.Library.Run

/-!
# Replicas of a sequential object

An object has a state, and commands change it (`Machine`).  Replicas of it apply the commands of
one common log, each at its own pace: the log grows at its end, a replica applies the command
after the last one it applied, or loses all it has applied and starts over (`Replicas`).  Nothing
else is said of where the log comes from.

If commands only ever add to the state, what two replicas show at any two times of a run can be
compared: the one further behind shows a part of what the other one shows
(`Growing.take_le_or_le`).
-/

namespace Vosfs

/-- A deterministic state machine. -/
structure Machine (State Command : Type*) where
  start : State
  apply : State → Command → State

namespace Machine

variable {State Command : Type*} (M : Machine State Command) {log log' : List Command}

/-- The state after the commands of a log. -/
def replay (log : List Command) : State :=
  log.foldl M.apply M.start

@[simp] theorem replay_nil : M.replay [] = M.start := rfl

@[simp] theorem replay_concat (log : List Command) (command : Command) :
    M.replay (log ++ [command]) = M.apply (M.replay log) command := by
  simp [replay]

/-- Commands only add to the state. -/
def Growing [Preorder State] : Prop :=
  ∀ state command, state ≤ M.apply state command

theorem replay_append (log more : List Command) :
    M.replay (log ++ more) = more.foldl M.apply (M.replay log) :=
  List.foldl_append

variable {M}

theorem Growing.replay_mono [Preorder State] (hgrow : M.Growing) (hpre : log <+: log') :
    M.replay log ≤ M.replay log' := by
  obtain ⟨more, rfl⟩ := hpre
  induction more using List.reverseRecOn with
  | nil => rw [List.append_nil]
  | append_singleton more command ih =>
    rw [← List.append_assoc, replay_concat]
    exact ih.trans (hgrow _ _)

theorem Growing.take_mono [Preorder State] (hgrow : M.Growing) {k k' : ℕ} (hle : k ≤ k') :
    M.replay (log.take k) ≤ M.replay (log.take k') :=
  hgrow.replay_mono (List.take_prefix_take_left hle)

/-- **Views can be compared**, those of any two replicas at any two times. -/
theorem Growing.take_le_or_le [Preorder State] (hgrow : M.Growing) (log : List Command)
    (k k' : ℕ) :
    M.replay (log.take k) ≤ M.replay (log.take k') ∨
      M.replay (log.take k') ≤ M.replay (log.take k) :=
  (Nat.le_total k k').imp hgrow.take_mono hgrow.take_mono

end Machine

/-- A log, and how much of it each replica has applied. -/
structure Replicas (Node Command : Type*) where
  log : List Command
  position : Node → ℕ
  within : ∀ n, position n ≤ log.length

namespace Replicas

variable {Node State Command : Type*}

/-- What can happen to the log and the replicas. -/
inductive Action (Node Command : Type*)
  | append (command : Command)
  | advance (n : Node)
  | reset (n : Node)

/-- Nothing in the log, and nothing applied. -/
def start : Replicas Node Command where
  log := []
  position _ := 0
  within _ := Nat.le_refl 0

/-- A command is appended to the log. -/
def append (r : Replicas Node Command) (command : Command) : Replicas Node Command where
  log := r.log ++ [command]
  position := r.position
  within n := (r.within n).trans (by rw [List.length_append]; exact Nat.le_add_right _ _)

variable [DecidableEq Node]

/-- A replica applies the next command of the log. -/
def advance (r : Replicas Node Command) (n : Node) (hmore : r.position n < r.log.length) :
    Replicas Node Command where
  log := r.log
  position := Function.update r.position n (r.position n + 1)
  within m := by
    rw [Function.update_apply]
    split
    · exact hmore
    · exact r.within m

/-- A replica starts again from the first command. -/
def reset (r : Replicas Node Command) (n : Node) : Replicas Node Command where
  log := r.log
  position := Function.update r.position n 0
  within m := by
    rw [Function.update_apply]
    split
    · exact Nat.zero_le _
    · exact r.within m

/-- A replica advances only where the log has a next command. -/
def step (r : Replicas Node Command) : Action Node Command → Option (Replicas Node Command)
  | .append command => some (r.append command)
  | .advance n => if hmore : r.position n < r.log.length then some (r.advance n hmore) else none
  | .reset n => some (r.reset n)

variable {r r' : Replicas Node Command} {n m : Node} {allowed : Replicas Node Command →
  Action Node Command → Prop}

theorem isPrefix_of_step {action : Action Node Command} (hstep : r.step action = some r') :
    r.log <+: r'.log := by
  cases action with
  | append command => cases hstep; exact List.prefix_append _ _
  | advance n =>
    simp only [step] at hstep
    split at hstep
    next => cases hstep; exact List.prefix_rfl
    next => cases hstep
  | reset n => cases hstep; exact List.prefix_rfl

/-- The log only grows. -/
theorem log_isPrefix_of_run (hrun : Run step allowed r r') : r.log <+: r'.log := by
  induction hrun with
  | refl => exact List.prefix_rfl
  | next _ _ hstep ih => exact ih.trans (isPrefix_of_step hstep)

/-- The state of one replica. -/
def view (M : Machine State Command) (r : Replicas Node Command) (n : Node) : State :=
  M.replay (r.log.take (r.position n))

/-! ## Applying commands from outside -/

/-- The free runs of replicas. -/
abbrev Reaches (r r' : Replicas Node Command) : Prop :=
  Run step (fun _ _ => True) r r'

omit [DecidableEq Node] in
/-- What a replica has applied stays as the log grows. -/
theorem view_of_isPrefix {M : Machine State Command} (hpre : r.log <+: r'.log)
    (hposition : r'.position n = r.position n) : view M r' n = view M r n := by
  obtain ⟨more, hmore⟩ := hpre
  rw [view, view, hposition, ← hmore, List.take_append_of_le_length (r.within n)]

/-- `r'` is `r` after `n` has applied the commands, of which the log had some already. -/
structure Advances (n : Node) (commands : List Command) (r r' : Replicas Node Command) : Prop where
  reaches : Reaches r r'
  position : r'.position = Function.update r.position n (r.position n + commands.length)
  holds : ∀ {k command}, commands[k]? = some command → r'.log[r.position n + k]? = some command
  log : ∀ {k command}, r'.log[k]? = some command → r.log[k]? = some command ∨
    ∃ j, k = r.position n + j ∧ commands[j]? = some command

namespace Advances

variable {r₁ : Replicas Node Command} {commands more : List Command} {command : Command}

theorem refl : Advances n [] r r where
  reaches := .refl
  position := by rw [List.length_nil, Nat.add_zero, Function.update_eq_self]
  holds hfound := by cases hfound
  log hfound := Or.inl hfound

theorem isPrefix (h : Advances n commands r r') : r.log <+: r'.log :=
  log_isPrefix_of_run h.reaches

theorem position_self (h : Advances n commands r r') :
    r'.position n = r.position n + commands.length := by
  rw [h.position, Function.update_self]

theorem position_of_ne (h : Advances n commands r r') (hne : m ≠ n) :
    r'.position m = r.position m := by
  rw [h.position, Function.update_of_ne hne]

theorem trans (hfirst : Advances n commands r r₁) (hsecond : Advances n more r₁ r') :
    Advances n (commands ++ more) r r' where
  reaches := hfirst.reaches.trans hsecond.reaches
  position := by
    rw [hsecond.position, hfirst.position_self, hfirst.position, Function.update_idem,
      List.length_append, Nat.add_assoc]
  holds {k command} hfound := by
    by_cases hlt : k < commands.length
    · rw [List.getElem?_append_left hlt] at hfound
      obtain ⟨hk, hget⟩ := List.getElem?_eq_some_iff.mp (hfirst.holds hfound)
      rw [List.prefix_iff_getElem?.mp hsecond.isPrefix _ hk, hget]
    · rw [List.getElem?_append_right (not_lt.mp hlt)] at hfound
      have hsum : r₁.position n + (k - commands.length) = r.position n + k := by
        rw [hfirst.position_self]
        omega
      rw [← hsum]
      exact hsecond.holds hfound
  log {k command} hfound := by
    rcases hsecond.log hfound with hold | ⟨j, rfl, hnew⟩
    · rcases hfirst.log hold with holder | ⟨j, rfl, hnew⟩
      · exact Or.inl holder
      · refine Or.inr ⟨j, rfl, ?_⟩
        rw [List.getElem?_append_left (List.getElem?_eq_some_iff.mp hnew).1]
        exact hnew
    · refine Or.inr ⟨commands.length + j, ?_, ?_⟩
      · rw [hfirst.position_self, Nat.add_assoc]
      · rw [List.getElem?_append_right (Nat.le_add_right _ _), Nat.add_sub_cancel_left]
        exact hnew

/-- The log up to a command. -/
theorem take_log (h : Advances n commands r r') {k : ℕ} (hk : k ≤ commands.length) :
    r'.log.take (r.position n + k) = r.log.take (r.position n) ++ commands.take k := by
  have hlength : (r.log.take (r.position n)).length = r.position n := by
    rw [List.length_take, min_eq_left (r.within n)]
  apply List.ext_getElem?
  intro j
  by_cases hold : j < r.position n
  · have hlt : j < r.log.length := hold.trans_le (r.within n)
    rw [List.getElem?_take_of_lt (by omega), List.getElem?_append_left (by omega),
      List.getElem?_take_of_lt hold, List.prefix_iff_getElem?.mp h.isPrefix j hlt,
      List.getElem?_eq_getElem hlt]
  · rw [List.getElem?_append_right (by omega), hlength]
    by_cases hnew : j - r.position n < k
    · obtain ⟨command, hcommand⟩ : ∃ command, commands[j - r.position n]? = some command :=
        ⟨_, List.getElem?_eq_getElem (by omega)⟩
      have hfound := h.holds hcommand
      rw [Nat.add_sub_of_le (not_lt.mp hold)] at hfound
      rw [List.getElem?_take_of_lt (by omega), List.getElem?_take_of_lt hnew, hfound, hcommand]
    · rw [List.getElem?_eq_none (by rw [List.length_take]; omega),
        List.getElem?_eq_none (by rw [List.length_take]; omega)]

theorem view_self {M : Machine State Command} (h : Advances n commands r r') :
    view M r' n = commands.foldl M.apply (view M r n) := by
  rw [view, h.position_self, h.take_log le_rfl, List.take_length, Machine.replay_append, ← view]

theorem view_of_ne {M : Machine State Command} (h : Advances n commands r r') (hne : m ≠ n) :
    view M r' m = view M r m :=
  view_of_isPrefix h.isPrefix (h.position_of_ne hne)

end Advances

/-- One command, which is that of the log if the log has one there. -/
theorem exists_advance {command : Command}
    (hagree : ∀ found, r.log[r.position n]? = some found → found = command) :
    ∃ r', Advances n [command] r r' := by
  -- the log has the command first, and the replica applies it then
  obtain ⟨r₁, hreach, hposition, hget, hlog⟩ : ∃ r₁ : Replicas Node Command, Reaches r r₁ ∧
      r₁.position = r.position ∧ r₁.log[r.position n]? = some command ∧
      ∀ k found, r₁.log[k]? = some found → r.log[k]? = some found ∨
        k = r.position n ∧ found = command := by
    by_cases hlt : r.position n < r.log.length
    · have hget := List.getElem?_eq_getElem hlt
      refine ⟨r, .refl, rfl, ?_, fun k found hfound => Or.inl hfound⟩
      rw [hget, hagree _ hget]
    · have hend : r.position n = r.log.length := le_antisymm (r.within n) (not_lt.mp hlt)
      have happend : r.step (.append command) = some (r.append command) := rfl
      refine ⟨r.append command, Run.refl.next trivial happend, rfl, ?_, ?_⟩
      · rw [hend, append, List.getElem?_concat_length]
      · intro k found hfound
        rw [append] at hfound
        by_cases hk : k < r.log.length
        · rw [List.getElem?_append_left hk] at hfound
          exact Or.inl hfound
        · have hk' := (List.getElem?_eq_some_iff.mp hfound).1
          rw [List.length_append, List.length_singleton] at hk'
          obtain rfl : k = r.log.length := by omega
          rw [List.getElem?_concat_length] at hfound
          exact Or.inr ⟨hend.symm, (Option.some.inj hfound).symm⟩
  have hmore : r₁.position n < r₁.log.length := by
    rw [hposition]
    exact (List.getElem?_eq_some_iff.mp hget).1
  have hstep : r₁.step (.advance n) = some (r₁.advance n hmore) := dif_pos hmore
  refine ⟨r₁.advance n hmore, hreach.next trivial hstep, ?_, ?_, ?_⟩
  · change Function.update r₁.position n (r₁.position n + 1) = _
    rw [hposition]
    rfl
  · intro k found hfound
    cases k with
    | zero =>
      cases hfound
      exact hget
    | succ k => cases hfound
  · intro k found hfound
    rcases hlog k found hfound with hold | ⟨rfl, rfl⟩
    · exact Or.inl hold
    · exact Or.inr ⟨0, rfl, rfl⟩

theorem exists_advances {commands : List Command}
    (hagree : ∀ k command found, commands[k]? = some command →
      r.log[r.position n + k]? = some found → found = command) :
    ∃ r', Advances n commands r r' := by
  induction commands generalizing r with
  | nil => exact ⟨r, .refl⟩
  | cons command rest ih =>
    obtain ⟨r₁, hfirst⟩ : ∃ r₁, Advances n [command] r r₁ :=
      exists_advance fun found hfound => hagree 0 command found rfl hfound
    obtain ⟨r', hrest⟩ : ∃ r', Advances n rest r₁ r' := by
      refine ih fun k next found hnext hfound => ?_
      rw [hfirst.position_self] at hfound
      rcases hfirst.log hfound with hold | ⟨j, hj, hget⟩
      · refine hagree (k + 1) next found hnext ?_
        rw [← hold, List.length_singleton, Nat.add_assoc, Nat.add_comm 1 k]
      · have hlt := (List.getElem?_eq_some_iff.mp hget).1
        rw [List.length_singleton] at hj hlt
        omega
    exact ⟨r', hfirst.trans hrest⟩

end Replicas

end Vosfs
