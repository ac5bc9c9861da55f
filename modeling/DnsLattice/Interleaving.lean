import DnsLattice.Transitions
import Mathlib.Data.List.Basic
import Mathlib.Tactic

/-!
# Interleaved programs

A program performs atomic operations on a shared world and continues with what
each of them returns.  A machine runs any number of such programs at once: a
move is one operation of one program, a step of the environment, or the
arrival of a new job.  A program ends with a reply, or continues as another
job, so that a loop without a bound is a job which continues as itself.

The second half is a rely/guarantee logic.  A program is safe from a world if
each of its operations keeps the invariant and stays within what the other
programs rely on, whatever these do in between.
-/

namespace DnsLattice

/-! ## Programs -/

inductive Prog (Op : Type) (Resp : Op → Type) (α : Type) where
  | ret (value : α)
  | perform (op : Op) (next : Resp op → Prog Op Resp α)

namespace Prog

variable {Op : Type} {Resp : Op → Type} {α β : Type}

def bind : Prog Op Resp α → (α → Prog Op Resp β) → Prog Op Resp β
  | .ret value, next => next value
  | .perform op rest, next => .perform op fun resp => (rest resp).bind next

instance : Monad (Prog Op Resp) where
  pure := .ret
  bind := bind

def lift (op : Op) : Prog Op Resp (Resp op) :=
  .perform op .ret

end Prog

/-! ## Machines -/

/-- How operations act on the world, what they start, and the program of each
job.  `exec` is given the number of the task and a number not yet used. -/
structure Machine (Op : Type) (Resp : Op → Type)
    (World Job Reply Input : Type) where
  exec : ℕ → ℕ → World → (op : Op) → Input → Option (Resp op × World)
  spawns : Op → Option Job
  code : Job → Prog Op Resp (Job ⊕ Reply)
  external : Job → Bool
  tick : World → Input → Option World

inductive Status (Op : Type) (Resp : Op → Type) (Job Reply : Type) where
  | running (prog : Prog Op Resp (Job ⊕ Reply))
  | finished (reply : Reply)

structure Task (Op : Type) (Resp : Op → Type) (World Job Reply : Type) where
  job : Job
  born : World
  status : Status Op Resp Job Reply

structure MachineState (Op : Type) (Resp : Op → Type)
    (World Job Reply : Type) where
  world : World
  tasks : List (Task Op Resp World Job Reply)

def MachineState.ended {Op : Type} {Resp : Op → Type}
    {World Job Reply : Type} (state : MachineState Op Resp World Job Reply)
    (number : ℕ) : Option (Job × Reply) :=
  state.tasks[number]?.bind fun task =>
    match task.status with
    | .running _ => none
    | .finished reply => some (task.job, reply)

def MachineState.next {Op : Type} {Resp : Op → Type}
    {World Job Reply : Type} (state : MachineState Op Resp World Job Reply)
    (number : ℕ) : Option (Job × Op) :=
  state.tasks[number]?.bind fun task =>
    match task.status with
    | .running (.perform op _) => some (task.job, op)
    | _ => none

inductive Move (Job Input : Type) where
  | arrive (job : Job)
  | tick (input : Input)
  | run (number : ℕ) (input : Input)

/-- A condition on single operations: the job and the world in which it
arrived, the present world, the operation and its response. -/
def Condition (Op : Type) (Resp : Op → Type) (World Job : Type) : Type :=
  Job → World → World → (op : Op) → Resp op → Bool

def Condition.always {Op : Type} {Resp : Op → Type} {World Job : Type} :
    Condition Op Resp World Job :=
  fun _ _ _ _ _ => true

namespace Machine

variable {Op : Type} {Resp : Op → Type} {World Job Reply Input : Type}
  (machine : Machine Op Resp World Job Reply Input)
  (allows : Condition Op Resp World Job)

def start (world : World) (job : Job) : Task Op Resp World Job Reply where
  job := job
  born := world
  status := .running (machine.code job)

def setStatus (tasks : List (Task Op Resp World Job Reply)) (number : ℕ)
    (status : Status Op Resp Job Reply) :
    List (Task Op Resp World Job Reply) :=
  tasks.modify number fun task => { task with status := status }

def advance (state : MachineState Op Resp World Job Reply) (number : ℕ)
    (task : Task Op Resp World Job Reply) (input : Input) :
    Option (MachineState Op Resp World Job Reply) :=
  match task.status with
  | .finished _ => none
  | .running (.ret (.inl job)) =>
      some { state with
        tasks := setStatus state.tasks number (.running (machine.code job)) }
  | .running (.ret (.inr reply)) =>
      some { state with
        tasks := setStatus state.tasks number (.finished reply) }
  | .running (.perform op next) =>
      match machine.exec number state.tasks.length state.world op input with
      | none => none
      | some (resp, world) =>
          if allows task.job task.born state.world op resp then
            some
              { world := world
                tasks :=
                  setStatus state.tasks number (.running (next resp)) ++
                    ((machine.spawns op).map (machine.start world)).toList }
          else none

def step (state : MachineState Op Resp World Job Reply) :
    Move Job Input → Option (MachineState Op Resp World Job Reply)
  | .arrive job =>
      if machine.external job then
        some { state with
          tasks := state.tasks ++ [machine.start state.world job] }
      else none
  | .tick input =>
      (machine.tick state.world input).map fun world =>
        { state with world := world }
  | .run number input =>
      match state.tasks[number]? with
      | none => none
      | some task => machine.advance allows state number task input

def Step (before after : MachineState Op Resp World Job Reply) : Prop :=
  ∃ move, machine.step allows before move = some after

def Reaches (before after : MachineState Op Resp World Job Reply) : Prop :=
  Relation.ReflTransGen (machine.Step allows) before after

/-- A schedule of moves. -/
def run : List (Move Job Input) → MachineState Op Resp World Job Reply →
    Option (MachineState Op Resp World Job Reply)
  | [], state => some state
  | move :: rest, state =>
      match machine.step allows state move with
      | none => none
      | some next => run rest next

variable {machine allows}

theorem reaches_of_run {moves : List (Move Job Input)}
    {before after : MachineState Op Resp World Job Reply}
    (h : machine.run allows moves before = some after) :
    machine.Reaches allows before after := by
  induction moves generalizing before with
  | nil =>
    obtain rfl := Option.some.inj h
    exact .refl
  | cons move rest ih =>
    rw [run] at h
    cases hstep : machine.step allows before move with
    | none => simp [hstep] at h
    | some next =>
      rw [hstep] at h
      exact .head ⟨move, hstep⟩ (ih h)

theorem reaches_of_run_any {moves : List (Move Job Input)}
    {before : MachineState Op Resp World Job Reply}
    {check : MachineState Op Resp World Job Reply → Bool}
    (h : (machine.run allows moves before).any check = true) :
    ∃ after, machine.Reaches allows before after ∧ check after = true := by
  obtain ⟨after, hrun, hcheck⟩ := (Option.any_eq_true _ _).mp h
  exact ⟨after, reaches_of_run hrun, hcheck⟩

/-- What one move can do. -/
inductive StepCases (machine : Machine Op Resp World Job Reply Input)
    (allows : Condition Op Resp World Job)
    (before : MachineState Op Resp World Job Reply) :
    MachineState Op Resp World Job Reply → Prop
  | arrive (job : Job) (hexternal : machine.external job = true) :
      StepCases machine allows before { before with
        tasks := before.tasks ++ [machine.start before.world job] }
  | tick (input : Input) (world : World)
      (htick : machine.tick before.world input = some world) :
      StepCases machine allows before { before with world := world }
  | jump (number : ℕ) (task : Task Op Resp World Job Reply) (job : Job)
      (htask : before.tasks[number]? = some task)
      (hstatus : task.status = .running (.ret (.inl job))) :
      StepCases machine allows before { before with
        tasks := setStatus before.tasks number
          (.running (machine.code job)) }
  | finish (number : ℕ) (task : Task Op Resp World Job Reply) (reply : Reply)
      (htask : before.tasks[number]? = some task)
      (hstatus : task.status = .running (.ret (.inr reply))) :
      StepCases machine allows before { before with
        tasks := setStatus before.tasks number (.finished reply) }
  | op (number : ℕ) (task : Task Op Resp World Job Reply) (op : Op)
      (next : Resp op → Prog Op Resp (Job ⊕ Reply)) (input : Input)
      (resp : Resp op) (world : World)
      (htask : before.tasks[number]? = some task)
      (hstatus : task.status = .running (.perform op next))
      (hexec : machine.exec number before.tasks.length before.world op input =
        some (resp, world))
      (hallows : allows task.job task.born before.world op resp = true) :
      StepCases machine allows before
        { world := world
          tasks := setStatus before.tasks number (.running (next resp)) ++
            ((machine.spawns op).map (machine.start world)).toList }

theorem Step.cases {before after : MachineState Op Resp World Job Reply}
    (h : machine.Step allows before after) :
    StepCases machine allows before after := by
  obtain ⟨move, hstep⟩ := h
  cases move with
  | arrive job =>
    rw [step] at hstep
    split_ifs at hstep with hexternal
    obtain rfl := Option.some.inj hstep
    exact .arrive job hexternal
  | tick input =>
    obtain ⟨world, htick, rfl⟩ := Option.map_eq_some_iff.mp hstep
    exact .tick input world htick
  | run number input =>
    rw [step] at hstep
    cases htask : before.tasks[number]? with
    | none => simp [htask] at hstep
    | some task =>
      rw [htask] at hstep
      dsimp only at hstep
      unfold advance at hstep
      cases hstatus : task.status with
      | finished reply => simp [hstatus] at hstep
      | running prog =>
        rw [hstatus] at hstep
        rcases prog with (job | reply) | ⟨op, next⟩
        · obtain rfl := Option.some.inj hstep
          exact .jump number task job htask hstatus
        · obtain rfl := Option.some.inj hstep
          exact .finish number task reply htask hstatus
        · dsimp only at hstep
          cases hexec : machine.exec number before.tasks.length
              before.world op input with
          | none => simp [hexec] at hstep
          | some result =>
            obtain ⟨resp, world⟩ := result
            rw [hexec] at hstep
            dsimp only at hstep
            split_ifs at hstep with hallows
            obtain rfl := Option.some.inj hstep
            exact .op number task op next input resp world htask
              hstatus hexec hallows

theorem concat_cases {tasks : List (Task Op Resp World Job Reply)}
    {last task : Task Op Resp World Job Reply} {number : ℕ}
    (h : (tasks ++ [last])[number]? = some task) :
    tasks[number]? = some task ∨ number = tasks.length ∧ task = last := by
  rw [List.getElem?_append] at h
  split_ifs at h with hlt
  · exact Or.inl h
  · right
    rw [List.getElem?_singleton] at h
    split_ifs at h with hzero
    exact ⟨by omega, (Option.some.inj h).symm⟩

theorem setStatus_cases {tasks : List (Task Op Resp World Job Reply)}
    {task found : Task Op Resp World Job Reply} {number other : ℕ}
    {status : Status Op Resp Job Reply} (htask : tasks[number]? = some task)
    (h : (setStatus tasks number status)[other]? = some found) :
    (other = number ∧ found = { task with status := status }) ∨
      other ≠ number ∧ tasks[other]? = some found := by
  rw [setStatus, List.getElem?_modify] at h
  by_cases heq : number = other
  · subst heq
    rw [htask] at h
    left
    simpa using h.symm
  · right
    exact ⟨Ne.symm heq, by simpa [heq] using h⟩

/-- A task keeps the world in which it arrived; a new one arrives in the
world after the move. -/
theorem Step.born {before after : MachineState Op Resp World Job Reply}
    (h : machine.Step allows before after) {number : ℕ}
    {task : Task Op Resp World Job Reply}
    (htask : after.tasks[number]? = some task) :
    (∃ old, before.tasks[number]? = some old ∧ old.born = task.born) ∨
      task.born = after.world := by
  have hset : ∀ {other : ℕ} {status : Status Op Resp Job Reply}
      {found : Task Op Resp World Job Reply},
      (setStatus before.tasks other status)[number]? = some found →
      ∃ old, before.tasks[number]? = some old ∧ old.born = found.born := by
    intro other status found hfound
    rw [setStatus, List.getElem?_modify] at hfound
    obtain ⟨old, hold, rfl⟩ := Option.map_eq_some_iff.mp hfound
    refine ⟨old, hold, ?_⟩
    split_ifs <;> rfl
  cases h.cases with
  | arrive job hexternal =>
    rw [List.getElem?_append] at htask
    split_ifs at htask
    · exact Or.inl ⟨task, htask, rfl⟩
    · obtain rfl := List.mem_singleton.mp (List.mem_of_getElem? htask)
      exact Or.inr rfl
  | tick input world htick => exact Or.inl ⟨task, htask, rfl⟩
  | jump number' task' job htask' hstatus => exact Or.inl (hset htask)
  | finish number' task' reply htask' hstatus => exact Or.inl (hset htask)
  | op number' task' op next input resp world htask' hstatus hexec hallows =>
    rw [List.getElem?_append] at htask
    split_ifs at htask
    · exact Or.inl (hset htask)
    · obtain ⟨job, _, rfl⟩ := Option.map_eq_some_iff.mp
        (Option.mem_toList.mp (List.mem_of_getElem? htask))
      exact Or.inr rfl

end Machine

/-! ## Rely and guarantee -/

structure Thread (World Job : Type) where
  number : ℕ
  first : Job
  born : World

/-- An invariant of the world, what each thread relies on, and the assertions
at each operation, at the start of a job and at the end of a thread. -/
structure Logic (Op World Job Reply : Type) where
  inv : World → Prop
  rely : ℕ → World → World → Prop
  asserts : Thread World Job → Op → World → Prop
  pre : Thread World Job → Job → World → Prop
  post : Thread World Job → Reply → World → Prop

namespace Logic

variable {Op : Type} {Resp : Op → Type} {World Job Reply Input : Type}
  (machine : Machine Op Resp World Job Reply Input)
  (allows : Condition Op Resp World Job) (logic : Logic Op World Job Reply)

/-- The program can be run from the world by the thread: whatever the others
have done before each of its operations, the assertion of the operation holds,
the operation keeps the invariant, changes the world only as the others rely
on, and starts only jobs whose assertion holds. -/
def Safe {α : Type} (thread : Thread World Job) (ensures : α → World → Prop) :
    Prog Op Resp α → World → Prop
  | .ret value, world => ensures value world
  | .perform op next, world =>
      ∀ before, logic.rely thread.number world before → logic.inv before →
      logic.asserts thread op before ∧
      ∀ unused, thread.number < unused → ∀ input resp after,
        machine.exec thread.number unused before op input =
          some (resp, after) →
        allows thread.first thread.born before op resp = true →
        logic.inv after ∧
        (∀ other, other ≠ thread.number → logic.rely other before after) ∧
        (∀ job, machine.spawns op = some job →
          logic.pre ⟨unused, job, after⟩ job after) ∧
        Safe thread ensures (next resp) after

def done (thread : Thread World Job) : Job ⊕ Reply → World → Prop
  | .inl job, world => logic.pre thread job world
  | .inr reply, world => logic.post thread reply world

structure Valid : Prop where
  refl : ∀ number world, logic.rely number world world
  trans : ∀ number {first second third}, logic.rely number first second →
    logic.rely number second third → logic.rely number first third
  tick : ∀ world input after, logic.inv world →
    machine.tick world input = some after →
    logic.inv after ∧ ∀ number, logic.rely number world after
  arrive : ∀ number job world, machine.external job = true →
    logic.inv world → logic.pre ⟨number, job, world⟩ job world
  code : ∀ thread job world, logic.inv world → logic.pre thread job world →
    Safe machine allows logic thread (logic.done thread) (machine.code job)
      world
  pre_stable : ∀ thread job world after, logic.pre thread job world →
    logic.rely thread.number world after → logic.inv after →
    logic.pre thread job after
  post_stable : ∀ thread reply world after, logic.post thread reply world →
    logic.rely thread.number world after → logic.inv after →
    logic.post thread reply after

structure Holds (state : MachineState Op Resp World Job Reply) : Prop where
  inv : logic.inv state.world
  running : ∀ number task prog, state.tasks[number]? = some task →
    task.status = .running prog →
    Safe machine allows logic ⟨number, task.job, task.born⟩
      (logic.done ⟨number, task.job, task.born⟩) prog state.world
  finished : ∀ number task reply, state.tasks[number]? = some task →
    task.status = .finished reply →
    logic.post ⟨number, task.job, task.born⟩ reply state.world

variable {machine allows logic}

theorem Holds.ended {state : MachineState Op Resp World Job Reply}
    (h : Holds machine allows logic state) {number : ℕ} {job : Job}
    {reply : Reply} (hended : state.ended number = some (job, reply)) :
    ∃ task, state.tasks[number]? = some task ∧
      logic.post ⟨number, job, task.born⟩ reply state.world := by
  obtain ⟨task, htask, hstatus⟩ := Option.bind_eq_some_iff.mp hended
  cases hreply : task.status with
  | running prog => simp [hreply] at hstatus
  | finished found =>
    rw [hreply] at hstatus
    obtain ⟨rfl, rfl⟩ := Prod.mk.inj (Option.some.inj hstatus)
    exact ⟨task, htask, h.finished number task found htask hreply⟩

theorem Safe.bind {α β : Type} {thread : Thread World Job}
    {middle : α → World → Prop} {ensures : β → World → Prop}
    {prog : Prog Op Resp α} {next : α → Prog Op Resp β} {world : World}
    (hprog : Safe machine allows logic thread middle prog world)
    (hnext : ∀ value after, middle value after →
      Safe machine allows logic thread ensures (next value) after) :
    Safe machine allows logic thread ensures (prog >>= next) world := by
  induction prog generalizing world with
  | ret value => exact hnext value world hprog
  | perform op rest ih =>
    intro before hrely hinv
    obtain ⟨hasserts, hsteps⟩ := hprog before hrely hinv
    refine ⟨hasserts, ?_⟩
    intro unused hunused input resp after hexec hallows
    obtain ⟨hinv', hothers, hspawn, hrest⟩ :=
      hsteps unused hunused input resp after hexec hallows
    exact ⟨hinv', hothers, hspawn, ih resp hrest⟩

/-! ### Triples -/

/-- An assertion which the others keep. -/
def Stable (logic : Logic Op World Job Reply) (thread : Thread World Job)
    (holds : World → Prop) : Prop :=
  ∀ world after, holds world → logic.inv world →
    logic.rely thread.number world after → logic.inv after → holds after

/-- From a world with the precondition the program can be run, and it ends in
a world with the postcondition. -/
def Triple (machine : Machine Op Resp World Job Reply Input)
    (allows : Condition Op Resp World Job) (logic : Logic Op World Job Reply)
    {α : Type} (thread : Thread World Job) (requires : World → Prop)
    (prog : Prog Op Resp α) (ensures : α → World → Prop) : Prop :=
  ∀ world, logic.inv world → requires world →
    Safe machine allows logic thread
      (fun value after => logic.inv after ∧ ensures value after) prog world

section Rules

variable {α β : Type} {thread : Thread World Job}
  {requires requires' : World → Prop}

theorem Triple.ret {value : α} {ensures : α → World → Prop}
    (h : ∀ world, logic.inv world → requires world → ensures value world) :
    Triple machine allows logic thread requires (pure value) ensures :=
  fun world hinv hrequires => ⟨hinv, h world hinv hrequires⟩

theorem Triple.bind {prog : Prog Op Resp α} {next : α → Prog Op Resp β}
    {middle : α → World → Prop} {ensures : β → World → Prop}
    (hprog : Triple machine allows logic thread requires prog middle)
    (hnext : ∀ value,
      Triple machine allows logic thread (middle value) (next value) ensures) :
    Triple machine allows logic thread requires (prog >>= next) ensures := by
  intro world hinv hrequires
  apply (hprog world hinv hrequires).bind
  intro value after hmiddle
  exact hnext value after hmiddle.1 hmiddle.2

theorem Triple.pre {prog : Prog Op Resp α} {ensures : α → World → Prop}
    (h : Triple machine allows logic thread requires prog ensures)
    (himp : ∀ world, logic.inv world → requires' world → requires world) :
    Triple machine allows logic thread requires' prog ensures :=
  fun world hinv hrequires => h world hinv (himp world hinv hrequires)

theorem Triple.assume {prog : Prog Op Resp α} {ensures : α → World → Prop}
    {fact : Prop} (hfact : ∀ world, logic.inv world → requires world → fact)
    (h : fact → Triple machine allows logic thread requires prog ensures) :
    Triple machine allows logic thread requires prog ensures :=
  fun world hinv hrequires =>
    h (hfact world hinv hrequires) world hinv hrequires

theorem Safe.mono {ensures ensures' : α → World → Prop}
    {prog : Prog Op Resp α} {world : World}
    (hprog : Safe machine allows logic thread ensures prog world)
    (himp : ∀ value after, ensures value after → ensures' value after) :
    Safe machine allows logic thread ensures' prog world := by
  induction prog generalizing world with
  | ret value => exact himp value world hprog
  | perform op rest ih =>
    intro before hrely hinv
    obtain ⟨hasserts, hsteps⟩ := hprog before hrely hinv
    refine ⟨hasserts, ?_⟩
    intro unused hunused input resp after hexec hallows
    obtain ⟨hinv', hothers, hspawn, hrest⟩ :=
      hsteps unused hunused input resp after hexec hallows
    exact ⟨hinv', hothers, hspawn, ih resp hrest⟩

theorem Triple.post {prog : Prog Op Resp α}
    {ensures ensures' : α → World → Prop}
    (h : Triple machine allows logic thread requires prog ensures)
    (himp : ∀ value world, logic.inv world → ensures value world →
      ensures' value world) :
    Triple machine allows logic thread requires prog ensures' := by
  intro world hinv hrequires
  apply (h world hinv hrequires).mono
  intro value after hafter
  exact ⟨hafter.1, himp value after hafter.1 hafter.2⟩

theorem Triple.lift {op : Op} {ensures : Resp op → World → Prop}
    (hasserts : ∀ world, logic.inv world → requires world →
      logic.asserts thread op world)
    (hstable : Stable logic thread requires)
    (hop : ∀ world unused input resp after, logic.inv world →
      requires world → thread.number < unused →
      machine.exec thread.number unused world op input =
        some (resp, after) →
      allows thread.first thread.born world op resp = true →
      logic.inv after ∧
      (∀ other, other ≠ thread.number → logic.rely other world after) ∧
      (∀ job, machine.spawns op = some job →
        logic.pre ⟨unused, job, after⟩ job after) ∧
      ensures resp after) :
    Triple machine allows logic thread requires (Prog.lift op) ensures := by
  intro world hworld hrequires before hrely hinv
  have hbefore := hstable world before hrequires hworld hrely hinv
  refine ⟨hasserts before hinv hbefore, ?_⟩
  intro unused hunused input resp after hexec hallows
  obtain ⟨hinv', hothers, hspawn, hensures⟩ :=
    hop before unused input resp after hinv hbefore hunused hexec hallows
  exact ⟨hinv', hothers, hspawn, hinv', hensures⟩

/-- The rule for an operation which changes the world only as every thread,
this one included, relies on. -/
theorem Triple.benign {op : Op} {gives : Resp op → World → Prop}
    (hasserts : ∀ world, logic.inv world → requires world →
      logic.asserts thread op world)
    (hstable : Stable logic thread requires)
    (hop : ∀ world unused input resp after, logic.inv world →
      requires world → thread.number < unused →
      machine.exec thread.number unused world op input =
        some (resp, after) →
      allows thread.first thread.born world op resp = true →
      logic.inv after ∧ (∀ number, logic.rely number world after) ∧
      (∀ job, machine.spawns op = some job →
        logic.pre ⟨unused, job, after⟩ job after) ∧
      gives resp after) :
    Triple machine allows logic thread requires (Prog.lift op)
      (fun resp world => requires world ∧ gives resp world) := by
  apply Triple.lift hasserts hstable
  intro world unused input resp after hinv hrequires hunused hexec hallows
  obtain ⟨hinv', hrely, hspawn, hgives⟩ :=
    hop world unused input resp after hinv hrequires hunused hexec hallows
  exact ⟨hinv', fun other _ => hrely other, hspawn,
    hstable world after hrequires hinv (hrely _) hinv', hgives⟩

theorem Stable.and {first second : World → Prop}
    (hfirst : Stable logic thread first)
    (hsecond : Stable logic thread second) :
    Stable logic thread (fun world => first world ∧ second world) :=
  fun world after h hinv hrely hinv' =>
    ⟨hfirst world after h.1 hinv hrely hinv',
      hsecond world after h.2 hinv hrely hinv'⟩

end Rules

section Sound

variable (hvalid : Valid machine allows logic)

include hvalid

theorem Valid.safe_stable {thread : Thread World Job}
    {prog : Prog Op Resp (Job ⊕ Reply)} {world after : World}
    (hprog : Safe machine allows logic thread (logic.done thread) prog world)
    (hrely : logic.rely thread.number world after) (hinv : logic.inv after) :
    Safe machine allows logic thread (logic.done thread) prog after := by
  cases prog with
  | ret result =>
    cases result with
    | inl job => exact hvalid.pre_stable thread job world after hprog hrely hinv
    | inr reply =>
      exact hvalid.post_stable thread reply world after hprog hrely hinv
  | perform op next =>
    intro before hbefore
    exact hprog before (hvalid.trans _ hrely hbefore)

theorem Valid.holds_of_world {state : MachineState Op Resp World Job Reply}
    (h : Holds machine allows logic state) {world : World}
    (hinv : logic.inv world)
    (hrely : ∀ number, logic.rely number state.world world) :
    Holds machine allows logic { state with world := world } := by
  refine ⟨hinv, ?_, ?_⟩
  · intro number task prog htask hstatus
    exact hvalid.safe_stable (h.running number task prog htask hstatus)
      (hrely number) hinv
  · intro number task reply htask hstatus
    exact hvalid.post_stable _ _ _ _ (h.finished number task reply htask hstatus)
      (hrely number) hinv

theorem Valid.holds_append {state : MachineState Op Resp World Job Reply}
    (h : Holds machine allows logic state) {job : Job}
    (hpre : logic.pre ⟨state.tasks.length, job, state.world⟩ job
      state.world) :
    Holds machine allows logic { state with
      tasks := state.tasks ++ [machine.start state.world job] } := by
  have hcode := hvalid.code _ job state.world h.inv hpre
  refine ⟨h.inv, ?_, ?_⟩
  · intro number task prog htask hstatus
    rcases Machine.concat_cases htask with hold | ⟨rfl, rfl⟩
    · exact h.running number task prog hold hstatus
    · obtain rfl := Status.running.inj hstatus
      exact hcode
  · intro number task reply htask hstatus
    rcases Machine.concat_cases htask with hold | ⟨rfl, rfl⟩
    · exact h.finished number task reply hold hstatus
    · cases hstatus

/-- One task has moved to a status whose assertion holds, and the others have
seen only what they rely on. -/
theorem Valid.holds_setStatus {state : MachineState Op Resp World Job Reply}
    (h : Holds machine allows logic state) {number : ℕ} {world : World}
    {task : Task Op Resp World Job Reply}
    (htask : state.tasks[number]? = some task)
    {status : Status Op Resp Job Reply} (hinv : logic.inv world)
    (hothers : ∀ other, other ≠ number → logic.rely other state.world world)
    (hrunning : ∀ prog, status = .running prog →
      Safe machine allows logic ⟨number, task.job, task.born⟩
        (logic.done ⟨number, task.job, task.born⟩) prog world)
    (hfinished : ∀ reply, status = .finished reply →
      logic.post ⟨number, task.job, task.born⟩ reply world) :
    Holds machine allows logic
      ⟨world, Machine.setStatus state.tasks number status⟩ := by
  refine ⟨hinv, ?_, ?_⟩
  · intro other found prog hfound hstatus
    rcases Machine.setStatus_cases htask hfound with ⟨rfl, rfl⟩ | ⟨hne, hold⟩
    · exact hrunning prog hstatus
    · exact hvalid.safe_stable (h.running other found prog hold hstatus)
        (hothers other hne) hinv
  · intro other found reply hfound hstatus
    rcases Machine.setStatus_cases htask hfound with ⟨rfl, rfl⟩ | ⟨hne, hold⟩
    · exact hfinished reply hstatus
    · exact hvalid.post_stable _ _ _ _
        (h.finished other found reply hold hstatus) (hothers other hne) hinv

theorem Valid.holds_step {before after : MachineState Op Resp World Job Reply}
    (h : Holds machine allows logic before)
    (hstep : machine.Step allows before after) :
    Holds machine allows logic after := by
  cases hstep.cases with
  | arrive job hexternal =>
    exact hvalid.holds_append h (hvalid.arrive _ job _ hexternal h.inv)
  | tick input world htick =>
    obtain ⟨hinv, hrely⟩ := hvalid.tick _ input world h.inv htick
    exact hvalid.holds_of_world h hinv hrely
  | jump number task job htask hstatus =>
    have hpre : logic.pre ⟨number, task.job, task.born⟩ job before.world :=
      h.running number task _ htask hstatus
    refine hvalid.holds_setStatus h htask h.inv
      (fun other _ => hvalid.refl other _) ?_ ?_
    · intro prog hprog
      obtain rfl := Status.running.inj hprog
      exact hvalid.code _ job _ h.inv hpre
    · intro reply hreply
      contradiction
  | finish number task reply htask hstatus =>
    have hpost : logic.post ⟨number, task.job, task.born⟩ reply
        before.world := h.running number task _ htask hstatus
    refine hvalid.holds_setStatus h htask h.inv
      (fun other _ => hvalid.refl other _) ?_ ?_
    · intro prog hprog
      contradiction
    · intro other hother
      obtain rfl := Status.finished.inj hother
      exact hpost
  | op number task op next input resp world htask hstatus hexec hallows =>
    have hlt : number < before.tasks.length := by
      obtain ⟨hlt, _⟩ := List.getElem?_eq_some_iff.mp htask
      exact hlt
    obtain ⟨hinv, hothers, hspawn, hnext⟩ :=
      (h.running number task _ htask hstatus before.world
        (hvalid.refl _ _) h.inv).2 before.tasks.length hlt input resp world
        hexec hallows
    have hmoved : Holds machine allows logic ⟨world,
        Machine.setStatus before.tasks number (.running (next resp))⟩ := by
      refine hvalid.holds_setStatus h htask hinv hothers ?_ ?_
      · intro prog hprog
        obtain rfl := Status.running.inj hprog
        exact hnext
      · intro reply hreply
        contradiction
    cases hjob : machine.spawns op with
    | none => simpa using hmoved
    | some job =>
      refine hvalid.holds_append hmoved ?_
      rw [Machine.setStatus, List.length_modify]
      exact hspawn job hjob

theorem Valid.holds_of_reaches
    {before after : MachineState Op Resp World Job Reply}
    (h : Holds machine allows logic before)
    (hreaches : machine.Reaches allows before after) :
    Holds machine allows logic after :=
  invariant_of_reaches h (fun _ _ hs hstep => hvalid.holds_step hs hstep)
    hreaches

theorem Valid.asserts_of_next {state : MachineState Op Resp World Job Reply}
    (h : Holds machine allows logic state) {number : ℕ} {job : Job} {op : Op}
    (hnext : state.next number = some (job, op)) :
    ∃ born, logic.asserts ⟨number, job, born⟩ op state.world := by
  obtain ⟨task, htask, hop⟩ := Option.bind_eq_some_iff.mp hnext
  split at hop
  · rename_i found rest hstatus
    obtain ⟨rfl, rfl⟩ := Prod.mk.inj (Option.some.inj hop)
    exact ⟨task.born, (h.running number task _ htask hstatus state.world
      (hvalid.refl _ _) h.inv).1⟩
  · contradiction

/-- A number not yet in use sees each move as one of the others'. -/
theorem Valid.rely_step {before after : MachineState Op Resp World Job Reply}
    (h : Holds machine allows logic before)
    (hstep : machine.Step allows before after) {number : ℕ}
    (hnumber : before.tasks.length ≤ number) :
    logic.rely number before.world after.world := by
  cases hstep.cases with
  | arrive job hexternal => exact hvalid.refl _ _
  | tick input world htick =>
    exact (hvalid.tick _ input world h.inv htick).2 number
  | jump number' task job htask hstatus => exact hvalid.refl _ _
  | finish number' task reply htask hstatus => exact hvalid.refl _ _
  | op number' task op next input resp world htask hstatus hexec hallows =>
    obtain ⟨hlt, _⟩ := List.getElem?_eq_some_iff.mp htask
    obtain ⟨_, hothers, _, _⟩ :=
      (h.running number' task _ htask hstatus before.world
        (hvalid.refl _ _) h.inv).2 before.tasks.length hlt input resp world
        hexec hallows
    have hne : number ≠ number' := by omega
    exact hothers number hne

/-- What every move keeps holds in the world in which each later task has
arrived. -/
theorem Valid.born_of_reaches {holds : World → Prop}
    (hstable : ∀ number world after, holds world →
      logic.rely number world after → holds after)
    {before after : MachineState Op Resp World Job Reply}
    (h : Holds machine allows logic before) (hholds : holds before.world)
    (hreaches : machine.Reaches allows before after) :
    holds after.world ∧ ∀ number task, before.tasks.length ≤ number →
      after.tasks[number]? = some task → holds task.born := by
  induction hreaches with
  | refl =>
    refine ⟨hholds, ?_⟩
    intro number task hle htask
    obtain ⟨hlt, _⟩ := List.getElem?_eq_some_iff.mp htask
    omega
  | @tail middle last hmiddle hstep ih =>
    have hworld : holds last.world :=
      hstable middle.tasks.length _ _ ih.1
        (hvalid.rely_step (hvalid.holds_of_reaches h hmiddle) hstep (le_refl _))
    refine ⟨hworld, ?_⟩
    intro number task hle htask
    rcases hstep.born htask with ⟨old, hold, hborn⟩ | hborn
    · rw [← hborn]
      exact ih.2 number old hle hold
    · rw [hborn]
      exact hworld

end Sound

end Logic

end DnsLattice
