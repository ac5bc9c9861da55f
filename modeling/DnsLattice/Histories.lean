import DnsLattice.Interleaving

/-!
# Histories of interleaved programs

The history of a run lists the operations which were performed in it, in
order.  The operations of one task are its trace, and what a task has done can
be read off its program alone: whatever the operations return, its trace is a
way through the program.

The second half is a logic for traces.  Its assertions speak of one task and of
what it has done before; other tasks cannot interfere with that.
-/

namespace DnsLattice

/-- An operation and what it returned. -/
structure Act (Op : Type) (Resp : Op → Type) where
  op : Op
  resp : Resp op

/-- An operation in the history of a run: the task, the number of a task which
it might start, and the worlds before and after it. -/
structure Performed (Op : Type) (Resp : Op → Type) (World : Type) where
  number : ℕ
  unused : ℕ
  before : World
  act : Act Op Resp
  after : World

section Trace

variable {Op : Type} {Resp : Op → Type} {World : Type}

/-- What one task has done. -/
def traceOf (number : ℕ) (history : List (Performed Op Resp World)) :
    List (Act Op Resp) :=
  (history.filter fun performed => performed.number = number).map
    Performed.act

@[simp] theorem traceOf_nil (number : ℕ) :
    traceOf number ([] : List (Performed Op Resp World)) = [] :=
  rfl

theorem traceOf_append (number : ℕ)
    (history later : List (Performed Op Resp World)) :
    traceOf number (history ++ later) =
      traceOf number history ++ traceOf number later := by
  simp [traceOf]

theorem traceOf_own (history : List (Performed Op Resp World))
    (performed : Performed Op Resp World) :
    traceOf performed.number (history ++ [performed]) =
      traceOf performed.number history ++ [performed.act] := by
  simp [traceOf]

theorem traceOf_other {number : ℕ} (history : List (Performed Op Resp World))
    {performed : Performed Op Resp World} (h : performed.number ≠ number) :
    traceOf number (history ++ [performed]) = traceOf number history := by
  simp [traceOf, h]

theorem mem_traceOf {number : ℕ}
    {history : List (Performed Op Resp World)} {act : Act Op Resp} :
    act ∈ traceOf number history ↔
      ∃ performed ∈ history, performed.number = number ∧
        performed.act = act := by
  simp [traceOf, and_assoc]

/-- Each act of a trace stands in the history, after what the trace has
before it. -/
theorem split_of_traceOf {number : ℕ} {history : List (Performed Op Resp World)}
    {before after : List (Act Op Resp)} {act : Act Op Resp}
    (h : traceOf number history = before ++ act :: after) :
    ∃ earlier performed later, history = earlier ++ performed :: later ∧
      performed.number = number ∧ performed.act = act ∧
      traceOf number earlier = before := by
  obtain ⟨front, back, hfilter, hbefore, hback⟩ := List.map_eq_append_iff.mp h
  obtain ⟨performed, rest, rfl, rfl, _⟩ := List.map_eq_cons_iff.mp hback
  obtain ⟨earlier, others, rfl, hfront, hothers⟩ :=
    List.filter_eq_append_iff.mp hfilter
  obtain ⟨skipped, later, rfl, hskipped, hnumber, _⟩ :=
    List.filter_eq_cons_iff.mp hothers
  refine ⟨earlier ++ skipped, performed, later, by simp, by simpa using hnumber,
    rfl, ?_⟩
  have hnone : skipped.filter (fun performed => performed.number = number) =
      [] := List.filter_eq_nil_iff.mpr hskipped
  rw [traceOf, List.filter_append, hfront, hnone, List.append_nil, hbefore]

theorem countP_le_of_traces {first second : Act Op Resp → Bool}
    (history : List (Performed Op Resp World))
    (h : ∀ number, (traceOf number history).countP first ≤
      (traceOf number history).countP second) :
    (history.map Performed.act).countP first ≤
      (history.map Performed.act).countP second := by
  -- the operations of the first task are taken out of the history
  induction hlength : history.length using Nat.strong_induction_on
    generalizing history with
  | _ length ih =>
    cases history with
    | nil => simp
    | cons performed rest =>
      let own : Performed Op Resp World → Bool := fun other =>
        decide (other.number = performed.number)
      let others := (performed :: rest).filter fun other => !own other
      have hshorter : others.length < length := by
        rw [← hlength]
        apply List.length_filter_lt_length_iff_exists.mpr
        exact ⟨performed, List.mem_cons_self, by simp [own]⟩
      have hsplit : ∀ counts : Act Op Resp → Bool,
          ((performed :: rest).map Performed.act).countP counts =
            (traceOf performed.number (performed :: rest)).countP counts +
              (others.map Performed.act).countP counts := by
        intro counts
        simp only [traceOf, List.countP_map]
        exact List.countP_eq_countP_filter_add _ _ own
      have hothers : ∀ number, (traceOf number others).countP first ≤
          (traceOf number others).countP second := by
        intro number
        by_cases heq : number = performed.number
        · have hnone : traceOf number others = [] := by
            simp [traceOf, others, own, heq, List.filter_filter]
          simp [hnone]
        · have hsame : traceOf number others =
              traceOf number (performed :: rest) := by
            rw [traceOf, List.filter_filter, traceOf]
            congr 1
            apply List.filter_congr
            intro other _
            by_cases hother : other.number = number
            · simp [own, hother, heq]
            · simp [hother]
          rw [hsame]
          exact h number
      rw [hsplit first, hsplit second]
      exact Nat.add_le_add (h performed.number)
        (ih others.length hshorter others hothers rfl)

end Trace

/-! ## Runs with a history -/

namespace Machine

variable {Op : Type} {Resp : Op → Type} {World Job Reply Input : Type}

/-- The moves which are no operation. -/
inductive Silent (machine : Machine Op Resp World Job Reply Input)
    (before : MachineState Op Resp World Job Reply) :
    MachineState Op Resp World Job Reply → Prop
  | arrive (job : Job) (hexternal : machine.external job = true) :
      Silent machine before { before with
        tasks := before.tasks ++ [machine.start before.world job] }
  | tick (input : Input) (world : World)
      (htick : machine.tick before.world input = some world) :
      Silent machine before { before with world := world }
  | jump (number : ℕ) (task : Task Op Resp World Job Reply) (job : Job)
      (htask : before.tasks[number]? = some task)
      (hstatus : task.status = .running (.ret (.inl job))) :
      Silent machine before { before with
        tasks := setStatus before.tasks number
          (.running (machine.code job)) }
  | finish (number : ℕ) (task : Task Op Resp World Job Reply) (reply : Reply)
      (htask : before.tasks[number]? = some task)
      (hstatus : task.status = .running (.ret (.inr reply))) :
      Silent machine before { before with
        tasks := setStatus before.tasks number (.finished reply) }

/-- The move which is the given operation. -/
inductive Performs (machine : Machine Op Resp World Job Reply Input)
    (allows : Condition Op Resp World Job)
    (before : MachineState Op Resp World Job Reply) :
    Performed Op Resp World → MachineState Op Resp World Job Reply → Prop
  | intro (number : ℕ) (task : Task Op Resp World Job Reply) (op : Op)
      (next : Resp op → Prog Op Resp (Job ⊕ Reply)) (input : Input)
      (resp : Resp op) (world : World)
      (htask : before.tasks[number]? = some task)
      (hstatus : task.status = .running (.perform op next))
      (hexec : machine.exec number before.tasks.length before.world op input =
        some (resp, world))
      (hallows : allows task.job task.born before.world op resp = true) :
      Performs machine allows before
        ⟨number, before.tasks.length, before.world, ⟨op, resp⟩, world⟩
        { world := world
          tasks := setStatus before.tasks number (.running (next resp)) ++
            ((machine.spawns op).map (machine.start world)).toList }

inductive Ran (machine : Machine Op Resp World Job Reply Input)
    (allows : Condition Op Resp World Job)
    (start : MachineState Op Resp World Job Reply) :
    List (Performed Op Resp World) → MachineState Op Resp World Job Reply →
      Prop
  | start : Ran machine allows start [] start
  | silent {history : List (Performed Op Resp World)}
      {before after : MachineState Op Resp World Job Reply}
      (hran : Ran machine allows start history before)
      (hsilent : Silent machine before after) :
      Ran machine allows start history after
  | op {history : List (Performed Op Resp World)}
      {performed : Performed Op Resp World}
      {before after : MachineState Op Resp World Job Reply}
      (hran : Ran machine allows start history before)
      (hperforms : Performs machine allows before performed after) :
      Ran machine allows start (history ++ [performed]) after

variable {machine : Machine Op Resp World Job Reply Input}
  {allows : Condition Op Resp World Job}
  {start before after state : MachineState Op Resp World Job Reply}
  {history earlier later : List (Performed Op Resp World)}
  {performed : Performed Op Resp World}

theorem Silent.step [Nonempty Input] (h : Silent machine before after) :
    machine.Step allows before after := by
  obtain ⟨anything⟩ := ‹Nonempty Input›
  cases h with
  | arrive job hexternal =>
    exact ⟨.arrive job, by simp [Machine.step, hexternal]⟩
  | tick input world htick =>
    exact ⟨.tick input, by simp [Machine.step, htick]⟩
  | jump number task job htask hstatus =>
    exact ⟨.run number anything,
      by simp [Machine.step, htask, advance, hstatus]⟩
  | finish number task reply htask hstatus =>
    exact ⟨.run number anything,
      by simp [Machine.step, htask, advance, hstatus]⟩

theorem Performs.step (h : Performs machine allows before performed after) :
    machine.Step allows before after := by
  cases h with
  | intro number task op next input resp world htask hstatus hexec hallows =>
    exact ⟨.run number input,
      by simp [Machine.step, htask, advance, hstatus, hexec, hallows]⟩

theorem Ran.reaches [Nonempty Input]
    (h : Ran machine allows start history state) :
    machine.Reaches allows start state := by
  induction h with
  | start => exact .refl
  | silent hran hsilent ih => exact ih.tail hsilent.step
  | op hran hperforms ih => exact ih.tail hperforms.step

theorem Ran.split (h : Ran machine allows start history state)
    (hhistory : history = earlier ++ performed :: later) :
    ∃ before after, Ran machine allows start earlier before ∧
      Performs machine allows before performed after ∧
      Ran machine allows after later state := by
  induction h generalizing later with
  | start => simp at hhistory
  | silent hran hsilent ih =>
    obtain ⟨before, after, hbefore, hperforms, hafter⟩ := ih hhistory
    exact ⟨before, after, hbefore, hperforms, hafter.silent hsilent⟩
  | @op history last middle state hran hlast ih =>
    rcases later.eq_nil_or_concat' with rfl | ⟨rest, final, rfl⟩
    · obtain ⟨rfl, hcons⟩ := List.append_inj' hhistory rfl
      obtain rfl := List.singleton_inj.mp hcons
      exact ⟨middle, state, hran, hlast, .start⟩
    · rw [← List.cons_append, ← List.append_assoc] at hhistory
      obtain ⟨hfront, hback⟩ := List.append_inj' hhistory rfl
      obtain rfl := List.singleton_inj.mp hback
      obtain ⟨before, after, hbefore, hperforms, hafter⟩ := ih hfront
      exact ⟨before, after, hbefore, hperforms, hafter.op hlast⟩

theorem Performs.exec (h : Performs machine allows before performed after) :
    (∃ input, machine.exec performed.number performed.unused performed.before
      performed.act.op input = some (performed.act.resp, performed.after)) ∧
      performed.before = before.world ∧ performed.after = after.world ∧
      performed.number < performed.unused ∧
      performed.unused = before.tasks.length := by
  cases h with
  | intro number task op next input resp world htask hstatus hexec hallows =>
    obtain ⟨hlt, _⟩ := List.getElem?_eq_some_iff.mp htask
    exact ⟨⟨input, hexec⟩, rfl, rfl, hlt, rfl⟩

theorem Performs.next (h : Performs machine allows before performed after) :
    ∃ task, before.tasks[performed.number]? = some task ∧
      before.next performed.number = some (task.job, performed.act.op) := by
  cases h with
  | intro number task op next input resp world htask hstatus hexec hallows =>
    refine ⟨task, htask, ?_⟩
    simp [MachineState.next, htask, hstatus]

theorem keeps_task_setStatus {tasks : List (Task Op Resp World Job Reply)}
    {other : ℕ} {task : Task Op Resp World Job Reply}
    (h : tasks[other]? = some task) (number : ℕ)
    (status : Status Op Resp Job Reply) :
    ∃ found, (setStatus tasks number status)[other]? = some found ∧
      found.job = task.job ∧ found.born = task.born := by
  refine ⟨_, by rw [setStatus, List.getElem?_modify, h]; rfl, ?_⟩
  split_ifs <;> exact ⟨rfl, rfl⟩

theorem Step.keeps_task (h : machine.Step allows before after) {number : ℕ}
    {task : Task Op Resp World Job Reply}
    (htask : before.tasks[number]? = some task) :
    ∃ found, after.tasks[number]? = some found ∧ found.job = task.job ∧
      found.born = task.born := by
  obtain ⟨hlt, _⟩ := List.getElem?_eq_some_iff.mp htask
  cases h.cases with
  | arrive job hexternal =>
    exact ⟨task, by rwa [List.getElem?_append_left hlt], rfl, rfl⟩
  | tick input world htick => exact ⟨task, htask, rfl, rfl⟩
  | jump number' task' job htask' hstatus =>
    exact keeps_task_setStatus htask number' _
  | finish number' task' reply htask' hstatus =>
    exact keeps_task_setStatus htask number' _
  | op number' task' op next input resp world htask' hstatus hexec hallows =>
    obtain ⟨found, hfound, hsame⟩ :=
      keeps_task_setStatus htask number' (.running (next resp))
    obtain ⟨hlt', _⟩ := List.getElem?_eq_some_iff.mp hfound
    exact ⟨found, by rwa [List.getElem?_append_left hlt'], hsame⟩

theorem Ran.keeps_task [Nonempty Input]
    (h : Ran machine allows start history state) {number : ℕ}
    {task : Task Op Resp World Job Reply}
    (htask : start.tasks[number]? = some task) :
    ∃ found, state.tasks[number]? = some found ∧ found.job = task.job ∧
      found.born = task.born := by
  have hreaches := h.reaches
  clear h
  induction hreaches with
  | refl => exact ⟨task, htask, rfl, rfl⟩
  | tail _ hstep ih =>
    obtain ⟨middle, hmiddle, hjob, hborn⟩ := ih
    obtain ⟨found, hfound, hjob', hborn'⟩ := hstep.keeps_task hmiddle
    exact ⟨found, hfound, hjob'.trans hjob, hborn'.trans hborn⟩

theorem Ran.task_of_split [Nonempty Input]
    (h : Ran machine allows start history state)
    (hhistory : history = earlier ++ performed :: later) :
    ∃ before after task found, Ran machine allows start earlier before ∧
      Performs machine allows before performed after ∧
      Ran machine allows after later state ∧
      before.tasks[performed.number]? = some task ∧
      before.next performed.number = some (task.job, performed.act.op) ∧
      state.tasks[performed.number]? = some found ∧ found.job = task.job ∧
      found.born = task.born := by
  obtain ⟨before, after, hbefore, hperforms, hafter⟩ := h.split hhistory
  obtain ⟨task, htask, hnext⟩ := hperforms.next
  obtain ⟨middle, hmiddle, hjob, hborn⟩ := hperforms.step.keeps_task htask
  obtain ⟨found, hfound, hjob', hborn'⟩ := hafter.keeps_task hmiddle
  exact ⟨before, after, task, found, hbefore, hperforms, hafter, htask, hnext,
    hfound, hjob'.trans hjob, hborn'.trans hborn⟩

/-! ### Recorded runs -/

def recorded (machine : Machine Op Resp World Job Reply Input)
    (state : MachineState Op Resp World Job Reply) :
    Move Job Input → List (Performed Op Resp World)
  | .run number input =>
      match state.tasks[number]? with
      | none => []
      | some task =>
          match task.status with
          | .running (.perform op _) =>
              match machine.exec number state.tasks.length state.world op
                  input with
              | none => []
              | some (resp, world) =>
                  [⟨number, state.tasks.length, state.world, ⟨op, resp⟩,
                    world⟩]
          | _ => []
  | _ => []

def record (machine : Machine Op Resp World Job Reply Input)
    (allows : Condition Op Resp World Job) :
    List (Move Job Input) → MachineState Op Resp World Job Reply →
      Option (List (Performed Op Resp World) ×
        MachineState Op Resp World Job Reply)
  | [], state => some ([], state)
  | move :: rest, state =>
      match machine.step allows state move with
      | none => none
      | some next =>
          (record machine allows rest next).map fun (history, last) =>
            (machine.recorded state move ++ history, last)

theorem Ran.trans {middle : MachineState Op Resp World Job Reply}
    (hfirst : Ran machine allows start history middle)
    (hsecond : Ran machine allows middle later state) :
    Ran machine allows start (history ++ later) state := by
  induction hsecond with
  | start => simpa using hfirst
  | silent _ hsilent ih => exact ih.silent hsilent
  | op _ hperforms ih =>
    rw [← List.append_assoc]
    exact ih.op hperforms

theorem ran_recorded {move : Move Job Input}
    (h : machine.step allows before move = some after) :
    Ran machine allows before (machine.recorded before move) after := by
  have hstart : Ran machine allows before [] before := .start
  cases move with
  | arrive job =>
    rw [Machine.step] at h
    split_ifs at h with hexternal
    obtain rfl := Option.some.inj h
    exact hstart.silent (.arrive job hexternal)
  | tick input =>
    obtain ⟨world, htick, rfl⟩ := Option.map_eq_some_iff.mp h
    exact hstart.silent (.tick input world htick)
  | run number input =>
    rw [Machine.step] at h
    cases htask : before.tasks[number]? with
    | none => simp [htask] at h
    | some task =>
      rw [htask] at h
      dsimp only at h
      unfold advance at h
      cases hstatus : task.status with
      | finished reply => simp [hstatus] at h
      | running prog =>
        rw [hstatus] at h
        rcases prog with (job | reply) | ⟨op, next⟩
        · obtain rfl := Option.some.inj h
          simpa [recorded, htask, hstatus] using
            hstart.silent (.jump number task job htask hstatus)
        · obtain rfl := Option.some.inj h
          simpa [recorded, htask, hstatus] using
            hstart.silent (.finish number task reply htask hstatus)
        · dsimp only at h
          cases hexec : machine.exec number before.tasks.length
              before.world op input with
          | none => simp [hexec] at h
          | some result =>
            obtain ⟨resp, world⟩ := result
            rw [hexec] at h
            dsimp only at h
            split_ifs at h with hallows
            obtain rfl := Option.some.inj h
            simpa [recorded, htask, hstatus, hexec] using
              hstart.op (.intro number task op next input resp
                world htask hstatus hexec hallows)

theorem ran_of_record {moves : List (Move Job Input)}
    (h : machine.record allows moves before = some (history, after)) :
    Ran machine allows before history after := by
  induction moves generalizing before history with
  | nil =>
    obtain ⟨rfl, rfl⟩ := Prod.mk.inj (Option.some.inj h)
    exact .start
  | cons move rest ih =>
    rw [record] at h
    cases hstep : machine.step allows before move with
    | none => simp [hstep] at h
    | some next =>
      rw [hstep] at h
      obtain ⟨⟨others, last⟩, hrest, heq⟩ := Option.map_eq_some_iff.mp h
      obtain ⟨rfl, rfl⟩ := Prod.mk.inj heq
      exact (ran_recorded hstep).trans (ih hrest)

theorem ran_of_record_any {moves : List (Move Job Input)}
    {check : List (Performed Op Resp World) ×
      MachineState Op Resp World Job Reply → Bool}
    (h : (machine.record allows moves before).any check = true) :
    ∃ history after, Ran machine allows before history after ∧
      check (history, after) = true := by
  obtain ⟨⟨history, after⟩, hrecord, hcheck⟩ := (Option.any_eq_true _ _).mp h
  exact ⟨history, after, ran_of_record hrecord, hcheck⟩

end Machine

/-! ## Traces of programs -/

/-- After the trace the program only performs operations whose assertion holds
of what was done before, and it ends with the postcondition, whatever the
operations return of what they can give. -/
def Prog.Along {Op : Type} {Resp : Op → Type} {α : Type}
    (gives : (op : Op) → Resp op → Prop)
    (asserts : List (Act Op Resp) → Op → Prop)
    (ensures : α → List (Act Op Resp) → Prop) :
    Prog Op Resp α → List (Act Op Resp) → Prop
  | .ret value, trace => ensures value trace
  | .perform op next, trace =>
      asserts trace op ∧ ∀ resp, gives op resp →
        Along gives asserts ensures (next resp) (trace ++ [⟨op, resp⟩])

def Prog.Only {Op : Type} {Resp : Op → Type} {α : Type}
    (holds : Op → Prop) : Prog Op Resp α → Prop
  | .ret _ => True
  | .perform op next => holds op ∧ ∀ resp, Only holds (next resp)

def Prog.Returns {Op : Type} {Resp : Op → Type} {α : Type}
    (holds : α → Prop) : Prog Op Resp α → Prop
  | .ret value => holds value
  | .perform _ next => ∀ resp, Returns holds (next resp)

namespace Prog

variable {Op : Type} {Resp : Op → Type} {α β : Type}
  {gives : (op : Op) → Resp op → Prop}
  {asserts : List (Act Op Resp) → Op → Prop}
  {trace : List (Act Op Resp)}

theorem Along.bind {prog : Prog Op Resp α} {next : α → Prog Op Resp β}
    {middle : α → List (Act Op Resp) → Prop}
    {ensures : β → List (Act Op Resp) → Prop}
    (hprog : Along gives asserts middle prog trace)
    (hnext : ∀ value after, middle value after →
      Along gives asserts ensures (next value) after) :
    Along gives asserts ensures (prog >>= next) trace := by
  induction prog generalizing trace with
  | ret value => exact hnext value trace hprog
  | perform op rest ih =>
    refine ⟨hprog.1, ?_⟩
    intro resp hgives
    exact ih resp (hprog.2 resp hgives)

theorem Along.ret {value : α} {ensures : α → List (Act Op Resp) → Prop}
    (h : ensures value trace) :
    Along gives asserts ensures (pure value) trace :=
  h

theorem Along.step {op : Op} {next : Resp op → Prog Op Resp α}
    {ensures : α → List (Act Op Resp) → Prop} (hop : asserts trace op)
    (hnext : ∀ resp, gives op resp →
      Along gives asserts ensures (next resp) (trace ++ [⟨op, resp⟩])) :
    Along gives asserts ensures (Prog.lift op >>= next) trace :=
  ⟨hop, hnext⟩

theorem Along.mono {prog : Prog Op Resp α}
    {ensures ensures' : α → List (Act Op Resp) → Prop}
    (hprog : Along gives asserts ensures prog trace)
    (himp : ∀ value after, ensures value after → ensures' value after) :
    Along gives asserts ensures' prog trace := by
  induction prog generalizing trace with
  | ret value => exact himp value trace hprog
  | perform op rest ih =>
    refine ⟨hprog.1, ?_⟩
    intro resp hgives
    exact ih resp (hprog.2 resp hgives)

theorem Along.returns {prog : Prog Op Resp α}
    {ensures : α → List (Act Op Resp) → Prop} {holds : α → Prop}
    (hprog : Along gives asserts ensures prog trace)
    (hreturns : Returns holds prog) :
    Along gives asserts (fun value after => ensures value after ∧ holds value)
      prog trace := by
  induction prog generalizing trace with
  | ret value => exact ⟨hprog, hreturns⟩
  | perform op rest ih =>
    refine ⟨hprog.1, ?_⟩
    intro resp hgives
    exact ih resp (hprog.2 resp hgives) (hreturns resp)

theorem Only.bind {holds : Op → Prop} {prog : Prog Op Resp α}
    {next : α → Prog Op Resp β} (hprog : Only holds prog)
    (hnext : ∀ value, Only holds (next value)) :
    Only holds (prog >>= next) := by
  induction prog with
  | ret value => exact hnext value
  | perform op rest ih => exact ⟨hprog.1, fun resp => ih resp (hprog.2 resp)⟩

theorem Only.step {holds : Op → Prop} {op : Op}
    {next : Resp op → Prog Op Resp α} (hop : holds op)
    (hnext : ∀ resp, Only holds (next resp)) :
    Only holds (Prog.lift op >>= next) :=
  ⟨hop, hnext⟩

theorem Only.along {holds : Op → Prop} {prog : Prog Op Resp α}
    (hprog : Only holds prog)
    (hasserts : ∀ trace op, holds op → asserts trace op)
    (trace : List (Act Op Resp)) :
    Along gives asserts (fun _ after => ∃ acts, after = trace ++ acts ∧
      ∀ act ∈ acts, holds act.op) prog trace := by
  induction prog generalizing trace with
  | ret value => exact ⟨[], by simp, by simp⟩
  | perform op rest ih =>
    refine ⟨hasserts trace op hprog.1, ?_⟩
    intro resp _
    refine (ih resp (hprog.2 resp) _).mono ?_
    rintro value after ⟨acts, rfl, hacts⟩
    refine ⟨⟨op, resp⟩ :: acts, by simp, ?_⟩
    intro act hact
    rcases List.mem_cons.mp hact with rfl | hmem
    · exact hprog.1
    · exact hacts act hmem

end Prog

/-- What the operations can give, and the assertions of one task on its trace:
at each operation, at the start of a job and at the end. -/
structure Path (Op : Type) (Resp : Op → Type) (Job Reply : Type) where
  gives : (op : Op) → Resp op → Prop
  asserts : Job → List (Act Op Resp) → Op → Prop
  pre : Job → Job → List (Act Op Resp) → Prop
  post : Job → Reply → List (Act Op Resp) → Prop

namespace Path

variable {Op : Type} {Resp : Op → Type} {World Job Reply Input : Type}

def done (path : Path Op Resp Job Reply) (first : Job) :
    Job ⊕ Reply → List (Act Op Resp) → Prop
  | .inl job, trace => path.pre first job trace
  | .inr reply, trace => path.post first reply trace

abbrev Keeps (path : Path Op Resp Job Reply) {α : Type} (first : Job)
    (ensures : α → List (Act Op Resp) → Prop) (prog : Prog Op Resp α)
    (trace : List (Act Op Resp)) : Prop :=
  prog.Along path.gives (path.asserts first) ensures trace

structure Valid (machine : Machine Op Resp World Job Reply Input)
    (path : Path Op Resp Job Reply) : Prop where
  gives : ∀ {number unused before op input resp after},
    machine.exec number unused before op input = some (resp, after) →
    path.gives op resp
  arrive : ∀ job, machine.external job = true → path.pre job job []
  spawn : ∀ op job, machine.spawns op = some job → path.pre job job []
  code : ∀ first job trace, path.pre first job trace →
    path.Keeps first (path.done first) (machine.code job) trace

structure Holds (path : Path Op Resp Job Reply)
    (history : List (Performed Op Resp World))
    (state : MachineState Op Resp World Job Reply) : Prop where
  unused : ∀ number, state.tasks.length ≤ number →
    traceOf number history = []
  running : ∀ number task prog, state.tasks[number]? = some task →
    task.status = .running prog →
    path.Keeps task.job (path.done task.job) prog (traceOf number history)
  finished : ∀ number task reply, state.tasks[number]? = some task →
    task.status = .finished reply →
    path.post task.job reply (traceOf number history)

variable {machine : Machine Op Resp World Job Reply Input}
  {allows : Condition Op Resp World Job} {path : Path Op Resp Job Reply}
  {before after state : MachineState Op Resp World Job Reply}
  {history : List (Performed Op Resp World)}

theorem Holds.ended (h : path.Holds history state) {number : ℕ} {job : Job}
    {reply : Reply} (hended : state.ended number = some (job, reply)) :
    path.post job reply (traceOf number history) := by
  obtain ⟨task, htask, hstatus⟩ := Option.bind_eq_some_iff.mp hended
  cases hreply : task.status with
  | running prog => simp [hreply] at hstatus
  | finished found =>
    rw [hreply] at hstatus
    obtain ⟨rfl, rfl⟩ := Prod.mk.inj (Option.some.inj hstatus)
    exact h.finished number task found htask hreply

theorem Holds.next (h : path.Holds history state) {number : ℕ} {job : Job}
    {op : Op} (hnext : state.next number = some (job, op)) :
    path.asserts job (traceOf number history) op := by
  obtain ⟨task, htask, hop⟩ := Option.bind_eq_some_iff.mp hnext
  split at hop
  · rename_i found rest hstatus
    obtain ⟨rfl, rfl⟩ := Prod.mk.inj (Option.some.inj hop)
    exact (h.running number task _ htask hstatus).1
  · contradiction

theorem Holds.concat (h : path.Holds history state)
    (hvalid : path.Valid machine) {job : Job} (hpre : path.pre job job [])
    (world : World) :
    path.Holds history
      ⟨world, state.tasks ++ [machine.start world job]⟩ := by
  have hempty : traceOf state.tasks.length history = [] :=
    h.unused _ (le_refl _)
  refine ⟨?_, ?_, ?_⟩
  · intro number hle
    apply h.unused number
    rw [List.length_append, List.length_singleton] at hle
    omega
  · intro number task prog htask hstatus
    rcases Machine.concat_cases htask with hold | ⟨rfl, rfl⟩
    · exact h.running number task prog hold hstatus
    · obtain rfl := Status.running.inj hstatus
      rw [hempty]
      exact hvalid.code job job [] hpre
  · intro number task reply htask hstatus
    rcases Machine.concat_cases htask with hold | ⟨rfl, rfl⟩
    · exact h.finished number task reply hold hstatus
    · cases hstatus

/-- One task has moved, and the others have the traces they had. -/
theorem Holds.setStatus (h : path.Holds history state) {number : ℕ}
    {task : Task Op Resp World Job Reply}
    (htask : state.tasks[number]? = some task)
    {later : List (Performed Op Resp World)}
    (hothers : ∀ other, other ≠ number →
      traceOf other later = traceOf other history)
    {status : Status Op Resp Job Reply} (world : World)
    (hrunning : ∀ prog, status = .running prog →
      path.Keeps task.job (path.done task.job) prog (traceOf number later))
    (hfinished : ∀ reply, status = .finished reply →
      path.post task.job reply (traceOf number later)) :
    path.Holds later
      ⟨world, Machine.setStatus state.tasks number status⟩ := by
  obtain ⟨hlt, _⟩ := List.getElem?_eq_some_iff.mp htask
  refine ⟨?_, ?_, ?_⟩
  · intro other hle
    rw [Machine.setStatus, List.length_modify] at hle
    rw [hothers other (by omega)]
    exact h.unused other hle
  · intro other found prog hfound hstatus
    rcases Machine.setStatus_cases htask hfound with ⟨rfl, rfl⟩ | ⟨hne, hold⟩
    · exact hrunning prog hstatus
    · rw [hothers other hne]
      exact h.running other found prog hold hstatus
  · intro other found reply hfound hstatus
    rcases Machine.setStatus_cases htask hfound with ⟨rfl, rfl⟩ | ⟨hne, hold⟩
    · exact hfinished reply hstatus
    · rw [hothers other hne]
      exact h.finished other found reply hold hstatus

section Sound

variable (hvalid : path.Valid machine)

include hvalid

theorem Holds.silent (h : path.Holds history before)
    (hsilent : Machine.Silent machine before after) :
    path.Holds history after := by
  cases hsilent with
  | arrive job hexternal =>
    exact h.concat hvalid (hvalid.arrive job hexternal) before.world
  | tick input world htick => exact ⟨h.unused, h.running, h.finished⟩
  | jump number task job htask hstatus =>
    refine h.setStatus htask (fun _ _ => rfl) before.world ?_ ?_
    · intro prog hprog
      obtain rfl := Status.running.inj hprog
      exact hvalid.code task.job job _
        (h.running number task _ htask hstatus)
    · intro reply hreply
      contradiction
  | finish number task reply htask hstatus =>
    refine h.setStatus htask (fun _ _ => rfl) before.world ?_ ?_
    · intro prog hprog
      contradiction
    · intro found hfound
      obtain rfl := Status.finished.inj hfound
      exact h.running number task _ htask hstatus

theorem Holds.op {performed : Performed Op Resp World}
    (h : path.Holds history before)
    (hperforms : Machine.Performs machine allows before performed after) :
    path.Holds (history ++ [performed]) after := by
  cases hperforms with
  | intro number task op next input resp world htask hstatus hexec hallows =>
    have hmoved : path.Holds (history ++ [⟨number, before.tasks.length,
        before.world, ⟨op, resp⟩, world⟩])
        ⟨world, Machine.setStatus before.tasks number
          (.running (next resp))⟩ := by
      refine h.setStatus htask ?_ world ?_ ?_
      · intro other hne
        exact traceOf_other history (Ne.symm hne)
      · intro prog hprog
        obtain rfl := Status.running.inj hprog
        rw [traceOf_own history ⟨number, _, _, _, _⟩]
        exact (h.running number task _ htask hstatus).2 resp
          (hvalid.gives hexec)
      · intro reply hreply
        contradiction
    cases hjob : machine.spawns op with
    | none => simpa using hmoved
    | some job =>
      exact hmoved.concat hvalid (hvalid.spawn op job hjob) world

theorem Valid.holds {world : World}
    (hran : Machine.Ran machine allows ⟨world, []⟩ history state) :
    path.Holds history state := by
  induction hran with
  | start =>
    exact ⟨fun _ _ => rfl, fun _ _ _ htask => by simp at htask,
      fun _ _ _ htask => by simp at htask⟩
  | silent hran hsilent ih => exact ih.silent hvalid hsilent
  | op hran hperforms ih => exact ih.op hvalid hperforms

theorem Valid.asserts [Nonempty Input] {world : World}
    (hran : Machine.Ran machine allows ⟨world, []⟩ history state)
    {earlier later : List (Performed Op Resp World)}
    {performed : Performed Op Resp World}
    (hhistory : history = earlier ++ performed :: later) :
    ∃ task, state.tasks[performed.number]? = some task ∧
      path.asserts task.job (traceOf performed.number earlier)
        performed.act.op := by
  obtain ⟨before, after, old, task, hbefore, _, _, _, hnext, htask, hjob,
    _⟩ := hran.task_of_split hhistory
  refine ⟨task, htask, ?_⟩
  rw [hjob]
  exact (hvalid.holds hbefore).next hnext

end Sound

end Path

end DnsLattice
