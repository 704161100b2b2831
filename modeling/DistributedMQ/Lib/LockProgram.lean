import DistributedMQ.Lib.Machine

/-!
# Programs that share a reader/writer lock

A small language for the control flow of threads that share a state under one
lock that is not reentrant: what a thread acquires and releases, the branches it
takes on the shared state, what it waits for from outside, loops, and functions
with a deferred part. Branches and waits carry the name of the place they stand
at, so that an assumption about one place can be stated.

- `World.step`: any number of threads, interleaved at single statements.
- `Prog.wp`: the weakest precondition of a program for lock discipline, over how
  the thread holds the lock.
- `disciplined_of_run`: if every program that may be started meets its weakest
  precondition, no thread of any run acquires a lock it holds or releases one it
  does not hold.
-/

namespace LockProgram

open Machine

/-- How a thread holds the lock. -/
inductive Held where
  | none
  | shared
  | exclusive
deriving DecidableEq, Repr

/-- Programs over the shared state `σ`, with answers `ι` from outside and places
named by `β`. -/
inductive Prog (σ ι β : Type) where
  | skip
  /-- Leave the function; its deferred part still runs. -/
  | ret
  | lock
  | unlock
  | rlock
  | runlock
  | act (f : σ → σ)
  | seq (p q : Prog σ ι β)
  /-- Go on in a way that depends on the shared state. -/
  | get (site : β) (k : σ → Prog σ ι β)
  /-- Wait for an answer from outside. -/
  | input (site : β) (k : ι → Prog σ ι β)
  | loop (cond : σ → Bool) (body : Prog σ ι β)
  /-- Call a function with this body and this deferred part. -/
  | call (body deferred : Prog σ ι β)

variable {σ ι β ω : Type}

namespace Prog

/-- One statement after the other. -/
def block : List (Prog σ ι β) → Prog σ ι β
  | [] => .skip
  | p :: ps => .seq p (block ps)

end Prog

/-- What a thread has still to do. -/
inductive Frame (σ ι β : Type) where
  | run (p : Prog σ ι β)
  /-- The end of a function with its deferred part. -/
  | deferred (p : Prog σ ι β)

structure Thread (σ ι β : Type) where
  held : Held
  stack : List (Frame σ ι β)

structure World (σ ι β : Type) where
  shared : σ
  threads : List (Thread σ ι β)

/-- The stack after `ret`: the deferred part of the innermost function. -/
def unwind : List (Frame σ ι β) → List (Frame σ ι β)
  | [] => []
  | .run _ :: K => unwind K
  | .deferred d :: K => .run d :: K

/-- One statement of a thread. An acquisition waits until the lock is free, and
neither it nor a release goes through against the discipline. -/
def Thread.step (free : Held → Bool) (i : ι) (s : σ) (t : Thread σ ι β) :
    Option (σ × Thread σ ι β) :=
  match t.stack with
  | [] => Option.none
  | .deferred d :: K => some (s, ⟨t.held, .run d :: K⟩)
  | .run p :: K =>
    match p with
    | .skip => some (s, ⟨t.held, K⟩)
    | .ret => some (s, ⟨t.held, unwind K⟩)
    | .lock =>
      if t.held = .none ∧ free .exclusive then some (s, ⟨.exclusive, K⟩) else Option.none
    | .unlock => if t.held = .exclusive then some (s, ⟨.none, K⟩) else Option.none
    | .rlock => if t.held = .none ∧ free .shared then some (s, ⟨.shared, K⟩) else Option.none
    | .runlock => if t.held = .shared then some (s, ⟨.none, K⟩) else Option.none
    | .act f => some (f s, ⟨t.held, K⟩)
    | .seq p q => some (s, ⟨t.held, .run p :: .run q :: K⟩)
    | .get _ k => some (s, ⟨t.held, .run (k s) :: K⟩)
    | .input _ k => some (s, ⟨t.held, .run (k i) :: K⟩)
    | .loop cond body =>
      if cond s then some (s, ⟨t.held, .run body :: .run (.loop cond body) :: K⟩)
      else some (s, ⟨t.held, K⟩)
    | .call body d => some (s, ⟨t.held, .run body :: .deferred d :: K⟩)

inductive Label (ι ω : Type) where
  /-- An operation is started in a new thread. -/
  | spawn (op : ω)
  /-- A thread does one statement, with this answer if it waits for one. -/
  | step (thread : ℕ) (answer : ι)

namespace World

/-- The lock can be acquired in this mode. -/
def free (w : World σ ι β) (mode : Held) : Bool :=
  match mode with
  | .exclusive => w.threads.all fun t => decide (t.held = .none)
  | _ => w.threads.all fun t => decide (t.held ≠ .exclusive)

def step (program : ω → Prog σ ι β) (w : World σ ι β) : Label ι ω → Option (World σ ι β)
  | .spawn op =>
    some { w with threads := w.threads ++ [⟨.none, [.run (program op)]⟩] }
  | .step n i =>
    match w.threads[n]? with
    | some t =>
      match t.step w.free i w.shared with
      | some (s, t') => some { shared := s, threads := w.threads.set n t' }
      | Option.none => Option.none
    | Option.none => Option.none

end World

/-- The statement a thread has reached respects the discipline: it acquires only
a lock it does not hold and releases only what it holds. -/
def Thread.disciplined (t : Thread σ ι β) : Bool :=
  match t.stack with
  | .run .lock :: _ | .run .rlock :: _ => decide (t.held = .none)
  | .run .unlock :: _ => decide (t.held = .exclusive)
  | .run .runlock :: _ => decide (t.held = .shared)
  | _ => true

/-- Assumptions about the places of a program. -/
structure Assumption (σ ι β : Type) where
  /-- On the state a branch finds at a place. -/
  onGet : β → σ → Prop
  /-- On the answer a wait gets at a place. -/
  onInput : β → ι → Prop

section logic

variable (A : Assumption σ ι β)

/-- The step meets the assumptions about the place it is at. -/
def Allowed (w : World σ ι β) (l : Label ι ω) (_ : World σ ι β) : Prop :=
  match l with
  | .spawn _ => True
  | .step n i =>
    match (w.threads[n]?).map Thread.stack with
    | some (.run (.get site _) :: _) => A.onGet site w.shared
    | some (.run (.input site _) :: _) => A.onInput site i
    | _ => True

instance [∀ site s, Decidable (A.onGet site s)] [∀ site i, Decidable (A.onInput site i)]
    (w : World σ ι β) (l : Label ι ω) (w' : World σ ι β) : Decidable (Allowed A w l w') := by
  unfold Allowed
  split
  · infer_instance
  · split <;> infer_instance

/-- **Weakest precondition.** From `h`, the program respects the discipline at
every statement, ends in a way of holding that meets `post`, and leaves its
function in one that meets `onRet`. A loop body gives the lock back as it found
it; a deferred part does not leave early. -/
def Prog.wp : Prog σ ι β → Held → (Held → Prop) → (Held → Prop) → Prop
  | .skip, h, post, _ => post h
  | .ret, h, _, onRet => onRet h
  | .lock, h, post, _ => h = .none ∧ post .exclusive
  | .unlock, h, post, _ => h = .exclusive ∧ post .none
  | .rlock, h, post, _ => h = .none ∧ post .shared
  | .runlock, h, post, _ => h = .shared ∧ post .none
  | .act _, h, post, _ => post h
  | .seq p q, h, post, onRet => p.wp h (fun h' => q.wp h' post onRet) onRet
  | .get site k, h, post, onRet => ∀ s, A.onGet site s → (k s).wp h post onRet
  | .input site k, h, post, onRet => ∀ i, A.onInput site i → (k i).wp h post onRet
  | .loop _ body, h, post, onRet => post h ∧ body.wp h (fun h' => h' = h) onRet
  | .call body d, h, post, _ =>
    body.wp h (fun h' => d.wp h' post fun _ => False) (fun h' => d.wp h' post fun _ => False)

variable {A}

/-! ### Rules -/

section rules

variable {h : Held} {post onRet : Held → Prop}

@[simp] theorem Prog.wp_skip : (skip : Prog σ ι β).wp A h post onRet ↔ post h := Iff.rfl

@[simp] theorem Prog.wp_ret : (ret : Prog σ ι β).wp A h post onRet ↔ onRet h := Iff.rfl

@[simp] theorem Prog.wp_lock :
    (lock : Prog σ ι β).wp A h post onRet ↔ h = .none ∧ post .exclusive := Iff.rfl

@[simp] theorem Prog.wp_unlock :
    (unlock : Prog σ ι β).wp A h post onRet ↔ h = .exclusive ∧ post .none := Iff.rfl

@[simp] theorem Prog.wp_act (f : σ → σ) :
    (act f : Prog σ ι β).wp A h post onRet ↔ post h := Iff.rfl

@[simp] theorem Prog.wp_seq (p q : Prog σ ι β) :
    (seq p q).wp A h post onRet ↔ p.wp A h (fun h' => q.wp A h' post onRet) onRet := Iff.rfl

@[simp] theorem Prog.wp_get (site : β) (k : σ → Prog σ ι β) :
    (get site k).wp A h post onRet ↔ ∀ s, A.onGet site s → (k s).wp A h post onRet := Iff.rfl

@[simp] theorem Prog.wp_input (site : β) (k : ι → Prog σ ι β) :
    (input site k).wp A h post onRet ↔ ∀ i, A.onInput site i → (k i).wp A h post onRet :=
  Iff.rfl

@[simp] theorem Prog.wp_loop (cond : σ → Bool) (body : Prog σ ι β) :
    (loop cond body).wp A h post onRet ↔ post h ∧ body.wp A h (fun h' => h' = h) onRet := Iff.rfl

@[simp] theorem Prog.wp_block_nil : (block [] : Prog σ ι β).wp A h post onRet ↔ post h := Iff.rfl

@[simp] theorem Prog.wp_block_cons (p : Prog σ ι β) (ps : List (Prog σ ι β)) :
    (block (p :: ps)).wp A h post onRet ↔
      p.wp A h (fun h' => (block ps).wp A h' post onRet) onRet := Iff.rfl

end rules

theorem Prog.wp_mono (p : Prog σ ι β) {h : Held} {post post' onRet onRet' : Held → Prop}
    (hpost : ∀ h, post h → post' h) (hret : ∀ h, onRet h → onRet' h)
    (hp : p.wp A h post onRet) : p.wp A h post' onRet' := by
  induction p generalizing h post post' onRet onRet' with
  | skip => exact hpost _ hp
  | ret => exact hret _ hp
  | lock => exact ⟨hp.1, hpost _ hp.2⟩
  | unlock => exact ⟨hp.1, hpost _ hp.2⟩
  | rlock => exact ⟨hp.1, hpost _ hp.2⟩
  | runlock => exact ⟨hp.1, hpost _ hp.2⟩
  | act f => exact hpost _ hp
  | seq p q ihp ihq => exact ihp (fun _ hq => ihq hpost hret hq) hret hp
  | get site k ih => exact fun s hs => ih s hpost hret (hp s hs)
  | input site k ih => exact fun i hi => ih i hpost hret (hp i hi)
  | loop cond body ih => exact ⟨hpost _ hp.1, ih (fun _ => id) hret hp.2⟩
  | call body d ihb ihd =>
    exact ihb (fun _ hd => ihd hpost (fun _ => id) hd) (fun _ hd => ihd hpost (fun _ => id) hd) hp

variable (A)

/-- The preconditions of a stack: to go on with it, and to `ret` into it. -/
def conts : List (Frame σ ι β) → (Held → Prop) × (Held → Prop)
  | [] => (fun _ => True, fun _ => True)
  | .run p :: K => (fun h => p.wp A h (conts K).1 (conts K).2, (conts K).2)
  | .deferred d :: K =>
    (fun h => d.wp A h (conts K).1 fun _ => False, fun h => d.wp A h (conts K).1 fun _ => False)

/-- The thread meets the precondition of its stack. -/
def Thread.Ready (t : Thread σ ι β) : Prop := (conts A t.stack).1 t.held

variable {A}

/-- A deferred part with its precondition may also be run as a plain frame. -/
theorem conts_run_of_deferred {d : Prog σ ι β} {K : List (Frame σ ι β)} {h : Held}
    (hd : d.wp A h (conts A K).1 fun _ => False) : (conts A (.run d :: K)).1 h :=
  d.wp_mono (fun _ => id) (fun _ => False.elim) hd

theorem conts_unwind (K : List (Frame σ ι β)) {h : Held} (hK : (conts A K).2 h) :
    (conts A (unwind K)).1 h := by
  induction K with
  | nil => trivial
  | cons frame K ih =>
    cases frame with
    | run p => exact ih hK
    | deferred d => exact conts_run_of_deferred hK

/-- A thread that is ready respects the discipline. -/
theorem Thread.Ready.disciplined {t : Thread σ ι β} (ht : t.Ready A) : t.disciplined = true := by
  obtain ⟨held, stack⟩ := t
  unfold Thread.disciplined
  split
  case h_1 hstack => cases hstack; exact decide_eq_true ht.1
  case h_2 hstack => cases hstack; exact decide_eq_true ht.1
  case h_3 hstack => cases hstack; exact decide_eq_true ht.1
  case h_4 hstack => cases hstack; exact decide_eq_true ht.1
  case h_5 => rfl

/-- **Step.** A statement that meets the assumptions leaves its thread ready. -/
theorem Thread.Ready.step {free : Held → Bool} {i : ι} {s s' : σ} {t t' : Thread σ ι β}
    (ht : t.Ready A) (h : t.step free i s = some (s', t'))
    (hget : ∀ site k K, t.stack = .run (.get site k) :: K → A.onGet site s)
    (hinput : ∀ site k K, t.stack = .run (.input site k) :: K → A.onInput site i) :
    t'.Ready A := by
  obtain ⟨held, stack⟩ := t
  cases stack with
  | nil => cases h
  | cons frame K =>
    cases frame with
    | deferred d =>
      cases h
      exact conts_run_of_deferred ht
    | run p =>
      cases p with
      | skip => cases h; exact ht
      | ret => cases h; exact conts_unwind K ht
      | lock =>
        simp only [Thread.step] at h
        split at h <;> cases h
        exact ht.2
      | unlock =>
        simp only [Thread.step] at h
        split at h <;> cases h
        exact ht.2
      | rlock =>
        simp only [Thread.step] at h
        split at h <;> cases h
        exact ht.2
      | runlock =>
        simp only [Thread.step] at h
        split at h <;> cases h
        exact ht.2
      | act f => cases h; exact ht
      | seq p q => cases h; exact ht
      | get site k => cases h; exact ht s (hget site k K rfl)
      | input site k => cases h; exact ht i (hinput site k K rfl)
      | loop cond body =>
        simp only [Thread.step] at h
        split at h <;> cases h
        · -- the body ends as it began, so the loop may be entered again
          exact body.wp_mono (fun h' hh' => by rw [hh']; exact ht) (fun _ => id) ht.2
        · exact ht.1
      | call body d => cases h; exact ht

/-- **Run.** Where every program that may be started meets its weakest
precondition, every thread of every run respects the discipline. -/
theorem disciplined_of_run {program : ω → Prog σ ι β}
    (hprogram : ∀ op, (program op).wp A .none (fun _ => True) fun _ => True) {s : σ}
    {w : World σ ι β} (hrun : Run (World.step program) (Allowed A) ⟨s, []⟩ w) :
    ∀ t ∈ w.threads, t.disciplined = true := by
  suffices hready : ∀ t ∈ w.threads, t.Ready A from fun t ht => (hready t ht).disciplined
  refine hrun.invariant (P := fun w => ∀ t ∈ w.threads, t.Ready A) nofun ?_
  intro w l w' hw hallowed hstep
  cases l with
  | spawn op =>
    cases hstep
    intro t ht
    rcases List.mem_append.mp ht with ht | ht
    · exact hw t ht
    -- a new thread is ready by the hypothesis on its program
    · rw [List.mem_singleton.mp ht]
      exact hprogram op
  | step n i =>
    simp only [World.step] at hstep
    split at hstep
    case h_2 => cases hstep
    case h_1 t hn =>
    split at hstep
    case h_2 => cases hstep
    case h_1 s' t' ht' =>
    cases hstep
    simp only [Allowed, hn, Option.map_some] at hallowed
    intro u hu
    rcases List.mem_or_eq_of_mem_set hu with hu | rfl
    · exact hw u hu
    · refine (hw t (List.mem_of_getElem? hn)).step ht' ?_ ?_
      · intro site k K hK
        simpa only [hK] using hallowed
      · intro site k K hK
        simpa only [hK] using hallowed

end logic

end LockProgram
