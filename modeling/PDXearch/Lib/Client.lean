import Mathlib.Data.List.Basic
import Mathlib.Logic.Function.Basic
import Mathlib.Data.DFinsupp.WellFounded

/-!
# Programs that call a shared object

A `Client` is a program whose only effects are atomic calls to an object it shares with others;
what it does between two calls is pure. `Client.Runs` gives its runs against arbitrary answers,
`Client.eval` and `Client.run` one run against given answers.

A `Pool` holds the object's state and a family of clients. A step of the pool lets any unfinished
client make its next call, so that the runs of the pool are the interleavings of its clients at
their calls. Every client is a well-founded tree, hence a finite pool terminates under every
schedule (`Pool.wellFounded_step`).
-/

namespace PDXearch.Lib

/-- A program with result in `α` whose calls are `Op`, call `op` being answered in `Res op`. -/
inductive Client (Op : Type) (Res : Op → Type) (α : Type) : Type
  | done (a : α)
  | call (op : Op) (next : Res op → Client Op Res α)

namespace Client

variable {Op Op' : Type} {Res : Op → Type} {Res' : Op' → Type} {α β : Type}

def bind : Client Op Res α → (α → Client Op Res β) → Client Op Res β
  | done a, f => f a
  | call op next, f => call op fun r => (next r).bind f

instance : Monad (Client Op Res) where
  pure := done
  bind := bind

@[simp] theorem pure_eq (a : α) : (pure a : Client Op Res α) = done a := rfl

@[simp] theorem done_bind (a : α) (f : α → Client Op Res β) : (done a >>= f) = f a := rfl

@[simp] theorem call_bind (op : Op) (next : Res op → Client Op Res α) (f : α → Client Op Res β) :
    (call op next >>= f) = call op (fun r => next r >>= f) := rfl

theorem bind_assoc {γ : Type} (c : Client Op Res α) (f : α → Client Op Res β)
    (g : β → Client Op Res γ) : ((c >>= f) >>= g) = c >>= fun a => f a >>= g := by
  induction c with
  | done a => rfl
  | call op next ih =>
    rw [call_bind, call_bind, call_bind]
    exact congrArg (call op) (funext ih)

@[simp] theorem bind_done_right (c : Client Op Res α) : (c >>= done) = c := by
  induction c with
  | done a => rfl
  | call op next ih =>
    rw [call_bind]
    exact congrArg (call op) (funext ih)

/-- The program that makes one call and returns its answer. -/
def perform (op : Op) : Client Op Res (Res op) := call op done

@[simp] theorem perform_bind (op : Op) (f : Res op → Client Op Res β) :
    (perform op >>= f) = call op f := rfl

/-- The program that makes the given calls, one after the other. -/
def performAll : List Op → Client Op Res Unit
  | [] => done ()
  | op :: ops => call op fun _ => performAll ops

/-- Carry out every call by a program of another object. -/
def interp (handler : (op : Op) → Client Op' Res' (Res op)) :
    Client Op Res α → Client Op' Res' α
  | done a => done a
  | call op next => handler op >>= fun r => interp handler (next r)

theorem interp_bind (handler : (op : Op) → Client Op' Res' (Res op)) (p : Client Op Res α)
    (f : α → Client Op Res β) :
    (p >>= f).interp handler = p.interp handler >>= fun a => (f a).interp handler := by
  induction p with
  | done a => rfl
  | call op next ih =>
    show (handler op >>= fun r => (next r >>= f).interp handler) =
      ((handler op >>= fun r => (next r).interp handler) >>= fun a => (f a).interp handler)
    rw [bind_assoc]
    exact congrArg (handler op >>= ·) (funext ih)

/-! ## Runs against arbitrary answers -/

/-- A call together with its answer. -/
abbrev Event (Op : Type) (Res : Op → Type) : Type := (op : Op) × Res op

/-- `Runs p tr a`: answered as in `tr`, the program `p` makes the calls of `tr` and returns `a`. -/
inductive Runs : Client Op Res α → List (Event Op Res) → α → Prop
  | done (a : α) : Runs (done a) [] a
  | call {op : Op} {next : Res op → Client Op Res α} {r : Res op} {tr : List (Event Op Res)}
      {a : α} (h : Runs (next r) tr a) : Runs (call op next) (⟨op, r⟩ :: tr) a

theorem runs_done_iff {a b : α} {tr : List (Event Op Res)} :
    Runs (done a) tr b ↔ tr = [] ∧ b = a := by
  constructor
  · intro h
    cases h
    exact ⟨rfl, rfl⟩
  · rintro ⟨rfl, rfl⟩
    exact .done _

theorem runs_call_iff {op : Op} {next : Res op → Client Op Res α} {b : α}
    {tr : List (Event Op Res)} :
    Runs (call op next) tr b ↔ ∃ r tr', tr = ⟨op, r⟩ :: tr' ∧ Runs (next r) tr' b := by
  constructor
  · intro h
    cases h with
    | call h => exact ⟨_, _, rfl, h⟩
  · rintro ⟨r, tr', rfl, h⟩
    exact .call h

theorem runs_bind_iff {p : Client Op Res α} {f : α → Client Op Res β} {tr : List (Event Op Res)}
    {b : β} :
    Runs (p >>= f) tr b ↔
      ∃ a tr₁ tr₂, tr = tr₁ ++ tr₂ ∧ Runs p tr₁ a ∧ Runs (f a) tr₂ b := by
  induction p generalizing tr with
  | done a =>
    constructor
    · intro h
      exact ⟨a, [], tr, rfl, .done a, h⟩
    · rintro ⟨a', tr₁, tr₂, rfl, h₁, h₂⟩
      obtain ⟨rfl, rfl⟩ := runs_done_iff.mp h₁
      exact h₂
  | call op next ih =>
    rw [call_bind, runs_call_iff]
    constructor
    · rintro ⟨r, tr', rfl, h⟩
      obtain ⟨a, tr₁, tr₂, rfl, h₁, h₂⟩ := (ih r).mp h
      exact ⟨a, _ :: tr₁, tr₂, rfl, .call h₁, h₂⟩
    · rintro ⟨a, tr₁, tr₂, rfl, h₁, h₂⟩
      obtain ⟨r, tr', rfl, h⟩ := runs_call_iff.mp h₁
      exact ⟨r, tr' ++ tr₂, rfl, (ih r).mpr ⟨a, tr', tr₂, rfl, h, h₂⟩⟩

theorem Runs.map_fst_performAll {ops : List Op} {tr : List (Event Op Res)} {a : Unit}
    (h : Runs (performAll ops) tr a) : tr.map Sigma.fst = ops := by
  induction ops generalizing tr with
  | nil =>
    obtain ⟨rfl, -⟩ := runs_done_iff.mp h
    rfl
  | cons op ops ih =>
    obtain ⟨r, tr', rfl, hrest⟩ := runs_call_iff.mp h
    exact congrArg (op :: ·) (ih hrest)

/-- The run in which the `n`-th call is answered by `answer n`. -/
def run : Client Op Res α → (Nat → (op : Op) → Res op) → List (Event Op Res) × α
  | done a, _ => ([], a)
  | call op next, answer =>
    let r := answer 0 op
    let (tr, a) := run (next r) fun n => answer (n + 1)
    (⟨op, r⟩ :: tr, a)

theorem runs_run (p : Client Op Res α) (answer : Nat → (op : Op) → Res op) :
    Runs p (p.run answer).1 (p.run answer).2 := by
  induction p generalizing answer with
  | done a => exact .done a
  | call op next ih => exact .call (ih _ _)

/-- The result when a call is answered by what it asks for only. -/
def eval (answer : (op : Op) → Res op) : Client Op Res α → α
  | done a => a
  | call op next => eval answer (next (answer op))

theorem exists_runs_eval (p : Client Op Res α) (answer : (op : Op) → Res op) :
    ∃ tr, Runs p tr (p.eval answer) ∧ ∀ e ∈ tr, e.2 = answer e.1 := by
  induction p with
  | done a => exact ⟨[], .done a, by simp⟩
  | call op next ih =>
    obtain ⟨tr, h, hall⟩ := ih (answer op)
    refine ⟨⟨op, answer op⟩ :: tr, .call h, ?_⟩
    intro e he
    rcases List.mem_cons.mp he with rfl | he
    · rfl
    · exact hall e he

/-- The program alone with the object `obj` in state `s`: its calls, the object's last state and the
result. -/
def exec {σ : Type} (obj : (op : Op) → σ → Res op × σ) :
    Client Op Res α → σ → List (Event Op Res) × σ × α
  | done a, s => ([], s, a)
  | call op next, s =>
    let (tr, s', a) := exec obj (next (obj op s).1) (obj op s).2
    (⟨op, (obj op s).1⟩ :: tr, s', a)

theorem runs_exec {σ : Type} (obj : (op : Op) → σ → Res op × σ) (p : Client Op Res α) (s : σ) :
    Runs p (p.exec obj s).1 (p.exec obj s).2.2 := by
  induction p generalizing s with
  | done a => exact .done a
  | call op next ih => exact .call (ih _ _)

/-- Whatever the answers, the two programs make the same calls, and they return related results. -/
inductive Sim (R : α → β → Prop) : Client Op Res α → Client Op Res β → Prop
  | done {a : α} {b : β} (h : R a b) : Sim R (done a) (done b)
  | call {op : Op} {next : Res op → Client Op Res α} {next' : Res op → Client Op Res β}
      (h : ∀ r, Sim R (next r) (next' r)) : Sim R (call op next) (call op next')

namespace Sim

theorem refl {R : α → α → Prop} (hR : ∀ a, R a a) (p : Client Op Res α) : Sim R p p := by
  induction p with
  | done a => exact .done (hR a)
  | call op next ih => exact .call ih

variable {R : α → β → Prop} {p : Client Op Res α} {p' : Client Op Res β}

theorem mono {R' : α → β → Prop} (h : Sim R p p') (hR : ∀ a b, R a b → R' a b) : Sim R' p p' := by
  induction h with
  | done h => exact .done (hR _ _ h)
  | call _ ih => exact .call ih

theorem bind {γ δ : Type} {R' : γ → δ → Prop} {f : α → Client Op Res γ} {f' : β → Client Op Res δ}
    (h : Sim R p p') (hf : ∀ a b, R a b → Sim R' (f a) (f' b)) : Sim R' (p >>= f) (p' >>= f') := by
  induction h with
  | done h => exact hf _ _ h
  | call _ ih => exact .call ih

/-- Only the second program's result is worked on. -/
theorem bind_done {γ : Type} {R' : α → γ → Prop} {f : β → γ} (h : Sim R p p')
    (hR : ∀ a b, R a b → R' a (f b)) : Sim R' p (p' >>= fun b => Client.done (f b)) := by
  induction h with
  | done h => exact .done (hR _ _ h)
  | call _ ih => exact .call ih

theorem eq {p p' : Client Op Res α} (h : Sim Eq p p') : p = p' := by
  induction h with
  | done h => rw [h]
  | @call op next next' _ ih =>
    have hnext : next = next' := funext ih
    rw [hnext]

theorem interp {handler : (op : Op) → Client Op' Res' (Res op)} (h : Sim R p p') :
    Sim R (p.interp handler) (p'.interp handler) := by
  induction h with
  | done h => exact .done h
  | @call op next next' _ ih =>
    show Sim R (handler op >>= fun r => (next r).interp handler)
      (handler op >>= fun r => (next' r).interp handler)
    induction handler op with
    | done r => exact ih r
    | call op' next ih' => exact .call ih'

theorem eval (h : Sim R p p') (answer : (op : Op) → Res op) : R (p.eval answer) (p'.eval answer) := by
  induction h with
  | done h => exact h
  | call _ ih => exact ih _

/-- Alone with an object they leave it in the same state. -/
theorem exec {σ : Type} (h : Sim R p p') (obj : (op : Op) → σ → Res op × σ) (s : σ) :
    (p.exec obj s).1 = (p'.exec obj s).1 ∧ (p.exec obj s).2.1 = (p'.exec obj s).2.1 ∧
      R (p.exec obj s).2.2 (p'.exec obj s).2.2 := by
  induction h generalizing s with
  | done h => exact ⟨rfl, rfl, h⟩
  | call _ ih =>
    obtain ⟨htr, hs, hR⟩ := ih _ _
    exact ⟨congrArg _ htr, hs, hR⟩

end Sim

end Client

/-! ## Interleavings -/

/-- The state of a shared object and the programs that call it. -/
structure Pool (σ ι Op : Type) (Res : Op → Type) (α : Type) where
  shared : σ
  task : ι → Client Op Res α

namespace Pool

open Client

variable {σ ι Op : Type} {Res : Op → Type} {α : Type} [DecidableEq ι]

/-- One client makes its next call on the object `obj`. -/
inductive Step (obj : (op : Op) → σ → Res op × σ) :
    Pool σ ι Op Res α → ι × Event Op Res → Pool σ ι Op Res α → Prop
  | call {p : Pool σ ι Op Res α} {i : ι} {op : Op} {next : Res op → Client Op Res α}
      (h : p.task i = .call op next) :
      Step obj p (i, ⟨op, (obj op p.shared).1⟩)
        ⟨(obj op p.shared).2, Function.update p.task i (next (obj op p.shared).1)⟩

/-- A finite sequence of steps; the trace lists who called what, with the answers. -/
inductive Run (obj : (op : Op) → σ → Res op × σ) :
    Pool σ ι Op Res α → List (ι × Event Op Res) → Pool σ ι Op Res α → Prop
  | refl (p : Pool σ ι Op Res α) : Run obj p [] p
  | snoc {p q r : Pool σ ι Op Res α} {tr : List (ι × Event Op Res)} {e : ι × Event Op Res}
      (h : Run obj p tr q) (hs : Step obj q e r) : Run obj p (tr ++ [e]) r

variable {obj : (op : Op) → σ → Res op × σ}

theorem Run.trans {p q r : Pool σ ι Op Res α} {tr tr' : List (ι × Event Op Res)}
    (h : Run obj p tr q) (h' : Run obj q tr' r) : Run obj p (tr ++ tr') r := by
  induction h' with
  | refl => simpa using h
  | snoc _ hs ih => exact List.append_assoc tr _ _ ▸ .snoc ih hs

/-- One client runs to its end while the others wait. -/
theorem run_exec (p : Pool σ ι Op Res α) (i : ι) :
    Run obj p (((p.task i).exec obj p.shared).1.map fun e => (i, e))
      ⟨((p.task i).exec obj p.shared).2.1,
        Function.update p.task i (.done ((p.task i).exec obj p.shared).2.2)⟩ := by
  obtain ⟨s, task⟩ := p
  simp only
  generalize hc : task i = c
  induction c generalizing s task with
  | done a =>
    rw [exec, List.map_nil, ← hc, Function.update_eq_self]
    exact .refl _
  | call op next ih =>
    have hstep : Run obj ⟨s, task⟩ [(i, ⟨op, (obj op s).1⟩)]
        ⟨(obj op s).2, Function.update task i (next (obj op s).1)⟩ :=
      .snoc (.refl _) (.call hc)
    have hrest := ih (obj op s).1 (obj op s).2 (Function.update task i (next (obj op s).1))
      (Function.update_self _ _ _)
    rw [Function.update_idem] at hrest
    exact hstep.trans hrest

/-- The calls of client `i` in a trace. -/
def callsOf (i : ι) (tr : List (ι × Event Op Res)) : List (Event Op Res) :=
  tr.filterMap fun e => if e.1 = i then some e.2 else none

theorem callsOf_append (i : ι) (tr tr' : List (ι × Event Op Res)) :
    callsOf i (tr ++ tr') = callsOf i tr ++ callsOf i tr' :=
  List.filterMap_append

theorem Step.runs_task {p q : Pool σ ι Op Res α} {e : ι × Event Op Res} (h : Step obj p e q) (i : ι)
    {rest : List (Event Op Res)} {a : α} (hrest : (q.task i).Runs rest a) :
    (p.task i).Runs (callsOf i [e] ++ rest) a := by
  obtain ⟨hp⟩ := h
  rename_i j op next
  simp only at hrest
  by_cases hij : j = i
  · subst hij
    rw [Function.update_self] at hrest
    simpa [callsOf, hp] using Runs.call hrest
  · rw [Function.update_of_ne (Ne.symm hij)] at hrest
    simpa [callsOf, hij] using hrest

/-- What client `i` calls in a run of the pool is the beginning of a run of its own. -/
theorem Run.runs_task {p q : Pool σ ι Op Res α} {tr : List (ι × Event Op Res)} (h : Run obj p tr q)
    (i : ι) {rest : List (Event Op Res)} {a : α} (hrest : (q.task i).Runs rest a) :
    (p.task i).Runs (callsOf i tr ++ rest) a := by
  induction h generalizing rest with
  | refl => exact hrest
  | @snoc q r tr e _ hs ih =>
    rw [callsOf_append, List.append_assoc]
    exact ih (hs.runs_task i hrest)

/-- Every client has returned. -/
def Finished (p : Pool σ ι Op Res α) : Prop := ∀ i, ∃ a, p.task i = .done a

/-- The object's state after a run is that after the run's calls. -/
theorem Run.shared_eq {p q : Pool σ ι Op Res α} {tr : List (ι × Event Op Res)} (h : Run obj p tr q) :
    q.shared = (tr.map fun e => e.2.1).foldl (fun s op => (obj op s).2) p.shared := by
  induction h with
  | refl => rfl
  | snoc _ hs ih =>
    obtain ⟨hp⟩ := hs
    rw [List.map_append, List.foldl_append, ← ih]
    rfl

/-- One member of a list contributes. -/
theorem flatMap_ite_eq {β : Type} {is : List ι} (hnodup : is.Nodup) {i : ι} (hi : i ∈ is)
    (l : List β) : (is.flatMap fun j => if i = j then l else []) = l := by
  induction is with
  | nil => cases hi
  | cons j is ih =>
    obtain ⟨hj, hnodup⟩ := List.nodup_cons.mp hnodup
    rw [List.flatMap_cons]
    by_cases hij : i = j
    · subst hij
      have hnone : (is.flatMap fun j => if i = j then l else []) = [] := by
        rw [List.flatMap_eq_nil_iff]
        intro j' hmem
        refine if_neg ?_
        rintro rfl
        exact hj hmem
      rw [if_pos rfl, hnone, List.append_nil]
    · rw [if_neg hij, List.nil_append, ih hnodup ((List.mem_cons.mp hi).resolve_left hij)]

/-- A trace consists of the calls of the clients. -/
theorem perm_callsOf {is : List ι} (hnodup : is.Nodup) (tr : List (ι × Event Op Res))
    (hmem : ∀ e ∈ tr, e.1 ∈ is) : (tr.map Prod.snd).Perm (is.flatMap fun i => callsOf i tr) := by
  induction tr with
  | nil => simp [callsOf]
  | cons e tr ih =>
    have hcalls : ∀ i, callsOf i (e :: tr) = (if e.1 = i then [e.2] else []) ++ callsOf i tr := by
      intro i
      by_cases hi : e.1 = i <;> simp [callsOf, hi]
    have hperm := List.flatMap_append_perm is (fun i => if e.1 = i then [e.2] else []) fun i =>
      callsOf i tr
    rw [flatMap_ite_eq hnodup (hmem e List.mem_cons_self)] at hperm
    simp only [hcalls]
    exact ((ih fun e' he' => hmem e' (List.mem_cons_of_mem _ he')).cons e.2).trans hperm

/-- After a finished run of clients that make fixed calls, these are the calls that were made. -/
theorem Run.perm_performAll {is : List ι} (hnodup : is.Nodup) (hmem : ∀ i, i ∈ is) {shared : σ}
    {ops : ι → List Op} {q : Pool σ ι Op Res Unit} {tr : List (ι × Event Op Res)}
    (h : Run obj ⟨shared, fun i => performAll (ops i)⟩ tr q) (hfinished : q.Finished) :
    (tr.map fun e => e.2.1).Perm (is.flatMap ops) := by
  have hcalls : ∀ i, (callsOf i tr).map Sigma.fst = ops i := by
    intro i
    obtain ⟨a, ha⟩ := hfinished i
    have hruns := h.runs_task i (ha ▸ Runs.done a)
    rw [List.append_nil] at hruns
    exact hruns.map_fst_performAll
  have hperm := (perm_callsOf hnodup tr fun e _ => hmem e.1).map Sigma.fst
  rw [List.map_map, List.map_flatMap] at hperm
  simp only [hcalls] at hperm
  exact hperm

theorem exists_step {p : Pool σ ι Op Res α} (h : ¬ p.Finished) : ∃ e q, Step obj p e q := by
  obtain ⟨i, hi⟩ := not_forall.mp h
  cases hp : p.task i with
  | done a => exact absurd ⟨a, hp⟩ hi
  | call op next => exact ⟨_, _, .call hp⟩

/-- `c'` is what is left of `c` after an answer to its next call. -/
inductive Answered : Client Op Res α → Client Op Res α → Prop
  | mk {op : Op} {next : Res op → Client Op Res α} (r : Res op) : Answered (next r) (.call op next)

theorem wellFounded_answered : WellFounded (Answered : Client Op Res α → _ → Prop) := by
  refine ⟨fun c => ?_⟩
  induction c with
  | done a => exact ⟨_, fun c' h => by cases h⟩
  | call op next ih =>
    refine ⟨_, fun c' h => ?_⟩
    cases h with
    | mk r => exact ih r

/-- A pool of finitely many clients terminates under every schedule: a step replaces one client
by what is left of it and keeps the others. -/
theorem wellFounded_step [Finite ι] :
    WellFounded (fun q p : Pool σ ι Op Res α => ∃ e, Step obj p e q) := by
  have hwf : WellFounded (Pi.Lex (β := fun _ : ι => Client Op Res α) WellOrderingRel
      (fun {_} => Answered)) := Pi.Lex.wellFounded _ fun _ => wellFounded_answered
  refine Subrelation.wf ?_ (InvImage.wf Pool.task hwf)
  rintro q p ⟨e, hstep⟩
  obtain ⟨hp⟩ := hstep
  rename_i i op next
  refine ⟨i, fun j hj => ?_, ?_⟩
  · refine Function.update_of_ne ?_ _ _
    rintro rfl
    exact irrefl_of WellOrderingRel j hj
  · simp only [Function.update_self, hp]
    exact .mk _

/-- Every pool of finitely many clients can be run until all have returned. -/
theorem exists_run_finished [Finite ι] (obj : (op : Op) → σ → Res op × σ) (p : Pool σ ι Op Res α) :
    ∃ tr q, Run obj p tr q ∧ q.Finished := by
  have hwf : WellFounded (fun q p : Pool σ ι Op Res α => ∃ e, Step obj p e q) := wellFounded_step
  refine hwf.induction (C := fun p => ∃ tr q, Run obj p tr q ∧ q.Finished) p ?_
  intro p ih
  by_cases hfin : p.Finished
  · exact ⟨[], p, .refl p, hfin⟩
  · obtain ⟨e, q, hstep⟩ : ∃ e q, Step obj p e q := exists_step hfin
    obtain ⟨tr, r, hrun, hfin'⟩ := ih q ⟨e, hstep⟩
    exact ⟨[e] ++ tr, r, (Run.snoc (.refl p) hstep).trans hrun, hfin'⟩

end Pool

end PDXearch.Lib
