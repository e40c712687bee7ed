import Mathlib.Data.List.Basic

/-!
# Terms over variables

Finite trees of function symbols with any number of arguments and variables at the leaves. Renaming
the variables changes the value of a term exactly as it changes what the variables stand for.
-/

namespace PDXearch.Lib

inductive Term (F V : Type) : Type
  | var (v : V)
  | app (f : F) (args : List (Term F V))

instance {F V : Type} [Inhabited V] : Inhabited (Term F V) := ⟨.var default⟩

namespace Term

variable {F V W X : Type}

mutual

/-- The variables of a term, from left to right. -/
def vars : Term F V → List V
  | var v => [v]
  | app _ args => varsList args

def varsList : List (Term F V) → List V
  | [] => []
  | t :: ts => t.vars ++ varsList ts

end

mutual

def map (f : V → W) : Term F V → Term F W
  | var v => var (f v)
  | app g args => app g (mapList f args)

def mapList (f : V → W) : List (Term F V) → List (Term F W)
  | [] => []
  | t :: ts => t.map f :: mapList f ts

end

mutual

/-- The value of a term when function symbols and variables have the given meaning. -/
def eval (interp : F → List X → X) (env : V → X) : Term F V → X
  | var v => env v
  | app g args => interp g (evalList interp env args)

def evalList (interp : F → List X → X) (env : V → X) : List (Term F V) → List X
  | [] => []
  | t :: ts => t.eval interp env :: evalList interp env ts

end

mutual

theorem eval_map (interp : F → List X → X) (env : W → X) (f : V → W) :
    ∀ t : Term F V, (t.map f).eval interp env = t.eval interp (fun v => env (f v))
  | var v => by rw [map, eval, eval]
  | app g args => by rw [map, eval, eval, evalList_mapList interp env f args]

theorem evalList_mapList (interp : F → List X → X) (env : W → X) (f : V → W) :
    ∀ ts : List (Term F V),
      evalList interp env (mapList f ts) = evalList interp (fun v => env (f v)) ts
  | [] => by rw [mapList, evalList, evalList]
  | t :: ts => by
    rw [mapList, evalList, evalList, eval_map interp env f t, evalList_mapList interp env f ts]

end

mutual

/-- A term depends on its variables only. -/
theorem eval_congr (interp : F → List X → X) {env env' : V → X} :
    ∀ t : Term F V, (∀ v ∈ t.vars, env v = env' v) → t.eval interp env = t.eval interp env'
  | var v, h => by
    rw [eval, eval]
    exact h v (by simp [vars])
  | app g args, h => by
    rw [eval, eval, evalList_congr interp args (by simpa [vars] using h)]

theorem evalList_congr (interp : F → List X → X) {env env' : V → X} :
    ∀ ts : List (Term F V), (∀ v ∈ varsList ts, env v = env' v) →
      evalList interp env ts = evalList interp env' ts
  | [], _ => by rw [evalList, evalList]
  | t :: ts, h => by
    simp only [varsList, List.mem_append] at h
    rw [evalList, evalList, eval_congr interp t fun v hv => h v (Or.inl hv),
      evalList_congr interp ts fun v hv => h v (Or.inr hv)]

end

mutual

/-- Two renamings of a term agree exactly when they agree on its variables. -/
theorem map_eq_map_iff {f g : V → W} :
    ∀ t : Term F V, t.map f = t.map g ↔ ∀ v ∈ t.vars, f v = g v
  | var v => by simp [map, vars]
  | app s args => by
    rw [map, map, vars, ← mapList_eq_mapList_iff args]
    exact ⟨fun h => (Term.app.inj h).2, fun h => by rw [h]⟩

theorem mapList_eq_mapList_iff {f g : V → W} :
    ∀ ts : List (Term F V), mapList f ts = mapList g ts ↔ ∀ v ∈ varsList ts, f v = g v
  | [] => by simp [mapList, varsList]
  | t :: ts => by
    rw [mapList, mapList, List.cons.injEq, map_eq_map_iff t, mapList_eq_mapList_iff ts, varsList]
    simp only [List.mem_append, or_imp, forall_and]

end

/-! ## Equality -/

variable [DecidableEq F] [DecidableEq V]

mutual

def decEq : (s t : Term F V) → Decidable (s = t)
  | var v, var w => decidable_of_iff (v = w) (by simp)
  | var _, app _ _ => isFalse (by simp)
  | app _ _, var _ => isFalse (by simp)
  | app f args, app g args' =>
    match decEqList args args' with
    | isTrue h => decidable_of_iff (f = g) (by simp [h])
    | isFalse h => isFalse (by simp [h])

def decEqList : (ss ts : List (Term F V)) → Decidable (ss = ts)
  | [], [] => isTrue rfl
  | [], _ :: _ => isFalse (by simp)
  | _ :: _, [] => isFalse (by simp)
  | s :: ss, t :: ts =>
    match decEq s t, decEqList ss ts with
    | isTrue h, isTrue h' => isTrue (by rw [h, h'])
    | isFalse h, _ => isFalse (by simp [h])
    | _, isFalse h => isFalse (by simp [h])

end

instance : DecidableEq (Term F V) := decEq

end Term

end PDXearch.Lib
