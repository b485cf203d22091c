import KernelScope.Library.StepRun
import Mathlib.Data.Set.Basic

/-!
# Reading through a memory

A computation that reads its environment through a memory remembers what it has
read and does not look again.  If the environment changes between computations,
their results are those in one environment that never changes, where everything is
as it was when it was first read.
-/

namespace KernelScope.ReadThrough

open KernelScope.StepRun

variable {Key State Query A B : Type*} {Value : Key → Type*} {known : State → Set Key}

/-- The computation forgets nothing, and depends on the environment only in what it
newly remembers. -/
structure ReadsThrough (known : State → Set Key)
    (f : (∀ key, Value key) → State → A × State) : Prop where
  keeps : ∀ env s, known s ⊆ known (f env s).2
  reads : ∀ env env' s,
    (∀ key ∈ known (f env s).2, key ∉ known s → env' key = env key) → f env' s = f env s

/-! ## Composition -/

theorem readsThrough_pure (g : State → A) :
    ReadsThrough known fun (_ : ∀ key, Value key) s => (g s, s) where
  keeps _ _ := subset_rfl
  reads _ _ _ _ := rfl

theorem ReadsThrough.bind {f : (∀ key, Value key) → State → A × State}
    {g : A → (∀ key, Value key) → State → B × State} (hf : ReadsThrough known f)
    (hg : ∀ a, ReadsThrough known (g a)) :
    ReadsThrough known fun env s => g (f env s).1 env (f env s).2 where
  keeps env s := (hf.keeps env s).trans ((hg _).keeps env _)
  reads env env' s hagree := by
    have hfirst : f env' s = f env s := by
      apply hf.reads
      intro key hkey hnew
      exact hagree key ((hg _).keeps env _ hkey) hnew
    rw [hfirst]
    apply (hg _).reads
    intro key hkey hnew
    exact hagree key hkey fun hold => hnew (hf.keeps env s hold)

theorem ReadsThrough.map {f : (∀ key, Value key) → State → A × State}
    (hf : ReadsThrough known f) (h : A → B) :
    ReadsThrough known fun env s => (h (f env s).1, (f env s).2) :=
  hf.bind fun a => readsThrough_pure fun _ => h a

theorem ReadsThrough.ite (condition : State → Prop) [DecidablePred condition]
    {f g : (∀ key, Value key) → State → A × State} (hf : ReadsThrough known f)
    (hg : ReadsThrough known g) :
    ReadsThrough known fun env s => if condition s then f env s else g env s where
  keeps env s := by
    split
    · exact hf.keeps env s
    · exact hg.keeps env s
  reads env env' s hagree := by
    split at hagree
    next htrue =>
      rw [if_pos htrue, if_pos htrue]
      exact hf.reads env env' s hagree
    next hfalse =>
      rw [if_neg hfalse, if_neg hfalse]
      exact hg.reads env env' s hagree

/-! ## Changing environments -/

section Runs

variable (step : Query → (∀ key, Value key) → State → A × State)

/-- A query, asked in the environment of its time. -/
def exec (s : State) (asked : (∀ key, Value key) × Query) : State :=
  (step asked.2 asked.1 s).2

def answers : State → List ((∀ key, Value key) × Query) → List A
  | _, [] => []
  | s, asked :: history => (step asked.2 asked.1 s).1 :: answers (exec step s asked) history

/-- What a query reads first is as in `frozen`. -/
def FirstRead (known : State → Set Key) (frozen : ∀ key, Value key) (s : State)
    (asked : (∀ key, Value key) × Query) : Prop :=
  ∀ key ∈ known (exec step s asked), key ∉ known s → frozen key = asked.1 key

/-- The queries of a history, asked in one environment. -/
def always (env : ∀ key, Value key) (history : List ((∀ key, Value key) × Query)) :
    List ((∀ key, Value key) × Query) :=
  history.map fun asked => (env, asked.2)

variable {step} (hstep : ∀ query, ReadsThrough known (step query))

include hstep

/-- What is remembered is not looked up again. -/
theorem answers_always_congr {env env' : ∀ key, Value key} {s : State}
    (hagree : ∀ key, key ∉ known s → env' key = env key)
    (history : List ((∀ key, Value key) × Query)) :
    answers step s (always env' history) = answers step s (always env history) := by
  induction history generalizing s with
  | nil => rfl
  | cons asked history ih =>
      have hfirst : step asked.2 env' s = step asked.2 env s :=
        (hstep asked.2).reads env env' s fun key _ hnew => hagree key hnew
      have hrest : answers step (step asked.2 env s).2 (always env' history) =
          answers step (step asked.2 env s).2 (always env history) := by
        apply ih
        intro key hnew
        exact hagree key fun hold => hnew ((hstep asked.2).keeps env s hold)
      simp only [always, List.map_cons, answers, exec, hfirst]
      exact congrArg _ hrest

/-- The answers to a history of queries are those in one environment, in which
every key is as it was when it was first read. -/
theorem exists_frozen (env : ∀ key, Value key) (s : State)
    (history : List ((∀ key, Value key) × Query)) :
    ∃ frozen, Along (exec step) (FirstRead step known frozen) s history ∧
      answers step s history = answers step s (always frozen history) := by
  classical
  induction history generalizing s with
  | nil => exact ⟨env, trivial, rfl⟩
  | cons asked history ih =>
      obtain ⟨later, hlater, hanswers⟩ := ih (exec step s asked)
      -- what is remembered after the first query is taken from its environment
      let frozen : ∀ key, Value key := fun key =>
        if key ∈ known (exec step s asked) then asked.1 key else later key
      have hread : ∀ key ∈ known (exec step s asked), frozen key = asked.1 key :=
        fun key hkey => if_pos hkey
      have hunread : ∀ key, key ∉ known (exec step s asked) → frozen key = later key :=
        fun key hkey => if_neg hkey
      refine ⟨frozen, ⟨fun key hkey _ => hread key hkey, ?_⟩, ?_⟩
      · apply along_of_invariant (fun t => known (exec step s asked) ⊆ known t) _ _
          subset_rfl hlater
        · intro t next hsub _
          exact hsub.trans ((hstep next.2).keeps next.1 t)
        · intro t next hsub hfirst key hkey hnew
          rw [hunread key fun hold => hnew (hsub hold)]
          exact hfirst key hkey hnew
      · have hfirst : step asked.2 frozen s = step asked.2 asked.1 s :=
          (hstep asked.2).reads asked.1 frozen s fun key hkey _ => hread key hkey
        have hrest := answers_always_congr hstep hunread history
        simp only [always, List.map_cons, answers, exec, hfirst]
        rw [exec] at hanswers hrest
        exact congrArg _ (hanswers.trans hrest.symm)

end Runs

end KernelScope.ReadThrough
