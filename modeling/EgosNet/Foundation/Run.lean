import Mathlib.Data.List.Infix
import Mathlib.Logic.Basic

/-!
# Runs of a guarded machine

A program is a partial step function `f : σ → ι → Option (σ × ω)`: in state `s`
the input `i` leads to a next state and an output, or the program stops.
Whatever is not determined by the program --- what a device does, what arrives
from the network --- is part of the input.  A *run* is a finite sequence of
steps, and the only thing this file adds to that is a **guard**
`C : σ → ι → Prop`, a condition every step has to meet in the state it is taken
from.

The guard is what lets one definition serve two purposes.  With the guard that
always holds, a run is any run of the program.  With a real guard it is a run
whose steps all meet a condition, and the question "under which condition does
the program keep `P`" becomes a statement about which guard makes `P` an
invariant.

* `Run.invariant`: what every step preserves holds at the end of every run.
* `Run.guarded_iff`: if a step keeps `P` *exactly* when it meets the guard, then
  `P` holds in every state of a run exactly when the run is guarded.
* `Run.simulate`: a step-by-step abstraction carries a run to an abstract run.
* `recorded`: the machine that remembers what it has put out, for guards that depend on the past.
* `Run.cons`, `Run.cases_head`: a run from its beginning.
* `Along`: what holds at every step of a run, for conditions that look ahead.
* `exec`, `run_of_exec`, `run_of_exec_guarded`: runs, computed.
-/

namespace EgosNet
namespace Foundation

variable {σ ι ω : Type*} {f : σ → ι → Option (σ × ω)} {C D : σ → ι → Prop} {s₀ s : σ}
  {is : List ι} {os : List ω}

/-- `Run f C s₀ is os s`: from `s₀` the inputs `is`, taken in order, lead to `s`
with the outputs `os`, and every step meets the guard `C` in the state it is
taken from. -/
inductive Run (f : σ → ι → Option (σ × ω)) (C : σ → ι → Prop) (s₀ : σ) :
    List ι → List ω → σ → Prop
  | nil : Run f C s₀ [] [] s₀
  | snoc {is : List ι} {os : List ω} {s s' : σ} {i : ι} {o : ω} :
      Run f C s₀ is os s → C s i → f s i = some (s', o) →
      Run f C s₀ (is ++ [i]) (os ++ [o]) s'

/-- The guard that every step meets. -/
def Free (_ : σ) (_ : ι) : Prop := True

/-- A stronger guard gives fewer runs. -/
theorem Run.mono (hCD : ∀ s i, C s i → D s i) (h : Run f C s₀ is os s) :
    Run f D s₀ is os s := by
  induction h with
  | nil => exact Run.nil
  | snoc _ hC hf ih => exact ih.snoc (hCD _ _ hC) hf

/-- Forgetting the guard. -/
theorem Run.free (h : Run f C s₀ is os s) : Run f Free s₀ is os s :=
  h.mono fun _ _ _ => trivial

/-- **An invariant of the outputs and the state holds at the end of every run**:
it holds at the start, and no step that meets the guard breaks it. -/
theorem Run.invariant {P : List ω → σ → Prop}
    (hstep : ∀ os s i s' o, P os s → C s i → f s i = some (s', o) → P (os ++ [o]) s')
    (h0 : P [] s₀) (h : Run f C s₀ is os s) : P os s := by
  induction h with
  | nil => exact h0
  | snoc _ hC hf ih => exact hstep _ _ _ _ _ ih hC hf

/-- Runs are determined by their inputs. -/
theorem Run.deterministic (h : Run f C s₀ is os s) :
    ∀ {os' : List ω} {t : σ}, Run f D s₀ is os' t → os = os' ∧ s = t := by
  induction h with
  | nil =>
    intro os' t ht
    generalize hnil : ([] : List ι) = js at ht
    cases ht with
    | nil => exact ⟨rfl, rfl⟩
    | snoc _ _ _ => simp at hnil
  | @snoc is os s s' i o _ _ hf ih =>
    intro os' t ht
    generalize hsnoc : is ++ [i] = js at ht
    cases ht with
    | nil => simp at hsnoc
    | @snoc js ps u u' j p hu _ hf' =>
      obtain ⟨rfl, hij⟩ := List.append_inj' hsnoc rfl
      obtain rfl : i = j := by simpa using hij
      obtain ⟨rfl, rfl⟩ := ih hu
      obtain ⟨rfl, rfl⟩ := Prod.mk.inj (Option.some.inj (hf.symm.trans hf'))
      exact ⟨rfl, rfl⟩

/-- **The exact guard.**  Suppose that, in the states that satisfy an invariant
`I`, a step from a state with `P` leads to a state with `P` exactly when it meets
the guard `C`.  Then `P` holds in every state of a run exactly when every step of
the run meets `C`. -/
theorem Run.guarded_iff {I P : σ → Prop}
    (hI : ∀ s i s' o, I s → f s i = some (s', o) → I s') (hI0 : I s₀) (hP0 : P s₀)
    (hstep : ∀ s i s' o, I s → P s → f s i = some (s', o) → (P s' ↔ C s i))
    (h : Run f Free s₀ is os s) :
    (∀ js ps t, js <+: is → Run f Free s₀ js ps t → P t) ↔ Run f C s₀ is os s := by
  induction h with
  | nil =>
    refine ⟨fun _ => Run.nil, fun _ js ps t hjs ht => ?_⟩
    obtain rfl := List.prefix_nil.mp hjs
    have hnil : Run f Free s₀ [] [] s₀ := Run.nil
    rwa [(Run.deterministic ht hnil).2]
  | @snoc is os s s' i o hs _ hf ih =>
    have hIs : I s := hs.invariant (P := fun _ s => I s)
      (fun _ s i s' o hs _ hf => hI s i s' o hs hf) hI0
    have hs' : Run f Free s₀ (is ++ [i]) (os ++ [o]) s' := hs.snoc trivial hf
    constructor
    · intro hall
      have hPs : P s := hall is os s (List.prefix_append is [i]) hs
      have hC : C s i := (hstep s i s' o hIs hPs hf).mp (hall _ _ s' List.prefix_rfl hs')
      have hbefore := ih.mp fun js ps t hjs =>
        hall js ps t (hjs.trans (List.prefix_append is [i]))
      exact hbefore.snoc hC hf
    · intro hrun js ps t hjs ht
      -- the guarded run ends with the very step `i`, so its beginning is guarded too
      generalize hsnoc : is ++ [i] = ks at hrun
      generalize os ++ [o] = ps' at hrun
      cases hrun with
      | nil => simp at hsnoc
      | @snoc ks qs u u' j q hu hC hf' =>
        obtain ⟨rfl, hij⟩ := List.append_inj' hsnoc rfl
        obtain rfl : i = j := by simpa using hij
        obtain ⟨rfl, rfl⟩ := Run.deterministic hs hu
        have hbefore := ih.mpr hu
        rcases List.prefix_concat_iff.mp hjs with rfl | hjs
        · obtain ⟨-, rfl⟩ := Run.deterministic ht hs'
          exact (hstep s i _ o hIs (hbefore is os s List.prefix_rfl hs) hf).mpr hC
        · exact hbefore js ps t hjs ht

/-! ## Abstraction -/

/-- **A simulation carries runs to runs.**  Every concrete step is matched by an
abstract step whose input `op o` is read off what the concrete step puts out. -/
theorem Run.simulate {β κ : Type*} {g : β → κ → Option (β × Unit)} {A : σ → β → Prop}
    {op : ω → κ} {b₀ : β} (h0 : A s₀ b₀)
    (hsim : ∀ s b i s' o, A s b → C s i → f s i = some (s', o) →
      ∃ b', g b (op o) = some (b', ()) ∧ A s' b')
    (h : Run f C s₀ is os s) : ∃ b us, Run g Free b₀ (os.map op) us b ∧ A s b := by
  induction h with
  | nil => exact ⟨b₀, [], Run.nil, h0⟩
  | @snoc is os s s' i o _ hC hf ih =>
    obtain ⟨b, us, hrun, hA⟩ := ih
    obtain ⟨b', hg, hA'⟩ := hsim s b i s' o hA hC hf
    refine ⟨b', us ++ [()], ?_, hA'⟩
    rw [List.map_append]
    exact hrun.snoc trivial hg

/-! ## Remembering the past -/

/-- The machine `f` with everything it has put out so far as part of its state. -/
def recorded (f : σ → ι → Option (σ × ω)) (s : σ × List ω) (i : ι) :
    Option ((σ × List ω) × ω) :=
  match f s.1 i with
  | none => none
  | some (s', o) => some ((s', s.2 ++ [o]), o)

theorem recorded_eq_some {s : σ × List ω} {i : ι} {s' : σ × List ω} {o : ω} :
    recorded f s i = some (s', o) ↔ f s.1 i = some (s'.1, o) ∧ s'.2 = s.2 ++ [o] := by
  unfold recorded
  split
  · rename_i hf
    simp [hf]
  · rename_i t p hf
    obtain ⟨t', past⟩ := s'
    rw [hf]
    constructor
    · intro h
      obtain ⟨h1, rfl⟩ := Prod.mk.inj (Option.some.inj h)
      obtain ⟨rfl, rfl⟩ := Prod.mk.inj h1
      exact ⟨rfl, rfl⟩
    · rintro ⟨h1, h2⟩
      obtain ⟨rfl, rfl⟩ := Prod.mk.inj (Option.some.inj h1)
      obtain rfl : past = _ := h2
      rfl

/-- What it remembers is what it has put out, and it runs as `f` does. -/
theorem Run.of_recorded {C : σ × List ω → ι → Prop} {t : σ × List ω}
    (h : Run (recorded f) C (s₀, []) is os t) : Run f Free s₀ is os t.1 ∧ t.2 = os := by
  induction h with
  | nil => exact ⟨Run.nil, rfl⟩
  | snoc _ _ hf ih =>
    obtain ⟨hf', hpast⟩ := recorded_eq_some.mp hf
    obtain ⟨hrun, hos⟩ := ih
    exact ⟨hrun.snoc trivial hf', by rw [hpast, hos]⟩

/-- The machine `f` with a record of its steps, at which it does not look. -/
def annotated {γ : Type*} (g : σ → γ → ι → ω → γ) (f : σ → ι → Option (σ × ω)) (s : σ × γ)
    (i : ι) : Option ((σ × γ) × ω) :=
  (f s.1 i).map fun (s', o) => ((s', g s.1 s.2 i o), o)

theorem annotated_eq_some {γ : Type*} {g : σ → γ → ι → ω → γ} {s s' : σ × γ} {i : ι} {o : ω} :
    annotated g f s i = some (s', o) ↔ f s.1 i = some (s'.1, o) ∧ s'.2 = g s.1 s.2 i o := by
  rw [annotated, Option.map_eq_some_iff]
  constructor
  · rintro ⟨⟨t, p⟩, hf, heq⟩
    obtain ⟨rfl, rfl⟩ := Prod.mk.inj heq
    exact ⟨hf, rfl⟩
  · rintro ⟨hf, hg⟩
    exact ⟨_, hf, congrArg (fun l => ((s'.1, l), o)) hg.symm⟩

/-! ## A run from its beginning -/

/-- A run may be extended at its beginning. -/
theorem Run.cons {i : ι} {o : ω} {t : σ} (hC : C s₀ i) (hf : f s₀ i = some (s, o))
    (h : Run f C s is os t) : Run f C s₀ (i :: is) (o :: os) t := by
  induction h with
  | nil => exact (Run.nil (f := f) (C := C)).snoc hC hf
  | snoc _ hC' hf' ih => exact ih.snoc hC' hf'

/-- A run is either empty or begins with a step. -/
theorem Run.cases_head (h : Run f C s₀ is os s) :
    (is = [] ∧ os = [] ∧ s₀ = s) ∨
      ∃ i js o ps t, is = i :: js ∧ os = o :: ps ∧ C s₀ i ∧ f s₀ i = some (t, o) ∧
        Run f C t js ps s := by
  induction h with
  | nil => exact Or.inl ⟨rfl, rfl, rfl⟩
  | snoc _ hC hf ih =>
    rcases ih with ⟨rfl, rfl, rfl⟩ | ⟨i, js, o, ps, t, rfl, rfl, hC', hf', hrest⟩
    · exact Or.inr ⟨_, [], _, [], _, rfl, rfl, hC, hf, Run.nil⟩
    · exact Or.inr ⟨i, _, o, _, t, rfl, rfl, hC', hf', hrest.snoc hC hf⟩

/-- The step that takes the first input. -/
theorem Run.of_cons {i : ι} (h : Run f C s₀ (i :: is) os s) :
    ∃ o ps t, os = o :: ps ∧ C s₀ i ∧ f s₀ i = some (t, o) ∧ Run f C t is ps s := by
  rcases h.cases_head with ⟨hnil, -⟩ | ⟨i', js, o, ps, t, hin, hout, hC, hf, hrest⟩
  · cases hnil
  · obtain ⟨rfl, rfl⟩ := List.cons.inj hin
    exact ⟨o, ps, t, hout, hC, hf, hrest⟩

/-! ## Conditions that look ahead -/

/-- At every step of the run, `C` holds of the state, of the input, and of the inputs that are still
to come. -/
def Along (f : σ → ι → Option (σ × ω)) (s₀ : σ) (is : List ι) (C : σ → ι → List ι → Prop) : Prop :=
  ∀ before i after os s, is = before ++ i :: after → Run f Free s₀ before os s → C s i after

theorem along_nil {C : σ → ι → List ι → Prop} : Along f s₀ [] C :=
  fun _ _ _ _ _ hnil _ => by simp at hnil

/-- The last step, and those before it. -/
theorem along_snoc {C : σ → ι → List ι → Prop} {i : ι} (h : Run f Free s₀ is os s) :
    Along f s₀ (is ++ [i]) C ↔
      Along f s₀ is (fun t j after => C t j (after ++ [i])) ∧ C s i [] := by
  constructor
  · intro hall
    refine ⟨fun before j after ps t his hrun => ?_, hall is i [] os s rfl h⟩
    exact hall before j (after ++ [i]) ps t (by rw [his, List.append_assoc]; rfl) hrun
  · rintro ⟨hbefore, hlast⟩ before j after ps t his hrun
    rcases after.eq_nil_or_concat' with rfl | ⟨after', i', rfl⟩
    · obtain ⟨rfl, hij⟩ := List.append_inj' his rfl
      obtain rfl : i = j := by simpa using hij
      obtain ⟨-, rfl⟩ := hrun.deterministic h
      exact hlast
    · rw [← List.cons_append, ← List.append_assoc] at his
      obtain ⟨rfl, hii⟩ := List.append_inj' his rfl
      obtain rfl : i = i' := by simpa using hii
      exact hbefore before j after' ps t rfl hrun

/-- The first step, and those after it. -/
theorem along_cons {C : σ → ι → List ι → Prop} {i : ι} :
    Along f s₀ (i :: is) C ↔ C s₀ i is ∧ ∀ r ∈ f s₀ i, Along f r.1 is C := by
  constructor
  · intro hall
    refine ⟨hall [] i is [] s₀ rfl Run.nil, fun r hr before j after ps t his hrun => ?_⟩
    exact hall (i :: before) j after (r.2 :: ps) t (by rw [his]; rfl) (Run.cons trivial hr hrun)
  · rintro ⟨hfirst, hrest⟩ before j after ps t his hrun
    cases before with
    | nil =>
      obtain ⟨rfl, rfl⟩ := List.cons.inj his
      obtain ⟨-, rfl⟩ := hrun.deterministic (Run.nil (f := f) (C := Free))
      exact hfirst
    | cons k before =>
      obtain ⟨rfl, htail⟩ := List.cons.inj his
      obtain ⟨o, qs, u, rfl, -, hf, hrun⟩ := hrun.of_cons
      exact hrest (u, o) hf before j after qs t htail hrun

/-- It can be checked by taking the steps. -/
instance {C : σ → ι → List ι → Prop} [∀ s i js, Decidable (C s i js)] (s : σ) (is : List ι) :
    Decidable (Along f s is C) :=
  match is with
  | [] => .isTrue along_nil
  | i :: is =>
    have : ∀ r : σ × ω, Decidable (Along f r.1 is C) := fun r => instDecidableAlong r.1 is
    decidable_of_iff (C s i is ∧ ∀ r ∈ f s i, Along f r.1 is C) along_cons.symm

/-! ## Executing a run -/

/-- The run on the inputs `is`, computed: the final state and the outputs. -/
def exec (f : σ → ι → Option (σ × ω)) (s : σ) : List ι → Option (σ × List ω)
  | [] => some (s, [])
  | i :: is =>
    match f s i with
    | none => none
    | some (s', o) =>
      match exec f s' is with
      | none => none
      | some (t, os) => some (t, o :: os)

/-- The first step, and then the others. -/
theorem exec_cons {i : ι} {o : ω} {t : σ} (hf : f s₀ i = some (s, o))
    (h : exec f s is = some (t, os)) : exec f s₀ (i :: is) = some (t, o :: os) := by
  rw [exec, hf]
  simp only [h]

/-- What was executed is a run. -/
theorem run_of_exec (h : exec f s₀ is = some (s, os)) : Run f Free s₀ is os s := by
  induction is generalizing s₀ os with
  | nil =>
    obtain ⟨rfl, rfl⟩ : s₀ = s ∧ [] = os := by simpa [exec] using h
    exact Run.nil
  | cons i is ih =>
    rw [exec] at h
    split at h
    · exact absurd h (by simp)
    · rename_i s' o hf
      split at h
      · exact absurd h (by simp)
      · rename_i t ps hrest
        obtain ⟨rfl, rfl⟩ : t = s ∧ o :: ps = os := by simpa using h
        exact Run.cons trivial hf (ih hrest)

/-- The step function that stops at a step which does not meet the guard. -/
def guarded (f : σ → ι → Option (σ × ω)) (C : σ → ι → Prop) [∀ s i, Decidable (C s i)] (s : σ)
    (i : ι) : Option (σ × ω) :=
  if C s i then f s i else none

/-- What was executed with the guard checked at every step is a guarded run. -/
theorem run_of_exec_guarded [∀ s i, Decidable (C s i)]
    (h : exec (guarded f C) s₀ is = some (s, os)) : Run f C s₀ is os s := by
  have hrun : Run (guarded f C) Free s₀ is os s := run_of_exec h
  clear h
  induction hrun with
  | nil => exact Run.nil
  | snoc _ _ hf ih =>
    unfold guarded at hf
    split_ifs at hf with hC
    exact ih.snoc hC hf

end Foundation
end EgosNet
