import EgosNet.Foundation.Run

/-!
# Machines made of parts

A computer is a program and its devices, and each of them is a machine of its own.  A step of the
whole is a step of some of the parts, at most one of each, and leaves the others alone; `OneStep`
says so of one part.  What the whole puts out says which steps of the parts it was.

* `Run.part`: a run of the whole is a run of each part, on the steps that were the part's.  So what
  is known of the runs of a part is known of the whole.
* `Run.mem_step`: every step of a run is taken from a state that can be reached.
-/

namespace EgosNet
namespace Foundation

variable {σ ι ω τ κ χ : Type*} {f : σ → ι → Option (σ × ω)} {g : τ → κ → Option (τ × χ)}
  {C : σ → ι → Prop} {s₀ s : σ} {is : List ι} {os : List ω}

/-- The part goes from `t` to `t'`: with the input and the output that are named, or not at all. -/
inductive OneStep (g : τ → κ → Option (τ × χ)) (t : τ) : τ → Option (κ × χ) → Prop
  | still : OneStep g t t none
  | moved {t' : τ} {k : κ} {x : χ} : g t k = some (t', x) → OneStep g t t' (some (k, x))

/-- **A part runs when the whole does.**  The part in the state `s` is `part s`, and `took o` is the
step that it took when the whole put out `o`. -/
theorem Run.part {part : σ → τ} {took : ω → Option (κ × χ)}
    (hstep : ∀ s i s' o, f s i = some (s', o) → OneStep g (part s) (part s') (took o))
    (h : Run f C s₀ is os s) :
    Run g Free (part s₀) ((os.filterMap took).map Prod.fst) ((os.filterMap took).map Prod.snd)
      (part s) := by
  induction h with
  | nil => exact Run.nil
  | @snoc is os s s' i o _ _ hf ih =>
    have hone := hstep s i s' o hf
    rw [List.filterMap_append, List.map_append, List.map_append]
    generalize htook : took o = x at hone
    generalize part s' = t' at hone
    cases hone with
    | still => simpa [htook] using ih
    | moved hg =>
      simp only [List.filterMap_cons, htook, List.filterMap_nil, List.map_cons, List.map_nil]
      exact ih.snoc trivial hg

/-- Every step of a run is taken from a state that can be reached. -/
theorem Run.mem_step {xs : List (ι × ω)} (h : Run f C s₀ (xs.map Prod.fst) (xs.map Prod.snd) s) :
    ∀ x ∈ xs, ∃ js ps t t', Run f C s₀ js ps t ∧ f t x.1 = some (t', x.2) := by
  induction xs generalizing s₀ with
  | nil => simp
  | cons y xs ih =>
    obtain ⟨o, ps, t, hout, hC, hf, hrest⟩ := h.of_cons
    obtain ⟨rfl, rfl⟩ := List.cons.inj hout
    intro x hx
    rcases List.mem_cons.mp hx with rfl | hx
    · exact ⟨[], [], s₀, t, Run.nil, hf⟩
    · obtain ⟨js, ps, u, u', hrun, hu⟩ := ih hrest x hx
      exact ⟨_, _, u, u', Run.cons hC hf hrun, hu⟩

end Foundation
end EgosNet
