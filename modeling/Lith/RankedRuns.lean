import Lith.TransitionSystem

/-!
# Runs that a rank bounds

If every step lowers a rank, a run from a state is no longer than the rank of that
state, some run ends where no step is possible, and whatever is known of such
states is known of the end of every run that cannot go on.
-/

namespace Lith

namespace TransitionSystem

variable {State Label : Type*} {system : TransitionSystem State Label}

inductive Run (system : TransitionSystem State Label) (first : State) :
    ℕ → State → Prop where
  | nil : Run system first 0 first
  | snoc {count : ℕ} {state after : State} (hrun : Run system first count state)
      (label : Label) (hstep : system.step state label after) :
      Run system first (count + 1) after

def Quiet (system : TransitionSystem State Label) (state : State) : Prop :=
  ∀ label after, ¬system.step state label after

/-- No run from `first` is longer than `bound`, and where runs end is `Good`. -/
structure Settles (system : TransitionSystem State Label) (first : State) (bound : ℕ)
    (Good : State → Prop) : Prop where
  bounded : ∀ count last, system.Run first count last → count ≤ bound
  ends : ∃ count last, system.Run first count last ∧ system.Quiet last
  good : ∀ count last, system.Run first count last → system.Quiet last → Good last

theorem Run.head {first second last : State} {count : ℕ} (label : Label)
    (hstep : system.step first label second) (hrun : system.Run second count last) :
    system.Run first (count + 1) last := by
  induction hrun with
  | nil => exact .snoc .nil label hstep
  | snoc _ next hnext ih => exact .snoc ih next hnext

theorem Run.invariant {P : State → Prop} {first last : State} {count : ℕ}
    (hrun : system.Run first count last) (hfirst : P first)
    (hstep : ∀ before label after, P before → system.step before label after →
      P after) : P last := by
  induction hrun with
  | nil => exact hfirst
  | snoc _ label h ih => exact hstep _ label _ ih h

theorem Run.reachable {first last : State} {count : ℕ}
    (hrun : system.Run first count last) (hfirst : system.Reachable first) :
    system.Reachable last :=
  hrun.invariant hfirst fun _ label _ hreach hstep => hreach.next label hstep

section Rank

variable {P : State → Prop} {rank : State → ℕ}

/-- What a run has used of the rank. -/
theorem Run.add_rank_le {first last : State} {count : ℕ}
    (hrun : system.Run first count last) (hfirst : P first)
    (hkeep : ∀ before label after, P before → system.step before label after → P after)
    (hlower : ∀ before label after, P before → system.step before label after →
      rank after < rank before) : count + rank last ≤ rank first := by
  induction hrun with
  | nil => simp
  | snoc hrun label hstep ih =>
      have hless := hlower _ label _ (hrun.invariant hfirst hkeep) hstep
      omega

theorem exists_run_quiet {first : State} (hfirst : P first)
    (hkeep : ∀ before label after, P before → system.step before label after → P after)
    (hlower : ∀ before label after, P before → system.step before label after →
      rank after < rank before) :
    ∃ count last, system.Run first count last ∧ system.Quiet last := by
  induction hrank : rank first using Nat.strong_induction_on generalizing first with
  | _ bound ih =>
      by_cases hquiet : system.Quiet first
      · exact ⟨0, first, .nil, hquiet⟩
      · simp only [Quiet, not_forall, not_not] at hquiet
        obtain ⟨label, second, hstep⟩ := hquiet
        have hless := hlower first label second hfirst hstep
        obtain ⟨count, last, hrun, hlast⟩ := ih (rank second) (hrank ▸ hless)
          (hkeep first label second hfirst hstep) rfl
        exact ⟨count + 1, last, hrun.head label hstep, hlast⟩

theorem settles_of_rank (rank : State → ℕ) {Good : State → Prop} {first : State}
    (hfirst : P first)
    (hkeep : ∀ before label after, P before → system.step before label after → P after)
    (hlower : ∀ before label after, P before → system.step before label after →
      rank after < rank before)
    (hgood : ∀ last, P last → system.Quiet last → Good last) :
    system.Settles first (rank first) Good where
  bounded := by
    intro count last hrun
    have hused := hrun.add_rank_le hfirst hkeep hlower
    omega
  ends := exists_run_quiet hfirst hkeep hlower
  good := fun _ last hrun hquiet => hgood last (hrun.invariant hfirst hkeep) hquiet

end Rank

end TransitionSystem

/-- A sum in which one term has been replaced. -/
theorem sum_replace {Index : Type*} [Fintype Index] [DecidableEq Index]
    {old new : Index → ℕ} {index : Index}
    (hothers : ∀ other, other ≠ index → new other = old other) :
    ∑ i, new i + old index = ∑ i, old i + new index := by
  have hrest : ∑ i ∈ Finset.univ.erase index, new i =
      ∑ i ∈ Finset.univ.erase index, old i :=
    Finset.sum_congr rfl fun i hi => hothers i (Finset.ne_of_mem_erase hi)
  have hnew := Finset.add_sum_erase Finset.univ new (Finset.mem_univ index)
  have hold := Finset.add_sum_erase Finset.univ old (Finset.mem_univ index)
  omega

end Lith
