import Mathlib.Data.Finset.Card

/-!
# Tokens with one owner each

Resources that are taken and given back by threads, of which each has one at most
at a time.  The live ones are those that somebody has, each is had by one thread,
and a step of one thread, which takes a fresh one, gives back its own or does
neither, leaves it so.
-/

namespace Lith

variable {Thread Token : Type*}

structure Owned (live : Finset Token) (held : Thread → Option Token) : Prop where
  live_iff : ∀ token, token ∈ live ↔ ∃ thread, held thread = some token
  owner : ∀ first second token, held first = some token → held second = some token →
    first = second

/-- What a step does to the live tokens and to the one of the thread. -/
inductive TokenStep [DecidableEq Token] (live : Finset Token) (mine : Option Token) :
    Finset Token → Option Token → Prop where
  | keeps : TokenStep live mine live mine
  | takes (token : Token) (hfresh : token ∉ live) (hmine : mine = none) :
      TokenStep live mine (insert token live) (some token)
  | gives (token : Token) (hmine : mine = some token) :
      TokenStep live mine (live.erase token) none

namespace Owned

variable {live after : Finset Token} {held : Thread → Option Token} {thread : Thread}

theorem of_empty (hheld : ∀ thread, held thread = none) :
    Owned (∅ : Finset Token) held where
  live_iff := by simp [hheld]
  owner := by simp [hheld]

theorem eq_empty (howned : Owned live held) (hheld : ∀ thread, held thread = none) :
    live = ∅ := by
  apply Finset.eq_empty_of_forall_notMem
  intro token hlive
  obtain ⟨thread, hmine⟩ := (howned.live_iff token).mp hlive
  simp [hheld] at hmine

theorem live_of_held (howned : Owned live held) {token : Token}
    (hmine : held thread = some token) : token ∈ live :=
  (howned.live_iff token).mpr ⟨thread, hmine⟩

/-- There are no more live tokens than threads that may have one. -/
theorem card_le (howned : Owned live held) {owners : Finset Thread}
    (howners : ∀ thread token, held thread = some token → thread ∈ owners) :
    live.card ≤ owners.card := by
  choose owner howner using fun token : live => (howned.live_iff token).mp token.2
  have hmaps : ∀ token ∈ live.attach, owner token ∈ owners :=
    fun token _ => howners (owner token) token (howner token)
  have hinjective : Set.InjOn owner live.attach := by
    intro first _ second _ hsame
    have hfirst := howner first
    rw [hsame, howner second, Option.some.injEq] at hfirst
    exact Subtype.ext hfirst.symm
  calc
    live.card = live.attach.card := Finset.card_attach.symm
    _ ≤ owners.card := Finset.card_le_card_of_injOn owner hmaps hinjective

variable [DecidableEq Thread] [DecidableEq Token]

theorem takes (howned : Owned live held) {token : Token} (hfresh : token ∉ live)
    (hmine : held thread = none) :
    Owned (insert token live) (Function.update held thread (some token)) where
  live_iff := by
    intro other
    rw [Finset.mem_insert, howned.live_iff other]
    constructor
    · rintro (rfl | ⟨owner, howner⟩)
      · exact ⟨thread, Function.update_self ..⟩
      · refine ⟨owner, ?_⟩
        rwa [Function.update_of_ne]
        rintro rfl
        rw [hmine] at howner
        cases howner
    · rintro ⟨owner, howner⟩
      by_cases hsame : owner = thread
      · rw [hsame, Function.update_self, Option.some.injEq] at howner
        exact Or.inl howner.symm
      · rw [Function.update_of_ne hsame] at howner
        exact Or.inr ⟨owner, howner⟩
  owner := by
    have hnot (owner : Thread) (howner : held owner = some token) : False :=
      hfresh (howned.live_of_held howner)
    intro first second other hfirst hsecond
    by_cases hone : first = thread <;> by_cases htwo : second = thread
    · rw [hone, htwo]
    · rw [hone, Function.update_self, Option.some.injEq] at hfirst
      rw [Function.update_of_ne htwo, ← hfirst] at hsecond
      exact (hnot second hsecond).elim
    · rw [htwo, Function.update_self, Option.some.injEq] at hsecond
      rw [Function.update_of_ne hone, ← hsecond] at hfirst
      exact (hnot first hfirst).elim
    · rw [Function.update_of_ne hone] at hfirst
      rw [Function.update_of_ne htwo] at hsecond
      exact howned.owner first second other hfirst hsecond

theorem gives (howned : Owned live held) {token : Token}
    (hmine : held thread = some token) :
    Owned (live.erase token) (Function.update held thread none) where
  live_iff := by
    intro other
    rw [Finset.mem_erase, howned.live_iff other]
    constructor
    · rintro ⟨hother, owner, howner⟩
      refine ⟨owner, ?_⟩
      rwa [Function.update_of_ne]
      rintro rfl
      rw [hmine, Option.some.injEq] at howner
      exact hother howner.symm
    · rintro ⟨owner, howner⟩
      have hne : owner ≠ thread := by
        rintro rfl
        rw [Function.update_self] at howner
        cases howner
      rw [Function.update_of_ne hne] at howner
      refine ⟨?_, owner, howner⟩
      rintro rfl
      exact hne (howned.owner owner thread other howner hmine)
  owner := by
    intro first second other hfirst hsecond
    have hne (owner : Thread)
        (howner : Function.update held thread none owner = some other) :
        held owner = some other := by
      rwa [Function.update_of_ne] at howner
      rintro rfl
      rw [Function.update_self] at howner
      cases howner
    exact howned.owner first second other (hne first hfirst) (hne second hsecond)

theorem step (howned : Owned live held) {mine : Option Token}
    (hstep : TokenStep live (held thread) after mine) :
    Owned after (Function.update held thread mine) := by
  cases hstep with
  | keeps => rwa [Function.update_eq_self]
  | takes token hfresh hmine => exact howned.takes hfresh hmine
  | gives token hmine => exact howned.gives hmine

end Owned

end Lith
