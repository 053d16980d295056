import Lith.LexicalPath

/-!
# Relative paths seen from different directories

A relative path first climbs some steps with `..` and then descends.  Seen from
a directory that is not as deep as the climb, it ends where it would end from
the root; seen from a deeper one it keeps the names that the climb leaves.
-/

namespace Lith.LexicalPath.Alphabet

variable {α : Type*} [DecidableEq α] (A : Alphabet α)

theorem names_append_sep (base rest : List α) :
    A.names (base ++ A.sep :: rest) = A.names base ++ A.names rest := by
  have hfirst : A.firstName (A.sep :: rest) = [] := by
    simp [firstName, names_cons_sep]
  rw [names_append, hfirst, names_cons_sep, List.append_nil, List.tail_cons]
  conv_rhs => rw [names_eq_dropLast_last A base]
  rw [List.append_assoc, List.singleton_append]

theorem normalise_append_sep {base : List α} (hbase : A.isRooted base = true)
    (rest : List α) :
    A.normalise (base ++ A.sep :: rest) =
      ⟨true, A.walkAll true (A.normalise base).names (A.names rest)⟩ := by
  have hne : base ≠ [] := by
    rintro rfl
    simp [isRooted] at hbase
  simp only [normalise, A.isRooted_append hne, hbase, names_append_sep,
    walkAll_append]

theorem normalise_append_sep_nil {base : List α} (hbase : A.isRooted base = true) :
    A.normalise (base ++ [A.sep]) = A.normalise base := by
  rw [normalise_append_sep A hbase]
  simp only [normalise, hbase, names, List.splitOn_nil, walkAll_cons,
    walkAll_nil, walk_skip A (Or.inl rfl)]

theorem up_notMem_normalise {path : List α} (hpath : A.isRooted path = true) :
    A.up ∉ (A.normalise path).names := by
  simp only [normalise, hpath]
  exact A.up_notMem_walkAll_rooted List.not_mem_nil _

/-- The steps up that a list of names does not take back. -/
def ascent (names : List (List α)) : ℕ := (A.walkAll false [] names).count A.up

omit [DecidableEq α] in
theorem getLast?_take_ne_up {stack : List (List α)} (hstack : A.up ∉ stack)
    {k : ℕ} {top : List α} (htop : (stack.take k).getLast? = some top) :
    top ≠ A.up := by
  rintro rfl
  exact hstack (List.mem_of_mem_take (List.mem_of_getLast? htop))

/-- One name, walked in a relative path and behind any rooted directory. -/
theorem walk_climbed (name : List α) (k : ℕ) {rest : List (List α)}
    (hrest : A.up ∉ rest) :
    ∃ k' rest', A.up ∉ rest' ∧
      A.walk false (List.replicate k A.up ++ rest) name =
        List.replicate k' A.up ++ rest' ∧
      ∀ stack : List (List α), A.up ∉ stack →
        A.walk true (stack.take (stack.length - k) ++ rest) name =
          stack.take (stack.length - k') ++ rest' := by
  by_cases hskip : name = [] ∨ name = A.here
  · exact ⟨k, rest, hrest, walk_skip A hskip, fun _ _ => walk_skip A hskip⟩
  push Not at hskip
  by_cases hup : name = A.up
  · subst hup
    rcases List.eq_nil_or_concat rest with rfl | ⟨front, top, rfl⟩
    · refine ⟨k + 1, [], List.not_mem_nil, ?_, ?_⟩
      · rw [walk_up, List.append_nil, List.append_nil, List.getLast?_replicate]
        by_cases hk : k = 0
        · simp [hk]
        · simp [hk, List.replicate_succ']
      · intro stack hstack
        rw [walk_up, List.append_nil, List.append_nil]
        cases htop : (stack.take (stack.length - k)).getLast? with
        | none =>
            have hlen := congrArg List.length (List.getLast?_eq_none_iff.mp htop)
            simp only [List.length_take, List.length_nil] at hlen
            have hzero : stack.length - (k + 1) = 0 := by omega
            simp [hzero]
        | some top =>
            simp only [if_neg (A.getLast?_take_ne_up hstack htop)]
            rw [List.dropLast_eq_take, List.length_take, List.take_take]
            congr 1
            omega
    · have htop : top ≠ A.up := fun heq => hrest (by simp [heq])
      have hlast (stack : List (List α)) :
          (stack ++ (front ++ [top])).getLast? = some top := by simp
      refine ⟨k, front, fun hmem => hrest (by simp [hmem]), ?_, ?_⟩
      · rw [List.concat_eq_append, walk_up, hlast]
        simp [htop, ← List.append_assoc]
      · intro stack _
        rw [List.concat_eq_append, walk_up, hlast]
        simp [htop, ← List.append_assoc]
  · refine ⟨k, rest ++ [name], ?_, ?_, ?_⟩
    · simp [hrest, Ne.symm hup]
    · rw [walk_plain A hskip.1 hskip.2 hup, List.append_assoc]
    · intro stack _
      rw [walk_plain A hskip.1 hskip.2 hup, List.append_assoc]

theorem walkAll_climbed (names : List (List α)) (k : ℕ) {rest : List (List α)}
    (hrest : A.up ∉ rest) :
    ∃ k' rest', A.up ∉ rest' ∧
      A.walkAll false (List.replicate k A.up ++ rest) names =
        List.replicate k' A.up ++ rest' ∧
      ∀ stack : List (List α), A.up ∉ stack →
        A.walkAll true (stack.take (stack.length - k) ++ rest) names =
          stack.take (stack.length - k') ++ rest' := by
  induction names generalizing k rest with
  | nil => exact ⟨k, rest, hrest, rfl, fun _ _ => rfl⟩
  | cons name names ih =>
      obtain ⟨k₁, rest₁, hrest₁, hwalk, hrooted⟩ := A.walk_climbed name k hrest
      obtain ⟨k₂, rest₂, hrest₂, hwalk₂, hrooted₂⟩ := ih k₁ hrest₁
      refine ⟨k₂, rest₂, hrest₂, ?_, ?_⟩
      · rw [walkAll_cons, hwalk, hwalk₂]
      · intro stack hstack
        rw [walkAll_cons, hrooted stack hstack, hrooted₂ stack hstack]

/-- A relative path ends where it ends from the root exactly if it climbs at
least as far as the directory is deep. -/
theorem walkAll_eq_root_iff {stack : List (List α)} (hstack : A.up ∉ stack)
    (names : List (List α)) :
    A.walkAll true stack names = A.walkAll true [] names ↔
      stack.length ≤ A.ascent names := by
  obtain ⟨k, rest, hrest, hwalk, hrooted⟩ :=
    A.walkAll_climbed names 0 List.not_mem_nil
  have hascent : A.ascent names = k := by
    have hcount : rest.count A.up = 0 := List.count_eq_zero.mpr hrest
    unfold ascent
    simp only [List.replicate_zero, List.append_nil] at hwalk
    simp [hwalk, hcount]
  have hbelow := hrooted stack hstack
  have hroot := hrooted [] List.not_mem_nil
  simp only [Nat.sub_zero, List.take_length, List.append_nil] at hbelow hroot
  rw [hbelow, hroot, hascent, List.take_nil, List.nil_append,
    List.append_left_eq_self, List.take_eq_nil_iff]
  constructor
  · rintro (hlen | hnil)
    · omega
    · simp [hnil]
  · intro hlen
    exact Or.inl (by omega)

end Lith.LexicalPath.Alphabet
