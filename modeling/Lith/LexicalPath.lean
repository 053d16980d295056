import Mathlib.Tactic

/-!
# Lexical normalisation of paths

A path is a word over an alphabet with a separator and a dot.  Its names are
the pieces between separators; the empty name and `.` are dropped and `..`
removes the name before it, where the root is its own parent and a relative
path keeps the `..` it cannot resolve.  No file system is consulted.

The main result decides, for two words that are simply written one after the
other, whether the joined word still names something at or below the first
one.  Everything happens at the seam: the last name of the first word and the
first name of the second word melt into one.
-/

namespace Lith.LexicalPath

variable {α : Type*} [DecidableEq α]

structure Alphabet (α : Type*) where
  sep : α
  dot : α
  sep_ne_dot : sep ≠ dot

structure Location (α : Type*) where
  rooted : Bool
  names : List (List α)
  deriving DecidableEq

namespace Alphabet

variable (A : Alphabet α)

def here : List α := [A.dot]

def up : List α := [A.dot, A.dot]

def names (path : List α) : List (List α) := path.splitOn A.sep

def isRooted (path : List α) : Bool := path.head? = some A.sep

def walk (rooted : Bool) (stack : List (List α)) (name : List α) :
    List (List α) :=
  if name = [] ∨ name = A.here then stack
  else if name = A.up then
    match stack.getLast? with
    | none => if rooted then [] else [A.up]
    | some top => if top = A.up then stack ++ [A.up] else stack.dropLast
  else stack ++ [name]

def walkAll (rooted : Bool) (stack : List (List α))
    (names : List (List α)) : List (List α) :=
  names.foldl (A.walk rooted) stack

def normalise (path : List α) : Location α where
  rooted := A.isRooted path
  names := A.walkAll (A.isRooted path) [] (A.names path)

/-- The second location is the first one or lies below it. -/
def Within (base inner : Location α) : Prop :=
  inner.rooted = base.rooted ∧ base.names <+: inner.names ∧
    A.up ∉ inner.names.drop base.names.length

instance (base inner : Location α) : Decidable (A.Within base inner) :=
  inferInstanceAs (Decidable (_ ∧ _ ∧ _))

omit [DecidableEq α] in
theorem within_of_append {base inner : Location α} (rest : List (List α))
    (hrooted : inner.rooted = base.rooted)
    (hnames : inner.names = base.names ++ rest) (hup : A.up ∉ rest) :
    A.Within base inner := by
  refine ⟨hrooted, ?_, ?_⟩
  · rw [hnames]
    exact List.prefix_append _ _
  · simpa [hnames] using hup

/-! ## Walking along names -/

def plain (names : List (List α)) : List (List α) :=
  names.filter fun name => name ≠ [] ∧ name ≠ A.here

theorem walk_skip {rooted : Bool} {stack : List (List α)} {name : List α}
    (hskip : name = [] ∨ name = A.here) : A.walk rooted stack name = stack := by
  simp [walk, hskip]

theorem walk_plain {rooted : Bool} {stack : List (List α)} {name : List α}
    (hempty : name ≠ []) (hhere : name ≠ A.here) (hup : name ≠ A.up) :
    A.walk rooted stack name = stack ++ [name] := by
  simp [walk, hempty, hhere, hup]

theorem walk_up (rooted : Bool) (stack : List (List α)) :
    A.walk rooted stack A.up =
      match stack.getLast? with
      | none => if rooted then [] else [A.up]
      | some top => if top = A.up then stack ++ [A.up] else stack.dropLast := by
  simp [walk, up, here]

theorem walkAll_append (rooted : Bool) (stack : List (List α))
    (before after : List (List α)) :
    A.walkAll rooted stack (before ++ after) =
      A.walkAll rooted (A.walkAll rooted stack before) after := by
  simp [walkAll]

@[simp] theorem walkAll_nil (rooted : Bool) (stack : List (List α)) :
    A.walkAll rooted stack [] = stack := rfl

@[simp] theorem walkAll_cons (rooted : Bool) (stack : List (List α))
    (name : List α) (rest : List (List α)) :
    A.walkAll rooted stack (name :: rest) =
      A.walkAll rooted (A.walk rooted stack name) rest := rfl

theorem walkAll_plain (rooted : Bool) (stack : List (List α))
    {names : List (List α)} (hup : A.up ∉ names) :
    A.walkAll rooted stack names = stack ++ A.plain names := by
  induction names generalizing stack with
  | nil => simp [plain]
  | cons name rest ih =>
      have hrest : A.up ∉ rest := fun h => hup (List.mem_cons_of_mem _ h)
      rw [walkAll_cons, ih _ hrest]
      by_cases hskip : name = [] ∨ name = A.here
      · rw [walk_skip A hskip]
        rcases hskip with hskip | hskip <;> simp [plain, hskip]
      · push Not at hskip
        have hname : name ≠ A.up := by
          rintro rfl
          exact hup List.mem_cons_self
        rw [walk_plain A hskip.1 hskip.2 hname]
        simp [plain, hskip.1, hskip.2]

theorem up_notMem_plain {names : List (List α)} (hup : A.up ∉ names) :
    A.up ∉ A.plain names :=
  fun h => hup (List.mem_of_mem_filter h)

/-! ## The seam of two words -/

def lastName (path : List α) : List α := (A.names path).getLastD []

def firstName (path : List α) : List α := (A.names path).headD []

def parentNames (path : List α) : List (List α) :=
  A.walkAll (A.isRooted path) [] (A.names path).dropLast

theorem names_ne_nil (path : List α) : A.names path ≠ [] :=
  List.splitOn_ne_nil _ _

theorem names_eq_first_tail (path : List α) :
    A.names path = A.firstName path :: (A.names path).tail := by
  unfold firstName
  cases hnames : A.names path with
  | nil => exact absurd hnames (A.names_ne_nil path)
  | cons name rest => rfl

theorem names_eq_dropLast_last (path : List α) :
    A.names path = (A.names path).dropLast ++ [A.lastName path] := by
  unfold lastName
  rw [List.getLastD_eq_getLast?,
    List.getLast?_eq_some_getLast (A.names_ne_nil path), Option.getD_some,
    List.dropLast_concat_getLast]

theorem names_cons_sep (rest : List α) :
    A.names (A.sep :: rest) = [] :: A.names rest := by
  simp [names, List.splitOn_cons_eq_if_modifyHead]

theorem names_cons_letter {c : α} (hc : c ≠ A.sep) (rest : List α) :
    A.names (c :: rest) =
      (c :: A.firstName rest) :: (A.names rest).tail := by
  have hsplit : A.names (c :: rest) =
      List.modifyHead (List.cons c) (A.names rest) := by
    simp [names, List.splitOn_cons_eq_if_modifyHead, hc]
  rw [hsplit, names_eq_first_tail]
  rfl

/-- Writing one word after another melts the two names at the seam. -/
theorem names_append (base rest : List α) :
    A.names (base ++ rest) =
      (A.names base).dropLast ++
        (A.lastName base ++ A.firstName rest) :: (A.names rest).tail := by
  induction base with
  | nil =>
      have hnil : A.names [] = [[]] := by simp [names]
      simpa [lastName, hnil] using A.names_eq_first_tail rest
  | cons c base ih =>
      by_cases hc : c = A.sep
      · subst hc
        have hlast : A.lastName (A.sep :: base) = A.lastName base := by
          unfold lastName
          rw [names_cons_sep]
          cases hnames : A.names base with
          | nil => exact absurd hnames (A.names_ne_nil base)
          | cons name others => rfl
        rw [List.cons_append, names_cons_sep, ih, names_cons_sep, hlast,
          List.dropLast_cons_of_ne_nil (A.names_ne_nil base),
          List.cons_append]
      · rw [List.cons_append, names_cons_letter A hc, names_cons_letter A hc]
        have hfirst : A.firstName (base ++ rest) ::
            (A.names (base ++ rest)).tail =
              (A.names base).dropLast ++
                (A.lastName base ++ A.firstName rest) ::
                  (A.names rest).tail := by
          rw [← names_eq_first_tail, ih]
        cases htail : (A.names base).tail with
        | nil =>
            have hnames : A.names base = [A.firstName base] := by
              rw [names_eq_first_tail, htail]
            have hlast : A.lastName base = A.firstName base := by
              unfold lastName
              rw [hnames]
              rfl
            have hlastc : A.lastName (c :: base) = c :: A.firstName base := by
              unfold lastName
              rw [names_cons_letter A hc, htail]
              rfl
            rw [hnames, hlast] at hfirst
            simp only [List.dropLast_singleton, List.nil_append,
              List.cons.injEq] at hfirst
            rw [hlastc, hfirst.1, hfirst.2]
            rfl
        | cons second others =>
            have hnames : A.names base = A.firstName base :: second :: others := by
              rw [names_eq_first_tail, htail]
            have hlastc : A.lastName (c :: base) = A.lastName base := by
              unfold lastName
              rw [names_cons_letter A hc, htail, hnames]
              rfl
            rw [hnames, List.dropLast_cons_cons, List.cons_append,
              List.cons.injEq] at hfirst
            rw [hlastc, hfirst.1, hfirst.2, List.dropLast_cons_cons,
              List.cons_append]

theorem firstName_isPrefix (path : List α) : A.firstName path <+: path := by
  induction path with
  | nil => simp [firstName, names]
  | cons c rest ih =>
      by_cases hc : c = A.sep
      · subst hc
        simp [firstName, names_cons_sep]
      · unfold firstName
        rw [names_cons_letter A hc]
        exact List.cons_prefix_cons.mpr ⟨rfl, ih⟩

theorem isInfix_of_mem_names {path name : List α}
    (hmem : name ∈ A.names path) : name <:+: path := by
  induction path generalizing name with
  | nil => simp_all [names]
  | cons c rest ih =>
      by_cases hc : c = A.sep
      · subst hc
        rw [names_cons_sep, List.mem_cons] at hmem
        rcases hmem with rfl | hmem
        · exact List.nil_infix
        · exact (ih hmem).trans (List.suffix_cons _ _).isInfix
      · rw [names_cons_letter A hc, List.mem_cons] at hmem
        rcases hmem with rfl | hmem
        · exact (List.cons_prefix_cons.mpr ⟨rfl, A.firstName_isPrefix rest⟩).isInfix
        · exact (ih (List.mem_of_mem_tail hmem)).trans
            (List.suffix_cons _ _).isInfix

theorem firstName_eq_nil_iff (path : List α) :
    A.firstName path = [] ↔ path = [] ∨ A.isRooted path = true := by
  cases path with
  | nil => simp [firstName, names]
  | cons c rest =>
      by_cases hc : c = A.sep
      · subst hc
        simp [firstName, names_cons_sep, isRooted]
      · have hfirst : A.firstName (c :: rest) = c :: A.firstName rest := by
          unfold firstName
          rw [names_cons_letter A hc]
          rfl
        simp [hfirst, isRooted, hc]

theorem isRooted_append {base : List α} (hbase : base ≠ []) (rest : List α) :
    A.isRooted (base ++ rest) = A.isRooted base := by
  obtain ⟨c, others, rfl⟩ := List.exists_cons_of_ne_nil hbase
  simp [isRooted]

theorem up_notMem_walkAll_rooted {stack : List (List α)}
    (hstack : A.up ∉ stack) (names : List (List α)) :
    A.up ∉ A.walkAll true stack names := by
  induction names generalizing stack with
  | nil => simpa using hstack
  | cons name rest ih =>
      rw [walkAll_cons]
      apply ih
      by_cases hskip : name = [] ∨ name = A.here
      · rwa [walk_skip A hskip]
      · push Not at hskip
        by_cases hup : name = A.up
        · subst hup
          rw [walk_up]
          cases hlast : stack.getLast? with
          | none => simp
          | some top =>
              have htop : top ≠ A.up := by
                rintro rfl
                exact hstack (List.mem_of_getLast? hlast)
              simp only [if_neg htop]
              exact fun h => hstack (List.mem_of_mem_dropLast h)
        · rw [walk_plain A hskip.1 hskip.2 hup]
          simp [hstack, Ne.symm hup]

/-! ## When a joined word stays below its first part -/

/-- Some real name stands at the end of the directory, so that `..` can take
it away. -/
def endsInName (stack : List (List α)) : Bool :=
  stack.getLast?.any (· ≠ A.up)

/-- The `..` that arises from two melted dots climbs out of the directory, and
the rest of the path walks straight back into it. -/
def climbsBack (base rest : List α) : Bool :=
  (A.isRooted base && (A.parentNames base).isEmpty) ||
    (A.endsInName (A.parentNames base) &&
      (A.plain (A.names rest).tail).head? = (A.parentNames base).getLast?)

/-- What the last name of `base` and the first name of `rest` must look like
for `base ++ rest` to stay below `base`. -/
def SeamSafe (base rest : List α) : Prop :=
  if A.firstName rest = [] then rest = [] ∨ base ≠ []
  else if A.lastName base = [] then True
  else if A.lastName base = A.here then
    A.firstName rest = A.here → A.climbsBack base rest = true
  else if A.lastName base = A.up then
    A.isRooted base = true ∨ A.endsInName (A.parentNames base) = true
  else False

instance (base rest : List α) : Decidable (A.SeamSafe base rest) :=
  inferInstanceAs (Decidable (if A.firstName rest = [] then _ else
    if A.lastName base = [] then _ else if A.lastName base = A.here then _ else
    if A.lastName base = A.up then _ else _))

theorem normalise_names (path : List α) :
    (A.normalise path).names =
      A.walk (A.isRooted path) (A.parentNames path) (A.lastName path) := by
  change A.walkAll _ [] (A.names path) = _
  rw [names_eq_dropLast_last, walkAll_append]
  rfl

theorem normalise_append_names {base rest : List α} (hbase : base ≠ [])
    (hup : A.up ∉ A.names rest) :
    (A.normalise (base ++ rest)).names =
      A.walk (A.isRooted base) (A.parentNames base)
          (A.lastName base ++ A.firstName rest) ++
        A.plain (A.names rest).tail := by
  have htail : A.up ∉ (A.names rest).tail :=
    fun h => hup (List.mem_of_mem_tail h)
  change A.walkAll _ [] (A.names (base ++ rest)) = _
  rw [isRooted_append A hbase, names_append, walkAll_append, walkAll_cons,
    walkAll_plain A _ _ htail]
  rfl

theorem within_append_of_first_eq_nil {base rest : List α}
    (hbase : base ≠ []) (hup : A.up ∉ A.names rest)
    (hfirst : A.firstName rest = []) :
    A.Within (A.normalise base) (A.normalise (base ++ rest)) := by
  have htail : A.up ∉ (A.names rest).tail :=
    fun h => hup (List.mem_of_mem_tail h)
  apply within_of_append A _ (isRooted_append A hbase rest) _
    (A.up_notMem_plain htail)
  rw [normalise_append_names A hbase hup, hfirst, List.append_nil,
    normalise_names]

theorem within_append_of_parent {base rest : List α}
    (below : List (List α)) (hbase : base ≠ []) (hup : A.up ∉ A.names rest)
    (hseam : A.walk (A.isRooted base) (A.parentNames base)
      (A.lastName base ++ A.firstName rest) =
        (A.normalise base).names ++ below)
    (hbelow : A.up ∉ below) :
    A.Within (A.normalise base) (A.normalise (base ++ rest)) := by
  have htail : A.up ∉ (A.names rest).tail :=
    fun h => hup (List.mem_of_mem_tail h)
  refine within_of_append A (below ++ A.plain (A.names rest).tail)
    (isRooted_append A hbase rest) ?_ ?_
  · rw [normalise_append_names A hbase hup, hseam, List.append_assoc]
  · rw [List.mem_append]
    rintro (h | h)
    · exact hbelow h
    · exact A.up_notMem_plain htail h

theorem not_within_append_of_longer {base rest : List α}
    (stack : List (List α)) (name : List α)
    (hbase : base ≠ []) (hup : A.up ∉ A.names rest)
    (hfirst : A.firstName rest ≠ [])
    (hnames : (A.normalise base).names = stack ++ [name])
    (hseam : A.walk (A.isRooted base) (A.parentNames base)
      (A.lastName base ++ A.firstName rest) =
        stack ++ [name ++ A.firstName rest]) :
    ¬A.Within (A.normalise base) (A.normalise (base ++ rest)) := by
  rintro ⟨-, hprefix, -⟩
  rw [hnames, normalise_append_names A hbase hup, hseam,
    List.append_assoc, List.prefix_append_right_inj,
    List.singleton_append, List.cons_prefix_cons] at hprefix
  exact hfirst (List.self_eq_append_right.mp hprefix.1)

theorem within_append_here_here_iff {base rest : List α}
    (hbase : base ≠ []) (hup : A.up ∉ A.names rest)
    (hlast : A.lastName base = A.here) (hfirst : A.firstName rest = A.here) :
    A.Within (A.normalise base) (A.normalise (base ++ rest)) ↔
      A.climbsBack base rest = true := by
  have htail : A.up ∉ (A.names rest).tail :=
    fun h => hup (List.mem_of_mem_tail h)
  have hnames : (A.normalise base).names = A.parentNames base := by
    rw [normalise_names, hlast, walk_skip A (Or.inr rfl)]
  have hmelt : A.here ++ A.here = A.up := rfl
  have hrooted := A.isRooted_append hbase rest
  unfold Within climbsBack endsInName
  rw [normalise_append_names A hbase hup, hnames, hlast, hfirst, hmelt, walk_up]
  change A.isRooted (base ++ rest) = A.isRooted base ∧ _ ↔ _
  simp only [hrooted, true_and]
  cases htop : (A.parentNames base).getLast? with
  | none =>
      have hempty : A.parentNames base = [] := List.getLast?_eq_none_iff.mp htop
      cases A.isRooted base with
      | true => simpa [hempty] using A.up_notMem_plain htail
      | false => simp [hempty]
  | some top =>
      obtain ⟨stack, hstack⟩ := List.getLast?_eq_some_iff.mp htop
      by_cases hreal : top = A.up
      · simp [hstack, hreal]
      · have hdrop : A.up ∉ (A.plain (A.names rest).tail).tail :=
          fun h => A.up_notMem_plain htail (List.mem_of_mem_tail h)
        have hhead : [top] <+: A.plain (A.names rest).tail ↔
            (A.plain (A.names rest).tail).head? = some top := by
          cases A.plain (A.names rest).tail with
          | nil => simp
          | cons name others => simp [List.cons_prefix_cons, eq_comm]
        have hlen : (stack ++ A.plain (A.names rest).tail).drop
            (stack.length + 1) = (A.plain (A.names rest).tail).tail := by
          rw [← List.drop_drop, List.drop_left, List.drop_one]
        simp [hstack, hreal, List.prefix_append_right_inj, hhead, hlen, hdrop]

theorem within_append_up_iff {base rest : List α}
    (hbase : base ≠ []) (hup : A.up ∉ A.names rest)
    (hfirst : A.firstName rest ≠ []) (hlast : A.lastName base = A.up) :
    A.Within (A.normalise base) (A.normalise (base ++ rest)) ↔
      A.isRooted base = true ∨ A.endsInName (A.parentNames base) = true := by
  have hlong : A.up ++ A.firstName rest ≠ A.up := by
    intro h
    exact hfirst (List.append_right_eq_self.mp h)
  have hseam : A.walk (A.isRooted base) (A.parentNames base)
      (A.lastName base ++ A.firstName rest) =
        A.parentNames base ++ [A.up ++ A.firstName rest] := by
    rw [hlast]
    apply walk_plain A _ _ hlong
    · simp [up]
    · simp [up, here]
  have hnames : (A.normalise base).names =
      A.walk (A.isRooted base) (A.parentNames base) A.up := by
    rw [normalise_names, hlast]
  rw [walk_up] at hnames
  cases htop : (A.parentNames base).getLast? with
  | none =>
      have hempty : A.parentNames base = [] := List.getLast?_eq_none_iff.mp htop
      cases hroot : A.isRooted base with
      | true =>
          simp only [htop, hroot, if_true] at hnames
          simp only [true_or, iff_true]
          apply within_append_of_parent A [A.up ++ A.firstName rest] hbase hup
          · rw [hseam, hnames, hempty]
          · simpa using hfirst
      | false =>
          simp only [htop, hroot, Bool.false_eq_true, if_false] at hnames
          have hout := A.not_within_append_of_longer [] A.up hbase hup hfirst
            (by simpa using hnames) (by rw [hseam, hempty])
          simpa [hempty, endsInName] using hout
  | some top =>
      obtain ⟨stack, hstack⟩ := List.getLast?_eq_some_iff.mp htop
      by_cases hreal : top = A.up
      · have hroot : A.isRooted base = false := by
          rw [Bool.eq_false_iff]
          intro hroot
          apply A.up_notMem_walkAll_rooted List.not_mem_nil
            (A.names base).dropLast
          have hmem : top ∈ A.parentNames base := List.mem_of_getLast? htop
          rwa [hreal, parentNames, hroot] at hmem
        simp only [htop, hreal, if_true] at hnames
        have hout := A.not_within_append_of_longer _ _ hbase hup hfirst
          hnames hseam
        simpa [hroot, endsInName, htop, hreal] using hout
      · simp only [htop, if_neg hreal] at hnames
        have hinside : A.Within (A.normalise base) (A.normalise (base ++ rest)) := by
          apply within_append_of_parent A [top, A.up ++ A.firstName rest]
            hbase hup
          · rw [hseam, hnames, hstack]
            simp
          · simp [Ne.symm hreal, hlong.symm]
        simpa [endsInName, htop, hreal] using hinside

theorem within_append_of_last_eq_nil {base rest : List α}
    (hbase : base ≠ []) (hup : A.up ∉ A.names rest)
    (hfirst : A.firstName rest ≠ []) (hfirstUp : A.firstName rest ≠ A.up)
    (hlast : A.lastName base = []) :
    A.Within (A.normalise base) (A.normalise (base ++ rest)) := by
  by_cases hdot : A.firstName rest = A.here
  · apply within_append_of_parent A [] hbase hup
    · rw [normalise_names, hlast, hdot, List.nil_append,
        walk_skip A (Or.inr rfl), walk_skip A (Or.inl rfl), List.append_nil]
    · simp
  · apply within_append_of_parent A [A.firstName rest] hbase hup
    · rw [normalise_names, hlast, List.nil_append,
        walk_plain A hfirst hdot hfirstUp, walk_skip A (Or.inl rfl)]
    · simpa using hfirstUp.symm

theorem within_append_here_iff {base rest : List α}
    (hbase : base ≠ []) (hup : A.up ∉ A.names rest)
    (hfirst : A.firstName rest ≠ []) (hlast : A.lastName base = A.here) :
    A.Within (A.normalise base) (A.normalise (base ++ rest)) ↔
      (A.firstName rest = A.here → A.climbsBack base rest = true) := by
  by_cases hdot : A.firstName rest = A.here
  · simpa [hdot] using A.within_append_here_here_iff hbase hup hlast hdot
  · simp only [hdot, false_implies, iff_true]
    have hmelt : A.here ++ A.firstName rest ≠ A.up := by
      intro h
      exact hdot (List.append_cancel_left h)
    apply within_append_of_parent A [A.here ++ A.firstName rest] hbase hup
    · rw [normalise_names, hlast, walk_skip A (Or.inr rfl)]
      apply walk_plain A _ _ hmelt
      · simp [here]
      · simpa [here] using hfirst
    · simpa using hmelt.symm

/-- An ordinary name only becomes a longer ordinary name. -/
theorem walk_melted {rooted : Bool} {stack : List (List α)}
    {last first : List α} (hempty : last ≠ []) (hhere : last ≠ A.here)
    (hfirst : first ≠ []) :
    A.walk rooted stack (last ++ first) = stack ++ [last ++ first] := by
  have hpos := List.length_pos_iff.mpr hempty
  have hpos' := List.length_pos_iff.mpr hfirst
  apply walk_plain
  · simp [hempty]
  · intro h
    have hlen := congrArg List.length h
    simp only [here, List.length_append, List.length_singleton] at hlen
    omega
  · intro h
    have hlen := congrArg List.length h
    simp only [up, List.length_append, List.length_cons,
      List.length_nil] at hlen
    apply hhere
    have hone : last.length = A.here.length := by
      simp only [here, List.length_singleton]
      omega
    exact (List.append_inj (h.trans (show A.up = A.here ++ A.here from rfl))
      hone).1

theorem not_within_append_of_ordinary {base rest : List α}
    (hbase : base ≠ []) (hup : A.up ∉ A.names rest)
    (hfirst : A.firstName rest ≠ []) (hempty : A.lastName base ≠ [])
    (hhere : A.lastName base ≠ A.here) (hlast : A.lastName base ≠ A.up) :
    ¬A.Within (A.normalise base) (A.normalise (base ++ rest)) := by
  apply A.not_within_append_of_longer (A.parentNames base)
    (A.lastName base) hbase hup hfirst
  · rw [normalise_names, walk_plain A hempty hhere hlast]
  · exact A.walk_melted hempty hhere hfirst

/-- Behind the empty word a path stays below it unless it is rooted. -/
theorem within_nil_iff {rest : List α} (hup : A.up ∉ A.names rest) :
    A.Within (A.normalise []) (A.normalise rest) ↔ A.isRooted rest = false := by
  have hnames : (A.normalise ([] : List α)).names = [] := by
    simp [normalise, names, walk]
  have hrooted : (A.normalise ([] : List α)).rooted = false := by
    simp [normalise, isRooted]
  have hclean : A.up ∉ (A.normalise rest).names := by
    change A.up ∉ A.walkAll _ [] (A.names rest)
    rw [walkAll_plain A _ _ hup]
    simpa using A.up_notMem_plain hup
  unfold Within
  simp only [hnames, hrooted, List.nil_prefix, List.length_nil,
    List.drop_zero, hclean, not_false_eq_true, and_true]
  rfl

theorem seamSafe_nil_iff (rest : List α) :
    A.SeamSafe [] rest ↔ A.isRooted rest = false := by
  have hlast : A.lastName ([] : List α) = [] := by simp [lastName, names]
  unfold SeamSafe
  split_ifs with hfirst
  · rw [firstName_eq_nil_iff] at hfirst
    rcases hfirst with rfl | hroot
    · simp [isRooted]
    · have hne : rest ≠ [] := by
        rintro rfl
        simp [isRooted] at hroot
      simp [hroot, hne]
  · rw [firstName_eq_nil_iff] at hfirst
    push Not at hfirst
    simpa using hfirst.2

/-- Writing `rest` directly behind `base` stays at or below `base` exactly when
the seam is safe. -/
theorem within_append_iff_seamSafe (base : List α) {rest : List α}
    (hup : A.up ∉ A.names rest) :
    A.Within (A.normalise base) (A.normalise (base ++ rest)) ↔
      A.SeamSafe base rest := by
  have hfirstUp : A.firstName rest ≠ A.up := by
    intro h
    apply hup
    rw [names_eq_first_tail, h]
    exact List.mem_cons_self
  by_cases hbase : base = []
  · subst hbase
    rw [List.nil_append, A.within_nil_iff hup, A.seamSafe_nil_iff]
  · unfold SeamSafe
    split_ifs with hfirst hempty hhere hlast
    · simpa [hbase] using A.within_append_of_first_eq_nil hbase hup hfirst
    · simpa using A.within_append_of_last_eq_nil hbase hup hfirst hfirstUp hempty
    · exact A.within_append_here_iff hbase hup hfirst hhere
    · exact A.within_append_up_iff hbase hup hfirst hlast
    · simpa using
        A.not_within_append_of_ordinary hbase hup hfirst hempty hhere hlast

end Alphabet

end Lith.LexicalPath
