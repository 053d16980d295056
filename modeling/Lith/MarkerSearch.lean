import Lith.CString

/-!
# The text behind the first occurrence of a marker

`behind marker text` is what follows the first occurrence of `marker`.  Texts
are put together from pieces, and a marker cannot reach over a letter that it
does not contain, so the search in the whole text is the search in the pieces,
one after the other.  A marker that ends in a letter it contains only there,
such as a field name with its colon, is found at the end of a name or not in
the name at all.
-/

namespace Lith.CString

variable {α : Type*} [DecidableEq α]

def behind (marker text : List α) : Option (List α) :=
  (strstr marker text).map fun i => text.drop (i + marker.length)

theorem behind_eq_none_iff {marker : List α} (text : List α) :
    behind marker text = none ↔ ¬marker <:+: text := by
  unfold behind
  rw [Option.map_eq_none_iff, strstr_eq_none_iff]

theorem behind_eq_none {marker text : List α} (hnot : ¬marker <:+: text) :
    behind marker text = none :=
  (behind_eq_none_iff text).mpr hnot

theorem behind_nil {marker : List α} (hmarker : marker ≠ []) :
    behind marker ([] : List α) = none := by
  simp [behind, strstr, hmarker]

theorem behind_cons_of_isPrefix {marker rest : List α} {c : α}
    (hmatch : marker <+: c :: rest) :
    behind marker (c :: rest) = some ((c :: rest).drop marker.length) := by
  simp [behind, strstr_cons_of_isPrefix hmatch]

theorem behind_cons_of_not_isPrefix {marker rest : List α} {c : α}
    (hmatch : ¬marker <+: c :: rest) :
    behind marker (c :: rest) = behind marker rest := by
  unfold behind
  rw [strstr_cons_of_not_isPrefix hmatch, Option.map_map]
  congr 1
  funext i
  have hlen : i + 1 + marker.length = i + marker.length + 1 := by omega
  simp only [Function.comp_apply, hlen, List.drop_succ_cons]

theorem behind_eq_none_of_length {marker text : List α}
    (hlen : text.length < marker.length) : behind marker text = none := by
  apply behind_eq_none
  intro hinside
  have hle := hinside.length_le
  omega

theorem behind_append_of_some {marker text found : List α}
    (hfound : behind marker text = some found) (rest : List α) :
    behind marker (text ++ rest) = some (found ++ rest) := by
  unfold behind at hfound ⊢
  rw [Option.map_eq_some_iff] at hfound
  obtain ⟨i, hi, rfl⟩ := hfound
  rw [strstr_append_of_some hi, Option.map_some,
    List.drop_append_of_le_length (strstr_bound hi)]

/-- The text up to the end of the first occurrence. -/
theorem exists_front_of_behind {marker text rest : List α}
    (hmarker : marker ≠ []) (hfound : behind marker text = some rest) :
    ∃ front, text = front ++ rest ∧ behind marker front = some [] := by
  induction text with
  | nil => simp [behind_nil hmarker] at hfound
  | cons c text ih =>
      by_cases hpre : marker <+: c :: text
      · obtain ⟨others, hothers⟩ := hpre
        have hrest : others = rest := by
          rw [behind_cons_of_isPrefix ⟨others, hothers⟩, ← hothers,
            List.drop_left, Option.some.injEq] at hfound
          exact hfound
        refine ⟨marker, by rw [← hothers, hrest], ?_⟩
        obtain ⟨d, tail, rfl⟩ := List.exists_cons_of_ne_nil hmarker
        rw [behind_cons_of_isPrefix List.prefix_rfl, List.drop_length]
      · rw [behind_cons_of_not_isPrefix hpre] at hfound
        obtain ⟨front, rfl, hfront⟩ := ih hfound
        refine ⟨c :: front, rfl, ?_⟩
        rw [behind_cons_of_not_isPrefix, hfront]
        intro h
        exact hpre (h.trans (List.prefix_append (c :: front) rest))

/-- A text without the first letter of the marker is skipped. -/
theorem behind_append_of_notMem {marker text : List α} {first : α}
    (hfirst : first ∉ text) (rest : List α) :
    behind (first :: marker) (text ++ rest) = behind (first :: marker) rest := by
  induction text with
  | nil => rfl
  | cons c text ih =>
      rw [List.mem_cons, not_or] at hfirst
      have hpre : ¬first :: marker <+: c :: (text ++ rest) := by
        rw [List.cons_prefix_cons]
        exact fun h => hfirst.1 h.1
      rw [List.cons_append, behind_cons_of_not_isPrefix hpre, ih hfirst.2]

/-- A marker without the letter `mark` is found on one side of it. -/
theorem behind_append_mark {marker : List α} {mark : α}
    (hmarker : marker ≠ []) (hmark : mark ∉ marker) (text rest : List α) :
    behind marker (text ++ mark :: rest) =
      ((behind marker text).map (· ++ mark :: rest)).or (behind marker rest) := by
  cases hleft : behind marker text with
  | some found => simp [behind_append_of_some hleft]
  | none =>
      have hnone : strstr marker text = none := by
        simpa [behind] using hleft
      unfold behind
      rw [strstr_append_mark hmarker hmark, hnone]
      simp only [Option.none_or, Option.map_map, Option.map_none]
      congr 1
      funext i
      have hlen : i + (text.length + 1) + marker.length =
          text.length + (i + marker.length + 1) := by omega
      simp only [Function.comp_apply, hlen, List.drop_length_add_append,
        List.drop_succ_cons]

theorem isPrefix_name_iff {stem name text : List α} {colon : α}
    (hstem : colon ∉ stem) (hname : colon ∉ name) :
    stem ++ [colon] <+: name ++ colon :: text ↔ stem = name := by
  constructor
  · rintro ⟨rest, hrest⟩
    have htake := congrArg (List.takeWhile (· ≠ colon)) hrest
    rwa [List.append_assoc, List.singleton_append, takeWhile_ne_append hstem,
      takeWhile_ne_append hname] at htake
  · rintro rfl
    simp

/-- The first colon ends a name, so a marker that ends in its only colon is a
suffix of the name or lies behind the colon. -/
theorem behind_name {stem name : List α} {colon : α}
    (hstem : colon ∉ stem) (hname : colon ∉ name) (text : List α) :
    behind (stem ++ [colon]) (name ++ colon :: text) =
      if stem <:+ name then some text
      else behind (stem ++ [colon]) text := by
  induction name with
  | nil =>
      by_cases hempty : stem = []
      · rw [List.nil_append, behind_cons_of_isPrefix (by simp [hempty])]
        simp [hempty]
      · have hpre : ¬stem ++ [colon] <+: colon :: text :=
          fun h => hempty ((isPrefix_name_iff hstem hname).mp h)
        rw [List.nil_append, behind_cons_of_not_isPrefix hpre,
          if_neg (by simpa using hempty)]
  | cons c name ih =>
      have hrest : colon ∉ name := fun h => hname (List.mem_cons_of_mem _ h)
      rw [List.cons_append]
      by_cases hwhole : stem = c :: name
      · have hpre : stem ++ [colon] <+: c :: (name ++ colon :: text) :=
          (isPrefix_name_iff hstem hname).mpr hwhole
        rw [behind_cons_of_isPrefix hpre, if_pos (hwhole ▸ List.suffix_rfl),
          hwhole]
        simp
      · have hpre : ¬stem ++ [colon] <+: c :: (name ++ colon :: text) :=
          fun h => hwhole ((isPrefix_name_iff hstem hname).mp h)
        rw [behind_cons_of_not_isPrefix hpre, ih hrest]
        simp only [List.suffix_cons_iff, hwhole, false_or]

end Lith.CString
