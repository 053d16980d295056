import Lith.CString

/-!
# Arrays of bytes with checked access

A `ByteArea n` is what the memory of a `char[n]` holds, terminated or not.  Every
access is checked: an operation that would read or write outside the array has
no result.  A pointer into an array is the list of the bytes from there to the
end of the array.  The rules say what the copying functions of the C library
leave behind when the text fits.
-/

namespace Lith.CString

/-! ## Reading -/

/-- The bytes before the NUL; `none` when the memory ends first. -/
def readString : Bytes → Option Bytes
  | [] => none
  | c :: rest => if c = 0 then some [] else (readString rest).map (c :: ·)

/-- `strchr`: the scan ends at the letter or at the NUL. -/
def scanChar (c : UInt8) : Bytes → Option (Option ℕ)
  | [] => none
  | b :: rest =>
      if b = c then some (some 0)
      else if b = 0 then some none
      else (scanChar c rest).map (Option.map (· + 1))

/-- The comparison of `strstr` at one place ends with the first difference. -/
def compareAt : Bytes → Bytes → Option Bool
  | [], _ => some true
  | _ :: _, [] => none
  | d :: needle, b :: rest => if b = d then compareAt needle rest else some false

/-- `strstr` in memory, for a needle that is not empty. -/
def scanString (needle : Bytes) : Bytes → Option (Option ℕ)
  | [] => none
  | b :: rest =>
      (compareAt needle (b :: rest)).bind fun found =>
        if found then some (some 0)
        else if b = 0 then some none
        else (scanString needle rest).map (Option.map (· + 1))

theorem readString_eq_some_iff {memory text : Bytes} :
    readString memory = some text ↔
      0 ∉ text ∧ ∃ rest, memory = text ++ 0 :: rest := by
  induction memory generalizing text with
  | nil => simp [readString]
  | cons c memory ih =>
      by_cases hc : c = 0
      · subst hc
        simp only [readString, if_true, Option.some.injEq]
        constructor
        · rintro rfl
          exact ⟨by simp, memory, rfl⟩
        · rintro ⟨hfree, rest, hsplit⟩
          cases text with
          | nil => rfl
          | cons d text =>
              rw [List.cons_append, List.cons.injEq] at hsplit
              exact absurd (by simp [hsplit.1]) hfree
      · simp only [readString, if_neg hc, Option.map_eq_some_iff]
        constructor
        · rintro ⟨tail, htail, rfl⟩
          obtain ⟨hfree, rest, rfl⟩ := ih.mp htail
          refine ⟨?_, rest, rfl⟩
          rw [List.mem_cons, not_or]
          exact ⟨Ne.symm hc, hfree⟩
        · rintro ⟨hfree, rest, hsplit⟩
          cases text with
          | nil =>
              rw [List.nil_append, List.cons.injEq] at hsplit
              exact absurd hsplit.1 hc
          | cons d text =>
              rw [List.cons_append, List.cons.injEq] at hsplit
              obtain ⟨rfl, rfl⟩ := hsplit
              rw [List.mem_cons, not_or] at hfree
              exact ⟨text, ih.mpr ⟨hfree.2, rest, rfl⟩, rfl⟩

theorem readString_append {text : Bytes} (hfree : 0 ∉ text) (rest : Bytes) :
    readString (text ++ 0 :: rest) = some text :=
  readString_eq_some_iff.mpr ⟨hfree, rest, rfl⟩

theorem readString_cstr (memory rest : Bytes) :
    readString (memory ++ 0 :: rest) = some (cstr memory) := by
  rw [readString_eq_some_iff]
  refine ⟨nulFree_cstr memory, ?_⟩
  by_cases hmem : 0 ∈ memory
  · obtain ⟨front, tail, rfl, hfront⟩ := List.eq_append_cons_of_mem hmem
    have hcstr : cstr (front ++ 0 :: tail) = front := by
      rw [cstr_append hfront]
      simp [cstr]
    rw [hcstr]
    exact ⟨tail ++ 0 :: rest, by simp⟩
  · rw [cstr_eq_self hmem]
    exact ⟨rest, rfl⟩

theorem readString_drop {memory text : Bytes}
    (hread : readString memory = some text) {k : ℕ} (hk : k ≤ text.length) :
    readString (memory.drop k) = some (text.drop k) := by
  obtain ⟨hfree, rest, rfl⟩ := readString_eq_some_iff.mp hread
  rw [List.drop_append_of_le_length hk]
  exact readString_append (fun hmem => hfree (List.mem_of_mem_drop hmem)) rest

theorem scanChar_eq {memory text : Bytes} (hread : readString memory = some text)
    (c : UInt8) (hc : c ≠ 0) : scanChar c memory = some (strchr c text) := by
  induction memory generalizing text with
  | nil => simp [readString] at hread
  | cons b memory ih =>
      by_cases hb : b = 0
      · subst hb
        simp only [readString, if_true, Option.some.injEq] at hread
        subst hread
        simp [scanChar, Ne.symm hc, strchr, strstr]
      · simp only [readString, if_neg hb, Option.map_eq_some_iff] at hread
        obtain ⟨tail, htail, rfl⟩ := hread
        have hrec := ih htail
        unfold strchr at hrec ⊢
        by_cases hbc : b = c
        · subst hbc
          rw [strstr_cons_of_isPrefix (by simp)]
          simp [scanChar]
        · have hpre : ¬[c] <+: b :: tail := by
            rw [List.cons_prefix_cons]
            exact fun h => hbc h.1.symm
          rw [strstr_cons_of_not_isPrefix hpre]
          simp only [scanChar, if_neg hbc, if_neg hb, hrec, Option.map_some]

theorem compareAt_eq {memory text : Bytes}
    (hread : readString memory = some text) {needle : Bytes} (hneedle : 0 ∉ needle) :
    compareAt needle memory = some (decide (needle <+: text)) := by
  induction needle generalizing memory text with
  | nil => simp [compareAt]
  | cons d needle ih =>
      rw [List.mem_cons, not_or] at hneedle
      cases memory with
      | nil => simp [readString] at hread
      | cons b memory =>
          by_cases hb : b = 0
          · subst hb
            simp only [readString, if_true, Option.some.injEq] at hread
            subst hread
            simp [compareAt, hneedle.1]
          · simp only [readString, if_neg hb, Option.map_eq_some_iff] at hread
            obtain ⟨tail, htail, rfl⟩ := hread
            by_cases hbd : b = d
            · simp [compareAt, hbd, ih htail hneedle.2, List.cons_prefix_cons]
            · simp [compareAt, hbd, List.cons_prefix_cons, Ne.symm hbd]

theorem scanString_eq {memory text : Bytes}
    (hread : readString memory = some text) (needle : Bytes) (hsome : needle ≠ [])
    (hneedle : 0 ∉ needle) :
    scanString needle memory = some (strstr needle text) := by
  induction memory generalizing text with
  | nil => simp [readString] at hread
  | cons b memory ih =>
      have hcompare := compareAt_eq hread hneedle
      by_cases hb : b = 0
      · subst hb
        simp only [readString, if_true, Option.some.injEq] at hread
        subst hread
        simp [scanString, hcompare, hsome, strstr]
      · simp only [readString, if_neg hb, Option.map_eq_some_iff] at hread
        obtain ⟨tail, htail, rfl⟩ := hread
        by_cases hpre : needle <+: b :: tail
        · rw [strstr_cons_of_isPrefix hpre]
          simp [scanString, hcompare, hpre]
        · rw [strstr_cons_of_not_isPrefix hpre]
          simp [scanString, hcompare, hpre, hb, ih htail]

/-! ## Arrays -/

@[ext]
structure ByteArea (n : ℕ) where
  bytes : Bytes
  size : bytes.length = n

namespace ByteArea

variable {n : ℕ}

/-- The array behind `char a[n] = "text"`. -/
def initialised (n : ℕ) (text : Bytes) : ByteArea n where
  bytes := (text ++ List.replicate n 0).take n
  size := by
    rw [List.length_take, List.length_append, List.length_replicate]
    omega

def store (area : ByteArea n) (offset : ℕ) (c : UInt8) : Option (ByteArea n) :=
  if offset < n then
    some ⟨area.bytes.set offset c, by rw [List.length_set, area.size]⟩
  else none

def write (area : ByteArea n) (offset : ℕ) (text : Bytes) : Option (ByteArea n) :=
  if hfits : offset + text.length ≤ n then
    some
      { bytes := area.bytes.take offset ++ (text ++
          area.bytes.drop (offset + text.length))
        size := by
          simp only [List.length_append, List.length_take, List.length_drop,
            area.size]
          omega }
  else none

/-- The string that the array holds from its beginning. -/
def string (area : ByteArea n) : Option Bytes := readString area.bytes

/-- `strncpy(area, source, room)`: what is left of `room` is filled with NULs. -/
def strncpy (area : ByteArea n) (source : Bytes) (room : ℕ) : Option (ByteArea n) :=
  if room ≤ source.length ∨ 0 ∈ source then
    area.write 0 ((cstr source).take room ++
      List.replicate (room - (cstr source).length) 0)
  else none

/-- `strncpy(area, source, room)` and `area[room] = 0`. -/
def copyString (area : ByteArea n) (source : Bytes) (room : ℕ) :
    Option (ByteArea n) :=
  (area.strncpy source room).bind fun copied => copied.store room 0

/-- `strcat(area, source)`. -/
def strcat (area : ByteArea n) (source : Bytes) : Option (ByteArea n) :=
  area.string.bind fun text =>
    (readString source).bind fun more => area.write text.length (more ++ [0])

/-- `snprintf(area, room, ...)` for a formatted text and some room. -/
def snprintf (area : ByteArea n) (room : ℕ) (text : Bytes) : Option (ByteArea n) :=
  area.write 0 (CString.snprintf room text ++ [0])

/-! ## What the copies leave behind -/

theorem string_of_bytes {area : ByteArea n} {text rest : Bytes}
    (hbytes : area.bytes = text ++ 0 :: rest) (hfree : 0 ∉ text) :
    area.string = some text := by
  unfold string
  rw [hbytes]
  exact readString_append hfree rest

theorem length_lt_of_string {area : ByteArea n} {text : Bytes}
    (hread : area.string = some text) : text.length < n := by
  obtain ⟨-, rest, hbytes⟩ := readString_eq_some_iff.mp hread
  have hsize := area.size
  rw [hbytes, List.length_append, List.length_cons] at hsize
  omega

theorem nulFree_of_string {area : ByteArea n} {text : Bytes}
    (hread : area.string = some text) : 0 ∉ text :=
  (readString_eq_some_iff.mp hread).1

theorem string_initialised {text : Bytes} (hfree : 0 ∉ text)
    (hfits : text.length < n) : (initialised n text).string = some text := by
  have hrest : (text ++ List.replicate n (0 : UInt8)).take n =
      text ++ 0 :: List.replicate (n - text.length - 1) 0 := by
    rw [List.take_append, List.take_of_length_le hfits.le, List.take_replicate,
      ← List.replicate_succ]
    congr 2
    omega
  exact string_of_bytes hrest hfree

theorem exists_write (area : ByteArea n) (offset : ℕ) (text : Bytes)
    (hfits : offset + text.length ≤ n) :
    ∃ after, area.write offset text = some after ∧ after.bytes =
      area.bytes.take offset ++ (text ++
        area.bytes.drop (offset + text.length)) := by
  rw [write, dif_pos hfits]
  exact ⟨_, rfl, rfl⟩

theorem exists_store (area : ByteArea n) {offset : ℕ} (hoffset : offset < n)
    (c : UInt8) : ∃ after, area.store offset c = some after ∧
      after.bytes = area.bytes.set offset c := by
  rw [store, if_pos hoffset]
  exact ⟨_, rfl, rfl⟩

theorem write_zero_string (area : ByteArea n) {text : Bytes} (hfree : 0 ∉ text)
    {rest : Bytes} (hfits : (text ++ 0 :: rest).length ≤ n) :
    ∃ after, area.write 0 (text ++ 0 :: rest) = some after ∧
      after.string = some text := by
  obtain ⟨after, hwrite, hbytes⟩ :=
    area.exists_write 0 (text ++ 0 :: rest) (by omega)
  rw [List.take_zero, List.nil_append, List.append_assoc, List.cons_append] at hbytes
  exact ⟨after, hwrite, string_of_bytes hbytes hfree⟩

theorem snprintf_string (area : ByteArea n) {room : ℕ} (hroom : 0 < room)
    (hfits : room ≤ n) {text : Bytes} (hfree : 0 ∉ text) :
    ∃ after, area.snprintf room text = some after ∧
      after.string = some (CString.snprintf room text) := by
  apply area.write_zero_string
  · exact fun hmem => hfree (List.mem_of_mem_take hmem)
  · rw [CString.snprintf, List.length_append, List.length_take,
      List.length_singleton]
    omega

theorem strcat_string {area : ByteArea n} {text source more : Bytes}
    (hread : area.string = some text) (hsource : readString source = some more)
    (hfits : text.length + more.length < n) :
    ∃ after, area.strcat source = some after ∧
      after.string = some (text ++ more) := by
  obtain ⟨hfree, rest, hbytes⟩ := readString_eq_some_iff.mp hread
  have hmore := (readString_eq_some_iff.mp hsource).1
  have hroom : text.length + (more ++ [0]).length ≤ n := by
    rw [List.length_append, List.length_singleton]
    omega
  obtain ⟨after, hwrite, hafter⟩ := area.exists_write text.length (more ++ [0]) hroom
  have htake : area.bytes.take text.length = text := by
    rw [hbytes, List.take_left' rfl]
  have hboth : 0 ∉ text ++ more := by
    rw [List.mem_append, not_or]
    exact ⟨hfree, hmore⟩
  refine ⟨after, ?_, ?_⟩
  · rw [strcat, hread, hsource, Option.bind_some, Option.bind_some, hwrite]
  · rw [htake, List.append_assoc, ← List.append_assoc text] at hafter
    exact string_of_bytes hafter hboth

theorem cstr_of_readString {memory text : Bytes}
    (hread : readString memory = some text) : cstr memory = text := by
  obtain ⟨hfree, rest, rfl⟩ := readString_eq_some_iff.mp hread
  rw [cstr_append hfree]
  simp [cstr]

/-- A text that is shorter than the room gets its NUL from the filling. -/
theorem strncpy_string (area : ByteArea n) {source text : Bytes} {room : ℕ}
    (hread : readString source = some text) (hshort : text.length < room)
    (hroom : room ≤ n) :
    ∃ after, area.strncpy source room = some after ∧ after.string = some text := by
  obtain ⟨hfree, rest, hsource⟩ := readString_eq_some_iff.mp hread
  obtain ⟨k, hk⟩ := Nat.exists_eq_add_of_lt hshort
  have hpad : room - text.length = k + 1 := by omega
  have hlength : (text ++ 0 :: List.replicate k (0 : UInt8)).length ≤ n := by
    rw [List.length_append, List.length_cons, List.length_replicate]
    omega
  obtain ⟨after, hwrite, hafter⟩ := area.write_zero_string hfree hlength
  refine ⟨after, ?_, hafter⟩
  rw [strncpy, if_pos (Or.inr (by simp [hsource])), cstr_of_readString hread,
    List.take_of_length_le hshort.le, hpad, List.replicate_succ, hwrite]

theorem copyString_string (area : ByteArea n) {source text : Bytes} {room : ℕ}
    (hread : readString source = some text) (hroom : room < n) :
    ∃ after, area.copyString source room = some after ∧
      after.string = some (text.take room) := by
  obtain ⟨hfree, rest, hsource⟩ := readString_eq_some_iff.mp hread
  have hlength : (text.take room ++
      List.replicate (room - text.length) (0 : UInt8)).length = room := by
    rw [List.length_append, List.length_take, List.length_replicate]
    omega
  obtain ⟨copied, hwrite, hcopied⟩ := area.exists_write 0
    (text.take room ++ List.replicate (room - text.length) 0) (by omega)
  obtain ⟨after, hstore, hafter⟩ := copied.exists_store hroom 0
  have hbytes : after.bytes = text.take room ++
      (List.replicate (room - text.length) 0 ++
        0 :: area.bytes.drop (room + 1)) := by
    have hinside : room < area.bytes.length := by
      rw [area.size]
      exact hroom
    have hdrop := List.drop_eq_getElem_cons hinside
    rw [hafter, hcopied, List.take_zero, List.nil_append, Nat.zero_add, hlength,
      hdrop, List.set_append_right _ _ hlength.le, hlength, Nat.sub_self,
      List.set_cons_zero, List.append_assoc]
  refine ⟨after, ?_, ?_⟩
  · rw [copyString, strncpy, if_pos (Or.inr (by simp [hsource])),
      cstr_of_readString hread, hwrite, Option.bind_some, hstore]
  · have hkept : 0 ∉ text.take room := fun hmem => hfree (List.mem_of_mem_take hmem)
    cases hpad : room - text.length with
    | zero =>
        rw [hpad] at hbytes
        exact string_of_bytes hbytes hkept
    | succ k =>
        rw [hpad] at hbytes
        exact string_of_bytes hbytes hkept

end ByteArea

end Lith.CString
