import Lith.HeadParsing
import Lith.HttpRouter

/-!
# The request target and the path that is served

The copying loop of the parser stops at a blank, at the end of the buffer or
when the array is full, and the parser goes on in the same way in all three
cases.  The path is the whole target exactly when the target fits into the
array; a longer one is served under its first 255 bytes.
-/

namespace Lith

open CString

/-- The bytes behind the method and its space, up to the next blank or the end
of the buffer. -/
def requestTarget (buffer : Bytes) : Bytes :=
  ((cstr buffer).drop (if ascii "GET " <+: cstr buffer then 4 else 5)).takeWhile
    fun c => !isspace c

/-- The file that a target names, whatever its length. -/
def requestedFile (publicDir : CharArray 256) (method : HttpMethod)
    (target : Bytes) : Option Bytes :=
  if method = .get ∧ isSafePath target = true then
    some (publicDir.text ++ if target = rootTarget then indexTarget else target)
  else none

/-- The request carries the complete target, and the router turns to no other
file than the one that the target names. -/
structure TargetKept (buffer : Bytes) (req : HttpRequest) : Prop where
  path : req.path.text = requestTarget buffer
  file : ∀ publicDir file, routedFile publicDir req = some file →
    requestedFile publicDir req.method (requestTarget buffer) = some file

theorem copyPath_eq_take (room : ℕ) (text : Bytes) :
    copyPath room text = (text.takeWhile fun c => !isspace c).take room := by
  induction room generalizing text with
  | zero => simp [copyPath]
  | succ room ih =>
      cases text with
      | nil => simp [copyPath]
      | cons c rest =>
          by_cases hspace : isspace c = true
          · simp [copyPath, hspace]
          · simp [copyPath, hspace, ih]

theorem path_eq_take_target {buffer : Bytes} {req : HttpRequest}
    (hparse : parseHttpRequest buffer = some req) :
    req.path.text = (requestTarget buffer).take 255 := by
  unfold requestTarget
  rcases parseHttpRequest_eq_some hparse with ⟨hget, rfl⟩ | ⟨hpost, rfl⟩
  · rw [if_pos hget]
    exact copyPath_eq_take _ _
  · have hget : ¬ascii "GET " <+: cstr buffer := by
      intro hget
      have hboth := List.prefix_of_prefix_length_le hget hpost (by decide)
      exact absurd hboth (by decide)
    rw [if_neg hget]
    exact copyPath_eq_take _ _

theorem routedFile_eq_requestedFile (publicDir : CharArray 256)
    (req : HttpRequest) :
    routedFile publicDir req = requestedFile publicDir req.method req.path.text := by
  unfold routedFile requestedFile
  rw [filePath_eq]

/-- The target is kept if and only if it fits into the array. -/
theorem target_kept_iff {buffer : Bytes} {req : HttpRequest}
    (hparse : parseHttpRequest buffer = some req) :
    TargetKept buffer req ↔ (requestTarget buffer).length ≤ 255 := by
  have hpath := path_eq_take_target hparse
  constructor
  · intro hkept
    have hfits := req.path.fits
    rw [hkept.path] at hfits
    exact Nat.lt_succ_iff.mp hfits
  · intro hshort
    rw [List.take_of_length_le hshort] at hpath
    refine ⟨hpath, ?_⟩
    intro publicDir file hrouted
    rwa [routedFile_eq_requestedFile, hpath] at hrouted

theorem target_kept_index :
    ∃ req, parseHttpRequest (ascii "GET /index.html HTTP/1.1\r\n\r\n") = some req ∧
      TargetKept (ascii "GET /index.html HTTP/1.1\r\n\r\n") req :=
  ⟨_, rfl, (target_kept_iff rfl).mpr (by decide)⟩

/-- A longer target that passes the filter is served as the file that its
first bytes name. -/
theorem routedFile_of_long {buffer : Bytes} {req : HttpRequest}
    (hparse : parseHttpRequest buffer = some req) (hget : req.method = .get)
    (hsafe : isSafePath ((requestTarget buffer).take 255) = true)
    (hlong : 255 < (requestTarget buffer).length) (publicDir : CharArray 256) :
    routedFile publicDir req =
        some (publicDir.text ++ (requestTarget buffer).take 255) ∧
      requestedFile publicDir req.method (requestTarget buffer) ≠
        some (publicDir.text ++ (requestTarget buffer).take 255) := by
  have hroot : rootTarget.length = 1 := by decide
  have hlength : ((requestTarget buffer).take 255).length = 255 := by
    rw [List.length_take]
    omega
  have hshortRoot : (requestTarget buffer).take 255 ≠ rootTarget := by
    intro heq
    rw [heq] at hlength
    omega
  have hlongRoot : requestTarget buffer ≠ rootTarget := by
    intro heq
    rw [heq] at hlong
    omega
  constructor
  · rw [routedFile_eq_requestedFile, path_eq_take_target hparse, requestedFile,
      if_pos ⟨hget, hsafe⟩, if_neg hshortRoot]
  · unfold requestedFile
    split_ifs
    · rw [Ne, Option.some.injEq, List.append_cancel_left_eq]
      intro heq
      have hsame := congrArg List.length heq
      omega
    · simp

def longTarget : Bytes := ascii "/" ++ List.replicate 255 97 ++ ascii ".html"

def longTargetBuffer : Bytes :=
  ascii "GET " ++ (longTarget ++ ascii " HTTP/1.1\r\n\r\n")

theorem plain_longTarget (c : UInt8) (hc : c ∈ longTarget) :
    c ≠ 0 ∧ isspace c = false := by
  unfold longTarget at hc
  rw [List.append_assoc, List.mem_append, List.mem_append] at hc
  have hslash : ∀ c ∈ ascii "/", c ≠ 0 ∧ isspace c = false := by decide
  have hextension : ∀ c ∈ ascii ".html", c ≠ 0 ∧ isspace c = false := by decide
  rcases hc with hc | hc | hc
  · exact hslash c hc
  · rw [List.eq_of_mem_replicate hc]
    decide
  · exact hextension c hc

theorem cstr_longTargetBuffer : cstr longTargetBuffer = longTargetBuffer := by
  apply cstr_eq_self
  unfold longTargetBuffer
  rw [List.mem_append, List.mem_append]
  rintro (hmem | hmem | hmem)
  · exact absurd hmem (by decide)
  · exact (plain_longTarget 0 hmem).1 rfl
  · exact absurd hmem (by decide)

theorem get_isPrefix_longTargetBuffer :
    ascii "GET " <+: cstr longTargetBuffer := by
  rw [cstr_longTargetBuffer]
  exact List.prefix_append _ _

theorem requestTarget_longTargetBuffer :
    requestTarget longTargetBuffer = longTarget := by
  have hdrop : longTargetBuffer.drop 4 = longTarget ++ ascii " HTTP/1.1\r\n\r\n" :=
    List.drop_left' (by decide)
  have hblank : (ascii " HTTP/1.1\r\n\r\n").takeWhile (fun c => !isspace c) = [] := by
    decide
  rw [requestTarget, if_pos get_isPrefix_longTargetBuffer, cstr_longTargetBuffer,
    hdrop, List.takeWhile_append_of_pos, hblank, List.append_nil]
  intro c hc
  simp [(plain_longTarget c hc).2]

theorem isSafePath_longTarget : isSafePath (longTarget.take 255) = true := by
  have htake : longTarget.take 255 = ascii "/" ++ List.replicate 254 97 := by
    have hsplit : longTarget =
        (ascii "/" ++ List.replicate 254 97) ++ (97 :: ascii ".html") := by
      unfold longTarget
      rw [List.replicate_succ']
      simp only [List.append_assoc, List.cons_append, List.nil_append]
    have hlength : (ascii "/" ++ List.replicate 254 (97 : UInt8)).length = 255 := by
      rw [List.length_append, List.length_replicate]
      rfl
    rw [hsplit, List.take_append_of_le_length (by omega), ← hlength,
      List.take_length]
  unfold isSafePath
  rw [Option.isNone_iff_eq_none, strstr_eq_none_iff, htake]
  intro hinside
  have hdot : (46 : UInt8) ∈ ascii "/" ++ List.replicate 254 97 :=
    hinside.subset (by decide)
  rcases List.mem_append.mp hdot with hslash | hletter
  · exact absurd hslash (by decide)
  · exact absurd (List.eq_of_mem_replicate hletter) (by decide)

theorem length_longTarget : longTarget.length = 261 := by
  unfold longTarget
  rw [List.length_append, List.length_append, List.length_replicate]
  rfl

theorem long_target_shortened :
    ∃ req, parseHttpRequest longTargetBuffer = some req ∧
      requestTarget longTargetBuffer = longTarget ∧
      routedFile (strncpy 255 (ascii "public")) req =
        some (ascii "public" ++ longTarget.take 255) ∧
      ¬TargetKept longTargetBuffer req := by
  have hparse : parseHttpRequest longTargetBuffer =
      some (parseFields longTargetBuffer .get 4) := by
    rw [parseHttpRequest, if_pos get_isPrefix_longTargetBuffer]
  have hrouted := routedFile_of_long hparse rfl
    (by rw [requestTarget_longTargetBuffer]; exact isSafePath_longTarget)
    (by rw [requestTarget_longTargetBuffer, length_longTarget]; omega)
    (strncpy 255 (ascii "public"))
  rw [requestTarget_longTargetBuffer] at hrouted
  refine ⟨_, hparse, requestTarget_longTargetBuffer, hrouted.1, ?_⟩
  intro hkept
  have hfile := hkept.file _ _ hrouted.1
  rw [requestTarget_longTargetBuffer] at hfile
  exact hrouted.2 hfile

end Lith
