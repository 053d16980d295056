import Lith.HttpRouter
import Lith.LexicalPath

/-!
# Confinement to the document root

The filter looks at the request path alone and the router writes it directly
behind `public_dir`, without a separator between them.  For every directory
and every accepted request this decides whether the resulting name stays at or
below the document root: it does exactly when the seam of the two strings is
safe in the sense of `LexicalPath`.
-/

namespace Lith

open CString LexicalPath

def posixPaths : Alphabet UInt8 where
  sep := 47
  dot := 46
  sep_ne_dot := by decide

theorem isSafePath_iff (path : Bytes) :
    isSafePath path = true ↔ ¬ascii ".." <:+: path := by
  unfold isSafePath
  rw [Option.isNone_iff_eq_none]
  exact strstr_eq_none_iff path

theorem up_notMem_names_of_isSafePath {path : Bytes}
    (hsafe : isSafePath path = true) :
    posixPaths.up ∉ posixPaths.names path := by
  intro hmem
  exact (isSafePath_iff path).mp hsafe (posixPaths.isInfix_of_mem_names hmem)

theorem seamSafe_rootTarget_iff (base : Bytes) :
    posixPaths.SeamSafe base rootTarget ↔
      posixPaths.SeamSafe base indexTarget := by
  have hroot : posixPaths.firstName rootTarget = [] := by decide
  have hindex : posixPaths.firstName indexTarget = [] := by decide
  have hrootNe : rootTarget ≠ [] := by decide
  have hindexNe : indexTarget ≠ [] := by decide
  simp [Alphabet.SeamSafe, hroot, hindex, hrootNe, hindexNe]

theorem within_filePath_iff (publicDir : CharArray 256) {path : Bytes}
    (hsafe : isSafePath path = true) :
    posixPaths.Within (posixPaths.normalise publicDir.text)
        (posixPaths.normalise (filePath publicDir path)) ↔
      posixPaths.SeamSafe publicDir.text path := by
  rw [filePath_eq]
  split_ifs with hroot
  · subst hroot
    have hindex : posixPaths.up ∉ posixPaths.names indexTarget := by decide
    rw [posixPaths.within_append_iff_seamSafe _ hindex,
      seamSafe_rootTarget_iff]
  · exact posixPaths.within_append_iff_seamSafe _
      (up_notMem_names_of_isSafePath hsafe)

/-- Whatever the request in `buffer` makes the router hand to the file system
is the document root or lies below it. -/
def Confined (publicDir : CharArray 256) (buffer : Bytes) : Prop :=
  ∀ req path, parseHttpRequest buffer = some req →
    routedFile publicDir req = some path →
    posixPaths.Within (posixPaths.normalise publicDir.text)
      (posixPaths.normalise path)

theorem confined_iff_seamSafe (publicDir : CharArray 256) (buffer : Bytes) :
    Confined publicDir buffer ↔
      ∀ req, parseHttpRequest buffer = some req → req.method = .get →
        isSafePath req.path.text = true →
        posixPaths.SeamSafe publicDir.text req.path.text := by
  constructor
  · intro hconfined req hparse hget hsafe
    apply (within_filePath_iff publicDir hsafe).mp
    apply hconfined req _ hparse
    simp [routedFile, hget, hsafe]
  · intro hseam req path hparse hrouted
    unfold routedFile at hrouted
    split_ifs at hrouted with hpassed
    rw [Option.some.injEq] at hrouted
    subst hrouted
    obtain ⟨hget, hsafe⟩ := hpassed
    exact (within_filePath_iff publicDir hsafe).mpr
      (hseam req hparse hget hsafe)

/-- `GET -old/secret` is served from `public-old/secret`, a sibling of the
document root `public`. -/
theorem not_confined_public_sibling :
    ¬Confined (strncpy 255 (ascii "public"))
      (ascii "GET -old/secret HTTP/1.1\r\n\r\n") := by
  intro hconfined
  have hwithin := hconfined
    (parseFields (ascii "GET -old/secret HTTP/1.1\r\n\r\n") .get 4)
    (ascii "public-old/secret") (by decide) (by decide)
  revert hwithin
  decide

end Lith
