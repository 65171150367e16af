/-!
Languages of source blocks. A highlighter knows a language under one name; other names in use for
it are aliases. Names are compared exactly, and a name that is no alias stands for itself.
-/

namespace MarkupExport

structure LanguageMap where
  /-- The name for blocks that have none. -/
  fallback : String
  aliases : List (String × String)
deriving DecidableEq, Repr

namespace LanguageMap

def standardAliases : List (String × String) :=
  [("emacs-lisp", "lisp"), ("elisp", "lisp"), ("sh", "bash"), ("shell", "bash")]

def standard : LanguageMap :=
  ⟨"plaintext", standardAliases⟩

/-- The highlighter's name for a language. An empty name is none. -/
def resolve (map : LanguageMap) : Option String → String
  | none => map.fallback
  | some language =>
    if language = "" then map.fallback else (map.aliases.lookup language).getD language

example : standard.resolve (some "shell") = "bash" := by decide +kernel

example : standard.resolve (some "SH") = "SH" := by decide +kernel

end LanguageMap

end MarkupExport
