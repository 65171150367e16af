import MarkupExport.Proofs.Url.Authority

/-!
A scheme is reported as missing only where none is found: every error after the scheme is about the
host or the port.
-/

namespace MarkupExport.Url

variable {scheme chars : List Char}

theorem Host.ofDomain_ne_missingScheme : Host.ofDomain chars ≠ .error .missingScheme := by
  intro failed
  rw [Host.ofDomain] at failed
  repeat' split at failed
  all_goals cases failed

theorem Host.ofText_ne_missingScheme : Host.ofText chars ≠ .error .missingScheme := by
  intro failed
  rw [Host.ofText] at failed
  repeat' split at failed
  all_goals cases failed

theorem readHost_ne_missingScheme {kind : SchemeKind} :
    readHost kind chars ≠ .error .missingScheme := by
  rw [readHost]
  split
  · exact Host.ofDomain_ne_missingScheme
  · exact Host.ofText_ne_missingScheme

theorem readUserInfo_ne_missingScheme {kind : SchemeKind} :
    readUserInfo kind chars ≠ .error .missingScheme := by
  intro failed
  rw [readUserInfo, List.span_eq_takeWhile_dropWhile] at failed
  dsimp only at failed
  repeat' split at failed
  all_goals cases failed

theorem readPort_ne_missingScheme : readPort scheme chars ≠ .error .missingScheme := by
  intro failed
  rw [readPort, List.span_eq_takeWhile_dropWhile] at failed
  dsimp only at failed
  repeat' split at failed
  all_goals cases failed

section Results

variable {α β : Type}

theorem ok_ne_missingScheme (value : α) : Except.ok value ≠ Except.error UrlError.missingScheme :=
  nofun

theorem emptyHost_ne_missingScheme :
    (Except.error UrlError.emptyHost : Except UrlError α) ≠ .error .missingScheme :=
  nofun

theorem bind_ne_error {error : UrlError} {first : Except UrlError α}
    {next : α → Except UrlError β} (firstOther : first ≠ .error error)
    (nextOther : ∀ value, next value ≠ .error error) : first >>= next ≠ .error error := by
  cases first with
  | error other =>
      intro failed
      cases failed
      exact firstOther rfl
  | ok value => exact nextOther value

end Results

theorem authorityOf_ne_missingScheme {info : List Char} (host : UrlHost) :
    authorityOf scheme info chars host ≠ .error .missingScheme := by
  rw [authorityOf.eq_def]
  dsimp only [bind, Except.bind]
  split
  · exact emptyHost_ne_missingScheme
  split
  · exact emptyHost_ne_missingScheme
  split
  · exact bind_ne_error readPort_ne_missingScheme fun _ => ok_ne_missingScheme _
  · exact ok_ne_missingScheme _

theorem readAuthority_ne_missingScheme : readAuthority scheme chars ≠ .error .missingScheme := by
  cases readInfo : readUserInfo (.ofScheme scheme) chars with
  | error error =>
      have other : readUserInfo (.ofScheme scheme) chars ≠ .error .missingScheme :=
        readUserInfo_ne_missingScheme
      rw [readInfo] at other
      rw [readAuthority, readInfo]
      intro failed
      cases failed
      exact other rfl
  | ok pair =>
      rcases span : spanHost (.ofScheme scheme) false pair.2 with ⟨written, afterHost⟩
      rw [readAuthority_eq readInfo span]
      split
      · exact emptyHost_ne_missingScheme
      · exact bind_ne_error readHost_ne_missingScheme authorityOf_ne_missingScheme

theorem readFromAuthority_ne_missingScheme :
    readFromAuthority scheme chars ≠ .error .missingScheme := by
  rw [readFromAuthority]
  exact bind_ne_error readAuthority_ne_missingScheme fun _ => ok_ne_missingScheme _

theorem readOther_ne_missingScheme : readOther scheme chars ≠ .error .missingScheme := by
  rw [readOther.eq_def]
  split
  · exact readFromAuthority_ne_missingScheme
  · exact ok_ne_missingScheme _
  · exact ok_ne_missingScheme _

theorem readFile_ne_missingScheme : readFile chars ≠ .error .missingScheme := by
  rw [readFile]
  split
  · exact ok_ne_missingScheme _
  split
  · exact ok_ne_missingScheme _
  dsimp only
  split
  · exact ok_ne_missingScheme _
  split
  · exact ok_ne_missingScheme _
  refine bind_ne_error Host.ofDomain_ne_missingScheme fun host => ?_
  split <;> exact ok_ne_missingScheme _

theorem parse_eq_missingScheme_iff {written : List Char} :
    parse written = .error .missingScheme ↔ scheme? (trimmed written) = none := by
  rw [parse]
  cases scheme? (trimmed written) with
  | none => exact ⟨fun _ => rfl, fun _ => rfl⟩
  | some pair =>
      refine ⟨fun failed => absurd failed ?_, fun none => absurd none (Option.some_ne_none _)⟩
      dsimp only
      split
      · exact readFile_ne_missingScheme
      · exact readFromAuthority_ne_missingScheme
      · exact readOther_ne_missingScheme

end MarkupExport.Url
